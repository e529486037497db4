import Mathlib.Data.Set.Function
import LuaPages.Proofs.Text.Bytes
import LuaPages.Sinks

namespace LuaPages.Sinks

variable {σ ε : Type} (p : Printer σ ε)

def after : Sinks σ → List SinkStep → Sinks σ
  | s, [] => s
  | s, x :: rest => after (step p s x).1 rest

/-- The answer to a step is given by the sinks that the steps before it leave. -/
theorem getElem?_run (s : Sinks σ) (before rest : List SinkStep) (x : SinkStep) :
    (run p s (before ++ x :: rest))[before.length]? = some (step p (after p s before) x).2 := by
  induction before generalizing s with
  | nil => rfl
  | cons y before ih => exact ih _

/-- The handles made by a step, each with the handle of the `new` that it descends from, if those made
before it descend from `origins`. -/
def SinkStep.madeBy (origins : List Nat) : SinkStep → List Nat
  | .new => [origins.length]
  | .clone h => origins[h]?.toList
  | _ => []

/-- For each handle that some steps have made, the handle of the `new` that it descends from. -/
def originsFrom : List Nat → List SinkStep → List Nat
  | origins, [] => origins
  | origins, x :: rest => originsFrom (origins ++ SinkStep.madeBy origins x) rest

/-- Each handle stands for the buffer of its origin, and different origins have different buffers. -/
structure Descends (s : Sinks σ) (origins : List Nat) (bufferOf : Nat → Nat) : Prop where
  handles_eq : s.handles = origins.map bufferOf
  injective : Set.InjOn bufferOf {r | r ∈ origins}
  origin_lt : ∀ r ∈ origins, r < origins.length
  buffer_lt : ∀ r ∈ origins, bufferOf r < s.buffers.length

theorem absorb_cons (s : Sinks σ) (e : Nat × Bytes) (output : List (Nat × Bytes)) :
    s.absorb (e :: output) = (s.append e.1 e.2).absorb output := rfl

theorem handles_absorb (s : Sinks σ) (output : List (Nat × Bytes)) :
    (s.absorb output).handles = s.handles := by
  induction output generalizing s with
  | nil => rfl
  | cons e output ih => exact ih _

theorem states_absorb (s : Sinks σ) (output : List (Nat × Bytes)) :
    (s.absorb output).states = s.states := by
  induction output generalizing s with
  | nil => rfl
  | cons e output ih => exact ih _

theorem length_buffers_absorb (s : Sinks σ) (output : List (Nat × Bytes)) :
    (s.absorb output).buffers.length = s.buffers.length := by
  induction output generalizing s with
  | nil => rfl
  | cons e output ih => exact (ih _).trans (List.length_modify ..)

def made (s : Sinks σ) : SinkStep → List Nat
  | .new => [s.buffers.length]
  | .clone h => (s.bufferOf? h).toList
  | _ => []

theorem handles_step (s : Sinks σ) (x : SinkStep) :
    (step p s x).1.handles = s.handles ++ s.made x := by
  cases x <;> simp only [step, made, List.append_nil] <;> split <;>
    simp_all [handles_absorb, setState, append]

def newBuffers : SinkStep → Nat
  | .new => 1
  | _ => 0

theorem length_buffers_step (s : Sinks σ) (x : SinkStep) :
    (step p s x).1.buffers.length = s.buffers.length + newBuffers x := by
  cases x <;> simp only [step, newBuffers] <;> try split
  all_goals simp [length_buffers_absorb, setState, append]

/-- The handle of a `new` is an origin of its own. -/
theorem Descends.new {s : Sinks σ} {origins : List Nat} {f : Nat → Nat} (h : Descends s origins f) :
    Descends (step p s .new).1 (origins ++ SinkStep.madeBy origins .new)
      (Function.update f origins.length s.buffers.length) := by
  have hlength := length_buffers_step p s .new
  have hhandles := handles_step p s .new
  -- the new origin is not among the old ones, so they keep their buffers
  have hsame : ∀ r ∈ origins, Function.update f origins.length s.buffers.length r = f r :=
    fun r hr => Function.update_of_ne (h.origin_lt r hr).ne _ f
  have hnew : Function.update f origins.length s.buffers.length origins.length = s.buffers.length :=
    Function.update_self ..
  refine ⟨?_, ?_, ?_, ?_⟩
  · rw [hhandles, h.handles_eq, List.map_append]
    exact congrArg₂ _ (List.map_congr_left fun r hr => (hsame r hr).symm) (congrArg (fun b => [b]) hnew.symm)
  · intro r hr r' hr' heq
    simp only [SinkStep.madeBy, List.mem_append, List.mem_singleton, Set.mem_ofPred_eq] at hr hr'
    rcases hr with hr | rfl <;> rcases hr' with hr' | rfl
    · exact h.injective hr hr' (by rwa [hsame r hr, hsame r' hr'] at heq)
    · rw [hsame r hr, hnew] at heq
      exact absurd heq (h.buffer_lt r hr).ne
    · rw [hsame r' hr', hnew] at heq
      exact absurd heq (h.buffer_lt r' hr').ne'
    · rfl
  · intro r hr
    simp only [SinkStep.madeBy, List.mem_append, List.mem_singleton] at hr
    rw [SinkStep.madeBy, List.length_append]
    rcases hr with hr | rfl
    · exact Nat.lt_succ_of_lt (h.origin_lt r hr)
    · exact Nat.lt_succ_self _
  · intro r hr
    simp only [SinkStep.madeBy, List.mem_append, List.mem_singleton] at hr
    rw [hlength]
    rcases hr with hr | rfl
    · rw [hsame r hr]
      exact Nat.lt_succ_of_lt (h.buffer_lt r hr)
    · rw [hnew]
      exact Nat.lt_succ_self _

theorem Descends.clone {s : Sinks σ} {origins : List Nat} {f : Nat → Nat} (h : Descends s origins f)
    (k : Nat) : Descends (step p s (.clone k)).1 (origins ++ SinkStep.madeBy origins (.clone k)) f := by
  have hlength := length_buffers_step p s (.clone k)
  have hhandles := handles_step p s (.clone k)
  have hmem : ∀ r ∈ origins ++ origins[k]?.toList, r ∈ origins := by
    intro r hr
    rcases List.mem_append.mp hr with hr | hr
    · exact hr
    · exact List.mem_of_getElem? (Option.mem_toList.mp hr)
  refine ⟨?_, ?_, ?_, ?_⟩
  · rw [hhandles, made, bufferOf?, h.handles_eq, List.getElem?_map, List.map_append, SinkStep.madeBy]
    cases origins[k]? <;> rfl
  · exact h.injective.mono hmem
  · intro r hr
    rw [List.length_append]
    exact Nat.lt_add_right _ (h.origin_lt r (hmem r hr))
  · intro r hr
    rw [hlength]
    exact h.buffer_lt r (hmem r hr)

theorem Descends.step {s : Sinks σ} {origins : List Nat} {f : Nat → Nat} (h : Descends s origins f)
    (x : SinkStep) : ∃ f', Descends (step p s x).1 (origins ++ SinkStep.madeBy origins x) f' := by
  have hlength := length_buffers_step p s x
  have hhandles := handles_step p s x
  cases x with
  | new => exact ⟨_, h.new p⟩
  | clone k => exact ⟨f, h.clone p k⟩
  | _ =>
    refine ⟨f, ?_, ?_, ?_, ?_⟩
    all_goals simp only [SinkStep.madeBy, List.append_nil]
    · exact (hhandles.trans (List.append_nil _)).trans h.handles_eq
    · exact h.injective
    · exact h.origin_lt
    · rw [hlength]
      exact h.buffer_lt

theorem Descends.after {s : Sinks σ} {origins : List Nat} {f : Nat → Nat} (h : Descends s origins f)
    (l : List SinkStep) : ∃ f', Descends (after p s l) (originsFrom origins l) f' := by
  induction l generalizing s origins f with
  | nil => exact ⟨f, h⟩
  | cons x l ih =>
    obtain ⟨f', h'⟩ := h.step p x
    exact ih h'

/-- Handles stand for one buffer when they descend from one `new`. -/
theorem Descends.same_iff {s : Sinks σ} {origins : List Nat} {f : Nat → Nat} (h : Descends s origins f)
    {i j r r' : Nat} (hi : origins[i]? = some r) (hj : origins[j]? = some r') :
    s.bufferOf? i = s.bufferOf? j ↔ r = r' := by
  rw [bufferOf?, bufferOf?, h.handles_eq, List.getElem?_map, List.getElem?_map, hi, hj]
  constructor
  · intro hsame
    exact h.injective (List.mem_of_getElem? hi) (List.mem_of_getElem? hj) (Option.some.inj hsame)
  · rintro rfl
    rfl

theorem Descends.empty : Descends (.empty : Sinks σ) [] id :=
  ⟨rfl, fun _ h => absurd h List.not_mem_nil, fun _ h => absurd h List.not_mem_nil,
    fun _ h => absurd h List.not_mem_nil⟩

/-- There is an origin for each handle. -/
theorem length_handles_after (l : List SinkStep) :
    (after p .empty l).handles.length = (originsFrom [] l).length := by
  obtain ⟨f, h⟩ := Descends.empty.after p l
  rw [h.handles_eq, List.length_map]

/-- Handles share a buffer when they share their origin. -/
theorem bufferOf?_eq_iff {l : List SinkStep} {i j : Nat} (hi : i < (after p .empty l).handles.length)
    (hj : j < (after p .empty l).handles.length) :
    (after p .empty l).bufferOf? i = (after p .empty l).bufferOf? j ↔
      (originsFrom [] l)[i]? = (originsFrom [] l)[j]? := by
  obtain ⟨f, h⟩ := Descends.empty.after p l
  rw [length_handles_after] at hi hj
  have hget {k : Nat} (hk : k < (originsFrom [] l).length) := List.getElem?_eq_getElem hk
  rw [h.same_iff (hget hi) (hget hj), hget hi, hget hj, Option.some.injEq]

theorem bufferOf?_lt {l : List SinkStep} {k b : Nat}
    (h : (after p .empty l).bufferOf? k = some b) : b < (after p .empty l).buffers.length := by
  obtain ⟨f, hdescends⟩ := Descends.empty.after p l
  rw [bufferOf?, hdescends.handles_eq, List.getElem?_map] at h
  obtain ⟨r, hr, rfl⟩ := Option.map_eq_some_iff.mp h
  exact hdescends.buffer_lt r (List.mem_of_getElem? hr)

def appended (s : Sinks σ) : SinkStep → List (Nat × Bytes)
  | .write h bytes => (s.bufferOf? h).toList.map fun b => (b, bytes)
  | .interpreter h =>
    match s.bufferOf? h with
    | some b => (p.register p.initial b).output
    | none => []
  | .register id h =>
    match s.bufferOf? h, s.states[id]? with
    | some b, some state => (p.register state b).output
    | _, _ => []
  | .exec id code =>
    match s.states[id]? with
    | some state => (p.exec state code).output
    | none => []
  | _ => []

def empties (s : Sinks σ) (b : Nat) : SinkStep → Bool
  | .new => s.buffers.length == b
  | .take h => s.bufferOf? h == some b
  | _ => false

/-- The parts of some output that go to one buffer. -/
def partsOf (b : Nat) (output : List (Nat × Bytes)) : List Bytes :=
  (output.filter (·.1 == b)).map (·.2)

theorem partsOf_cons (b : Nat) (e : Nat × Bytes) (output : List (Nat × Bytes)) :
    partsOf b (e :: output) = (if e.1 = b then [e.2] else []) ++ partsOf b output := by
  unfold partsOf
  by_cases h : e.1 = b <;> simp [h]

theorem content_append {s : Sinks σ} {b : Nat} (hb : b < s.buffers.length) (buffer : Nat)
    (bytes : Bytes) :
    (s.append buffer bytes).content b =
      s.content b ++ Bytes.concat (if buffer = b then [bytes] else []) := by
  have hget (l : List Bytes) : l.getD b .empty = (l[b]?).getD .empty := List.getD_eq_getElem?_getD
  rw [content, content, append, hget, hget, List.getElem?_modify, List.getElem?_eq_getElem hb]
  by_cases h : buffer = b
  · simp [h, Bytes.concat]
  · simp [h, Bytes.concat]

theorem content_absorb {s : Sinks σ} {b : Nat} (hb : b < s.buffers.length)
    (output : List (Nat × Bytes)) :
    (s.absorb output).content b = s.content b ++ Bytes.concat (partsOf b output) := by
  induction output generalizing s with
  | nil => exact ByteArray.append_empty.symm
  | cons e output ih =>
    have hb' : b < (s.append e.1 e.2).buffers.length := hb.trans_eq (List.length_modify ..).symm
    rw [absorb_cons, ih hb', content_append hb, ByteArray.append_assoc, ← Bytes.concat_append,
      partsOf_cons]

theorem content_eq_of_buffers_eq {s s' : Sinks σ} (h : s'.buffers = s.buffers) (b : Nat) :
    s'.content b = s.content b := congrArg (·.getD b .empty) h

theorem content_new {s : Sinks σ} {b : Nat} (hb : b < s.buffers.length + 1) :
    (step p s .new).1.content b = if s.buffers.length = b then .empty else s.content b := by
  change (s.buffers ++ [ByteArray.empty]).getD b .empty = _
  rw [List.getD_eq_getElem?_getD]
  split
  · rename_i h
    simp [h.symm]
  · have hlt : b < s.buffers.length := by omega
    rw [List.getElem?_append_left hlt]
    exact (List.getD_eq_getElem?_getD).symm

/-- A buffer that is taken is empty afterwards, and the others are as they were. -/
theorem content_take {s : Sinks σ} {k b : Nat} (h : s.bufferOf? k = some b) (other : Nat) :
    (step p s (.take k)).1.content other = if other = b then .empty else s.content other := by
  have hset : (step p s (.take k)).1.content other = (s.buffers.set b .empty).getD other .empty := by
    simp only [step, h]
    rfl
  rw [hset, content, List.getD_eq_getElem?_getD, List.getD_eq_getElem?_getD, List.getElem?_set]
  by_cases hother : other = b
  · subst hother
    by_cases hlt : other < s.buffers.length <;> simp [hlt]
  · simp [hother, Ne.symm hother]

/-- A step that neither makes nor takes a buffer only appends to buffers. -/
theorem step_absorbs (s : Sinks σ) {x : SinkStep} (hnew : x ≠ .new) (htake : ∀ k, x ≠ .take k) :
    ∃ s' : Sinks σ, s'.buffers = s.buffers ∧ (step p s x).1 = s'.absorb (appended p s x) := by
  cases x with
  | new => exact absurd rfl hnew
  | take k => exact absurd rfl (htake k)
  | clone k =>
    simp only [step]
    split
    · exact ⟨{ s with handles := s.handles ++ [_] }, rfl, rfl⟩
    · exact ⟨s, rfl, rfl⟩
  | length k =>
    simp only [step]
    split <;> exact ⟨s, rfl, rfl⟩
  | write k bytes =>
    cases hbuffer : s.bufferOf? k <;> simp only [step, appended, hbuffer] <;> exact ⟨s, rfl, rfl⟩
  | interpreter k =>
    cases hbuffer : s.bufferOf? k <;> simp only [step, appended, hbuffer]
    · exact ⟨s, rfl, rfl⟩
    · exact ⟨{ s with states := s.states ++ [_] }, rfl, rfl⟩
  | register id k =>
    cases hbuffer : s.bufferOf? k <;> cases hstate : s.states[id]? <;>
      simp only [step, appended, hbuffer, hstate]
    case some.some => exact ⟨s.setState id _, rfl, rfl⟩
    all_goals exact ⟨s, rfl, rfl⟩
  | exec id code =>
    cases hstate : s.states[id]? <;> simp only [step, appended, hstate]
    · exact ⟨s, rfl, rfl⟩
    · exact ⟨s.setState id _, rfl, rfl⟩

/-- What is in a buffer after a step. -/
theorem content_step {s : Sinks σ} {b : Nat} (x : SinkStep)
    (hb : b < (step p s x).1.buffers.length) :
    (step p s x).1.content b =
      bif empties s b x then .empty else s.content b ++ Bytes.concat (partsOf b (appended p s x)) := by
  have hnothing : s.content b = s.content b ++ Bytes.concat (partsOf b []) :=
    ByteArray.append_empty.symm
  rw [length_buffers_step] at hb
  -- all steps but `new` and `take` only append
  by_cases hnew : x = .new
  · subst hnew
    rw [content_new p hb, empties]
    by_cases h : s.buffers.length = b
    · rw [if_pos h, beq_iff_eq.mpr h, cond_true]
    · rw [if_neg h, beq_false_of_ne h]
      exact hnothing
  by_cases htake : ∃ k, x = .take k
  · obtain ⟨k, rfl⟩ := htake
    cases hbuffer : s.bufferOf? k with
    | none =>
      simp only [step, empties, hbuffer]
      exact hnothing
    | some buffer =>
      rw [content_take p hbuffer, empties, hbuffer]
      by_cases h : b = buffer
      · rw [if_pos h, h, beq_self_eq_true, cond_true]
      · rw [if_neg h, beq_false_of_ne (mt Option.some.inj (Ne.symm h))]
        exact hnothing
  · obtain ⟨s', hbuffers, hs'⟩ := step_absorbs p s hnew fun k hk => htake ⟨k, hk⟩
    have hempties : empties s b x = false := by
      cases x with
      | new => exact absurd rfl hnew
      | take k => exact absurd ⟨k, rfl⟩ htake
      | _ => rfl
    have hlt : b < s'.buffers.length := by
      rw [hbuffers]
      cases x with
      | new => exact absurd rfl hnew
      | _ => exact hb
    rw [hs', content_absorb hlt, content_eq_of_buffers_eq hbuffers, hempties, cond_false]

/-- What has been appended to a buffer since it was made or last taken, if `parts` has been before. -/
def pending (b : Nat) : Sinks σ → List Bytes → List SinkStep → List Bytes
  | _, parts, [] => parts
  | s, parts, x :: rest =>
    pending b (step p s x).1 (bif empties s b x then [] else parts ++ partsOf b (appended p s x)) rest

/-- A buffer holds what has been appended since it was made or last taken, in order. -/
theorem content_after {s : Sinks σ} {b : Nat} {parts : List Bytes}
    (h : b < s.buffers.length → s.content b = Bytes.concat parts) (l : List SinkStep)
    (hb : b < (after p s l).buffers.length) :
    (after p s l).content b = Bytes.concat (pending p b s parts l) := by
  induction l generalizing s parts with
  | nil => exact h hb
  | cons x l ih =>
    refine ih ?_ hb
    intro hlt
    rw [content_step p x hlt]
    cases hempties : empties s b x with
    | true => rfl
    | false =>
      have hold : b < s.buffers.length := by
        rw [length_buffers_step] at hlt
        cases x with
        | new =>
          have hne : s.buffers.length ≠ b := by simpa [empties] using hempties
          change b < s.buffers.length + 1 at hlt
          omega
        | _ => exact hlt
      rw [cond_false, cond_false, Bytes.concat_append, h hold]

/-- A buffer in use holds what has been appended to it since it was made or last taken. -/
theorem content_of_bufferOf? {l : List SinkStep} {k b : Nat}
    (h : (after p .empty l).bufferOf? k = some b) :
    (after p .empty l).content b = Bytes.concat (pending p b .empty [] l) :=
  content_after p (fun hb => absurd hb (Nat.not_lt_zero b)) l (bufferOf?_lt p h)

def binds (s : Sinks σ) (id : Nat) : SinkStep → List Nat
  | .interpreter h => if s.states.length = id then (s.bufferOf? h).toList else []
  | .register k h => if k = id then (s.bufferOf? h).toList else []
  | _ => []

def boundTo (id : Nat) : Sinks σ → List SinkStep → List Nat
  | _, [] => []
  | s, x :: rest => binds s id x ++ boundTo id (step p s x).1 rest

theorem boundTo_append (id : Nat) (s : Sinks σ) (l r : List SinkStep) :
    boundTo p id s (l ++ r) = boundTo p id s l ++ boundTo p id (after p s l) r := by
  induction l generalizing s with
  | nil => rfl
  | cons x l ih => rw [List.cons_append, boundTo, ih, boundTo, List.append_assoc]; rfl

variable {p} {s : Sinks σ} {id : Nat}

theorem getElem?_set_cases {l : List σ} {k : Nat} {a state : σ} (hget : (l.set k a)[id]? = some state) :
    (k = id ∧ state = a) ∨ l[id]? = some state := by
  rw [List.getElem?_set] at hget
  split at hget
  · rename_i hk
    split at hget
    · exact .inl ⟨hk, (Option.some.inj hget).symm⟩
    · cases hget
  · exact .inr hget

theorem getElem?_concat_cases {l : List σ} {a state : σ} (hget : (l ++ [a])[id]? = some state) :
    (l.length = id ∧ state = a) ∨ l[id]? = some state := by
  by_cases h : id < l.length
  · rw [List.getElem?_append_left h] at hget
    exact .inr hget
  · rw [List.getElem?_append_right (Nat.le_of_not_lt h), List.getElem?_singleton] at hget
    split at hget
    · exact .inl ⟨by omega, (Option.some.inj hget).symm⟩
    · cases hget

variable (p) in
def ran (s : Sinks σ) : SinkStep → Option (Nat × Printed σ ε)
  | .interpreter h => (s.bufferOf? h).map fun b => (s.states.length, p.register p.initial b)
  | .register id h =>
    match s.bufferOf? h, s.states[id]? with
    | some b, some state => some (id, p.register state b)
    | _, _ => none
  | .exec id code => (s.states[id]?).map fun state => (id, p.exec state code)
  | _ => none

/-- A step changes the state of the interpreter that runs in it only. -/
theorem getElem?_states_step {x : SinkStep} {state : σ}
    (hget : (step p s x).1.states[id]? = some state) :
    (∃ r, ran p s x = some (id, r) ∧ r.state = state) ∨ s.states[id]? = some state := by
  cases x with
  | interpreter h =>
    cases hbuffer : s.bufferOf? h <;> simp only [step, hbuffer, states_absorb] at hget
    · exact .inr hget
    · refine (getElem?_concat_cases hget).imp (fun ⟨hid, hstate⟩ => ⟨_, ?_, hstate.symm⟩) fun h => h
      rw [ran, hbuffer, ← hid]
      rfl
  | register k h =>
    cases hbuffer : s.bufferOf? h <;> cases hold : s.states[k]? <;>
      simp only [step, hbuffer, hold, states_absorb, setState] at hget
    case some.some =>
      refine (getElem?_set_cases hget).imp (fun ⟨hid, hstate⟩ => ⟨_, ?_, hstate.symm⟩) fun h => h
      rw [← hid]
      simp only [ran, hbuffer, hold]
    all_goals exact .inr hget
  | exec k code =>
    cases hold : s.states[k]? <;> simp only [step, hold, states_absorb, setState] at hget
    · exact .inr hget
    · refine (getElem?_set_cases hget).imp (fun ⟨hid, hstate⟩ => ⟨_, ?_, hstate.symm⟩) fun h => h
      rw [ran, hold, ← hid]
      rfl
  | new => exact .inr hget
  | clone h | write h bytes | length h | take h =>
    simp only [step] at hget
    split at hget <;> exact .inr hget

def runs? (s : Sinks σ) : SinkStep → Option Nat
  | .interpreter _ => some s.states.length
  | .register id _ | .exec id _ => some id
  | _ => none

theorem runs?_of_ran {x : SinkStep} {r : Printed σ ε} (hran : ran p s x = some (id, r)) :
    runs? s x = some id := by
  cases x with
  | interpreter h =>
    obtain ⟨b, -, heq⟩ := Option.map_eq_some_iff.mp hran
    exact congrArg some (Prod.mk.inj heq).1
  | register k h =>
    cases hbuffer : s.bufferOf? h <;> cases hold : s.states[k]? <;>
      simp only [ran, hbuffer, hold, Option.some.injEq, reduceCtorEq] at hran
    exact congrArg some (Prod.mk.inj hran).1
  | exec k code =>
    obtain ⟨state, -, heq⟩ := Option.map_eq_some_iff.mp hran
    exact congrArg some (Prod.mk.inj heq).1
  | new | clone h | write h bytes | length h | take h => cases hran

/-- A step in which an interpreter is to run appends what it prints. -/
theorem exists_ran_of_mem_appended {x : SinkStep} (hruns : runs? s x = some id) {e : Nat × Bytes}
    (he : e ∈ appended p s x) : ∃ r, ran p s x = some (id, r) ∧ e ∈ r.output := by
  cases x with
  | interpreter h =>
    obtain rfl := Option.some.inj hruns
    cases hbuffer : s.bufferOf? h <;> simp only [appended, hbuffer, List.not_mem_nil] at he
    exact ⟨_, by rw [ran, hbuffer]; rfl, he⟩
  | register k h =>
    obtain rfl := Option.some.inj hruns
    cases hbuffer : s.bufferOf? h <;> cases hold : s.states[k]? <;>
      simp only [appended, hbuffer, hold, List.not_mem_nil] at he
    exact ⟨_, by simp only [ran, hbuffer, hold], he⟩
  | exec k code =>
    obtain rfl := Option.some.inj hruns
    cases hold : s.states[k]? <;> simp only [appended, hold, List.not_mem_nil] at he
    exact ⟨_, by rw [ran, hold]; rfl, he⟩
  | new | clone h | write h bytes | length h | take h => cases hruns

variable (p) in
/-- What interpreters can reach stays `within` the buffers that their `print` functions have been bound
to. They print only what the `print` calls for these buffers print that are made in the step, by
`prints`, or were let wait by earlier ones. -/
def Loyal (within : (Nat → Prop) → (Nat × Bytes → Prop) → σ → Prop)
    (prints : Sinks σ → SinkStep → Nat × Bytes → Prop) : Prop :=
  ∀ K L s x id r, ran p s x = some (id, r) → (∀ b ∈ binds s id x, K b) →
    (∀ state, s.states[id]? = some state → within K L state) → (∀ e, K e.1 → prints s x e → L e) →
    within K L r.state ∧ ∀ e ∈ r.output, L e

variable {within : (Nat → Prop) → (Nat × Bytes → Prop) → σ → Prop}
variable {prints : Sinks σ → SinkStep → Nat × Bytes → Prop} {K : Nat → Prop} {L : Nat × Bytes → Prop}

/-- The state of an interpreter stays within its bounds. -/
theorem Loyal.within_step (hp : Loyal p within prints) {x : SinkStep} (hbound : ∀ b ∈ binds s id x, K b)
    (hprints : runs? s x = some id → ∀ e, K e.1 → prints s x e → L e)
    (hstate : ∀ state, s.states[id]? = some state → within K L state) :
    ∀ state, (step p s x).1.states[id]? = some state → within K L state := by
  intro state hget
  rcases getElem?_states_step hget with ⟨r, hran, rfl⟩ | hget
  · exact (hp K L s x id r hran hbound hstate (hprints (runs?_of_ran hran))).1
  · exact hstate state hget

theorem Loyal.within_after (hp : Loyal p within prints) {l : List SinkStep}
    (hbound : ∀ b ∈ boundTo p id s l, K b)
    (hprints : ∀ before x rest, l = before ++ x :: rest → runs? (after p s before) x = some id →
      ∀ e, K e.1 → prints (after p s before) x e → L e)
    (hstate : ∀ state, s.states[id]? = some state → within K L state) :
    ∀ state, (after p s l).states[id]? = some state → within K L state := by
  induction l generalizing s with
  | nil => exact hstate
  | cons x l ih =>
    refine ih (fun b hb => hbound b (List.mem_append_right _ hb)) (fun before y rest hl => ?_) ?_
    · exact hprints (x :: before) y rest (congrArg (x :: ·) hl)
    · exact hp.within_step (fun b hb => hbound b (List.mem_append_left _ hb)) (hprints [] x l rfl) hstate

/-- What an interpreter prints has been printed by its `print` calls, into buffers that its `print`
functions have been bound to. -/
theorem Loyal.mem_appended (hp : Loyal p within prints) {x : SinkStep} (hruns : runs? s x = some id)
    (hbound : ∀ b ∈ binds s id x, K b) (hprints : ∀ e, K e.1 → prints s x e → L e)
    (hstate : ∀ state, s.states[id]? = some state → within K L state) :
    ∀ e ∈ appended p s x, L e := by
  intro e he
  obtain ⟨r, hran, he⟩ := exists_ran_of_mem_appended hruns he
  exact (hp K L s x id r hran hbound hstate hprints).2 e he

end LuaPages.Sinks
