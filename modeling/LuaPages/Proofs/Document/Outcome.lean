import LuaPages.Document.Deadline
import LuaPages.Proofs.Document.Reading

namespace LuaPages

namespace Destination

theorem write_empty (d : Destination) : d.write .empty = (d, true) := by
  obtain ⟨written, _ | n⟩ := d
  · simp only [write, ByteArray.append_empty]
  · simp only [write, Bytes.extract_zero_of_le .empty n (Nat.zero_le n), ByteArray.append_empty,
      ByteArray.size_empty, Nat.sub_zero, Nat.zero_le, decide_true]

/-- Two writes do what one does. The second one adds nothing if the first was refused. -/
theorem write_append (d : Destination) (a b : Bytes) :
    d.write (a ++ b) = (((d.write a).1.write b).1, (d.write a).2 && ((d.write a).1.write b).2) := by
  obtain ⟨written, _ | n⟩ := d
  · simp only [write, ByteArray.append_assoc, Bool.and_self]
  · have htaken : decide (a.size + b.size ≤ n) =
        (decide (a.size ≤ n) && decide (b.size ≤ n - a.size)) := by
      rw [← Bool.decide_and]
      exact decide_eq_decide.mpr (by omega)
    simp only [write, Bytes.extract_zero_append, ByteArray.append_assoc, ByteArray.size_append,
      Nat.sub_sub, htaken]

theorem write_of_refused (d : Destination) (a b : Bytes) (h : (d.write a).2 = false) :
    ((d.write a).1.write b).1 = (d.write a).1 := by
  obtain ⟨written, _ | n⟩ := d
  · cases h
  · have hn : n - a.size = 0 := by
      simp only [write, decide_eq_false_iff_not] at h
      omega
    simp only [write, hn, ByteArray.extract_same, ByteArray.append_empty, Nat.zero_sub]

end Destination

namespace Document

/-- What came of a run: its session and its destination at the end, why it stopped if it did, and the
chunks it ran, each with the number of bytes that the destination had before. -/
structure Outcome (σ ε : Type) where
  session : Session σ
  out : Destination
  failure : Option (Failure ε)
  ran : List (Bytes × Nat)

namespace Outcome

variable {σ ε : Type}

def done (s : Session σ) (out : Destination) : Outcome σ ε := ⟨s, out, none, []⟩

def after (o : Outcome σ ε) (before : List (Bytes × Nat)) : Outcome σ ε :=
  { o with ran := before ++ o.ran }

def andThen (o : Outcome σ ε) (next : Session σ → Destination → Outcome σ ε) : Outcome σ ε :=
  match o.failure with
  | some _ => o
  | none => (next o.session o.out).after o.ran

theorem andThen_of_failed (o : Outcome σ ε) (next : Session σ → Destination → Outcome σ ε)
    (h : o.failure ≠ none) : o.andThen next = o := by
  cases hf : o.failure with
  | none => exact absurd hf h
  | some f => rw [andThen, hf]

theorem andThen_of_done (o : Outcome σ ε) (next : Session σ → Destination → Outcome σ ε)
    (h : o.failure = none) : o.andThen next = (next o.session o.out).after o.ran := by
  rw [andThen, h]

theorem done_andThen (s : Session σ) (out : Destination)
    (next : Session σ → Destination → Outcome σ ε) : (done s out).andThen next = next s out := rfl

theorem andThen_done (o : Outcome σ ε) : o.andThen done = o := by
  by_cases h : o.failure = none
  · rw [andThen_of_done o _ h, done, after, List.append_nil, ← h]
  · exact andThen_of_failed o _ h

theorem after_andThen (o : Outcome σ ε) (before : List (Bytes × Nat))
    (next : Session σ → Destination → Outcome σ ε) :
    (o.after before).andThen next = (o.andThen next).after before := by
  by_cases h : o.failure = none
  · rw [andThen_of_done o next h, andThen_of_done (o.after before) next h]
    simp only [after, List.append_assoc]
  · rw [andThen_of_failed o next h, andThen_of_failed (o.after before) next h]

theorem andThen_assoc (o : Outcome σ ε) (f g : Session σ → Destination → Outcome σ ε) :
    (o.andThen f).andThen g = o.andThen fun s out => (f s out).andThen g := by
  by_cases h : o.failure = none
  · rw [andThen_of_done o f h, andThen_of_done o _ h, after_andThen]
  · rw [andThen_of_failed o f h, andThen_of_failed o g h, andThen_of_failed o _ h]

end Outcome

variable {σ ε : Type}

def writing (b : Bytes) (s : Session σ) (out : Destination) : Outcome σ ε :=
  ⟨s, (out.write b).1, if (out.write b).2 then none else some .refused, []⟩

def running (behaviour : Behaviour σ ε) (line : Nat) (c : Bytes) (s : Session σ) (out : Destination) :
    Outcome σ ε :=
  match s.exec behaviour c with
  | (s, some e) => ⟨s, out, some (.script line e), [(c, out.written.size)]⟩
  | (s, none) =>
    let (s, out', taken) := s.drain out
    ⟨s, out', if taken then none else some .refused, [(c, out.written.size)]⟩

theorem writing_empty (s : Session σ) (out : Destination) :
    writing .empty s out = (.done s out : Outcome σ ε) := by
  rw [writing, Destination.write_empty]
  rfl

theorem writing_append (a b : Bytes) (s : Session σ) (out : Destination) :
    (writing (a ++ b) s out : Outcome σ ε) = (writing a s out).andThen (writing b) := by
  cases h : (out.write a).2 with
  | true =>
    rw [Outcome.andThen_of_done _ _ (by rw [writing, h]; rfl)]
    simp only [writing, Destination.write_append, h, Bool.true_and, Outcome.after, List.append_nil]
  | false =>
    rw [Outcome.andThen_of_failed _ _ (by rw [writing, h]; exact Option.some_ne_none _)]
    simp only [writing, Destination.write_append, h, Bool.false_and,
      Destination.write_of_refused out a b h]

namespace Segment

/-- What a segment does that begins on a line. -/
def perform (behaviour : Behaviour σ ε) (line : Nat) : Segment → Session σ → Destination → Outcome σ ε
  | text b => writing b
  | region c | unclosed c => running behaviour (line + c.lineFeeds) c

def expand (behaviour : Behaviour σ ε) : List Segment → Nat → Session σ → Destination → Outcome σ ε
  | [], _, s, out => .done s out
  | x :: l, line, s, out =>
    (x.perform behaviour line s out).andThen (expand behaviour l (line + x.written.lineFeeds))

theorem expand_append (behaviour : Behaviour σ ε) (l r : List Segment) (line : Nat) (s : Session σ)
    (out : Destination) :
    expand behaviour (l ++ r) line s out =
      (expand behaviour l line s out).andThen
        (expand behaviour r (line + (assemble l).lineFeeds)) := by
  induction l generalizing line s out with
  | nil => rfl
  | cons x l ih =>
    have hlines : (assemble (x :: l)).lineFeeds = x.written.lineFeeds + (assemble l).lineFeeds := by
      rw [assemble_cons, Bytes.lineFeeds_append]
    have hl : expand behaviour (l ++ r) (line + x.written.lineFeeds) = fun s out =>
        (expand behaviour l (line + x.written.lineFeeds) s out).andThen
          (expand behaviour r (line + x.written.lineFeeds + (assemble l).lineFeeds)) := by
      funext s out
      exact ih _ s out
    rw [List.cons_append, expand, expand, hl, hlines, Outcome.andThen_assoc, Nat.add_assoc]

end Segment

end Document

section
variable {σ ε : Type}

def Behaviour.logged (behaviour : Behaviour σ ε) : Behaviour (σ × List Bytes) ε := fun s chunk =>
  let r := behaviour s.1 chunk
  ((r.1, s.2 ++ [chunk]), r.2)

/-- Runs chunks one after another: the last state and what each chunk printed, if none failed. -/
def Behaviour.runAll (behaviour : Behaviour σ ε) : σ → List Bytes → Option (σ × List Bytes)
  | state, [] => some (state, [])
  | state, c :: r =>
    match behaviour state c with
    | (state, printed, none) =>
      (runAll behaviour state r).map fun last => (last.1, printed :: last.2)
    | (_, _, some _) => none

def Session.logged (s : Session σ) (chunks : List Bytes) : Session (σ × List Bytes) :=
  ⟨(s.state, chunks), s.sink⟩

end

namespace Document

variable {σ ε : Type}

def Outcome.logged (o : Outcome σ ε) (chunks : List Bytes) : Outcome (σ × List Bytes) ε :=
  ⟨o.session.logged (chunks ++ o.ran.map Prod.fst), o.out, o.failure, o.ran⟩

theorem Outcome.logged_andThen (o : Outcome σ ε) (chunks : List Bytes)
    (next : Session σ → Destination → Outcome σ ε)
    (next' : Session (σ × List Bytes) → Destination → Outcome (σ × List Bytes) ε)
    (h : ∀ s out chunks, next' (s.logged chunks) out = (next s out).logged chunks) :
    (o.logged chunks).andThen next' = (o.andThen next).logged chunks := by
  by_cases hf : o.failure = none
  · rw [andThen_of_done o next hf, andThen_of_done (o.logged chunks) next' hf]
    change (next' (o.session.logged _) o.out).after o.ran = _
    rw [h]
    simp only [logged, after, List.map_append, List.append_assoc]
  · rw [andThen_of_failed o next hf, andThen_of_failed (o.logged chunks) next' hf]

theorem writing_logged (b : Bytes) (s : Session σ) (out : Destination) (chunks : List Bytes) :
    writing b (s.logged chunks) out = (writing b s out : Outcome σ ε).logged chunks := by
  simp only [writing, Outcome.logged, List.map_nil, List.append_nil]

theorem running_logged (behaviour : Behaviour σ ε) (line : Nat) (c : Bytes) (s : Session σ)
    (out : Destination) (chunks : List Bytes) :
    running behaviour.logged line c (s.logged chunks) out =
      (running behaviour line c s out).logged chunks := by
  rcases h : behaviour s.state c with ⟨state, printed, _ | e⟩
  · simp only [running, Session.exec, Session.drain, Session.logged, Behaviour.logged, h]
    rfl
  · simp only [running, Session.exec, Session.logged, Behaviour.logged, h]
    rfl

/-- Keeping the chunks changes nothing else. The chunks that are kept are those that are run. -/
theorem Segment.expand_logged (behaviour : Behaviour σ ε) (l : List Segment) (line : Nat)
    (s : Session σ) (out : Destination) (chunks : List Bytes) :
    expand behaviour.logged l line (s.logged chunks) out =
      (expand behaviour l line s out).logged chunks := by
  induction l generalizing line s out chunks with
  | nil => simp only [expand, Outcome.done, Outcome.logged, List.map_nil, List.append_nil]
  | cons x l ih =>
    have hx : x.perform behaviour.logged line (s.logged chunks) out =
        (x.perform behaviour line s out).logged chunks := by
      cases x with
      | text b => exact writing_logged b s out chunks
      | region c => exact running_logged behaviour _ c s out chunks
      | unclosed c => exact running_logged behaviour _ c s out chunks
    rw [expand, expand, hx]
    exact Outcome.logged_andThen _ chunks _ _ fun s out chunks => ih _ s out chunks

theorem running_of_succeeds (behaviour : Behaviour σ ε) (line : Nat) (c : Bytes) (state next : σ)
    (printed start : Bytes) (h : behaviour state c = (next, printed, none)) :
    running behaviour line c ⟨state, .empty⟩ ⟨start, none⟩ =
      ⟨⟨next, .empty⟩, ⟨start ++ printed, none⟩, none, [(c, start.size)]⟩ := by
  simp only [running, Session.exec, h, Session.drain, Destination.write, ByteArray.empty_append, if_true]

theorem running_of_fails (behaviour : Behaviour σ ε) (line : Nat) (c : Bytes) (state next : σ)
    (printed : Bytes) (e : ε) (out : Destination) (h : behaviour state c = (next, printed, some e)) :
    running behaviour line c ⟨state, .empty⟩ out =
      ⟨⟨next, printed⟩, out, some (.script line e), [(c, out.written.size)]⟩ := by
  simp only [running, Session.exec, h, ByteArray.empty_append]

/-- Where all chunks succeed, each is run once and in order, and what it printed stands in its place. -/
theorem Segment.expand_of_runAll (behaviour : Behaviour σ ε) (l : List Segment) (line : Nat)
    (state last : σ) (outputs : List Bytes) (start : Bytes)
    (h : behaviour.runAll state (sources l) = some (last, outputs)) :
    ∃ ran, ran.map Prod.fst = sources l ∧
      expand behaviour l line ⟨state, .empty⟩ ⟨start, none⟩ =
        ⟨⟨last, .empty⟩, ⟨start ++ Bytes.concat (writes l outputs), none⟩, none, ran⟩ := by
  induction l generalizing line state outputs start with
  | nil =>
    cases h
    refine ⟨[], rfl, ?_⟩
    change _ = (⟨_, ⟨start ++ .empty, none⟩, none, []⟩ : Outcome σ ε)
    rw [ByteArray.append_empty]
    rfl
  | cons x l ih =>
    -- a segment with source `c` runs it, and the rest goes on from what it leaves behind
    have hrun (c : Bytes) (hx : x.perform behaviour line = running behaviour (line + c.lineFeeds) c)
        (h : behaviour.runAll state (c :: sources l) = some (last, outputs)) :
        ∃ printed rest ran, outputs = printed :: rest ∧ ran.map Prod.fst = c :: sources l ∧
          expand behaviour (x :: l) line ⟨state, .empty⟩ ⟨start, none⟩ =
            ⟨⟨last, .empty⟩, ⟨start ++ (printed ++ Bytes.concat (writes l rest)), none⟩, none, ran⟩ := by
      rcases hb : behaviour state c with ⟨next, printed, _ | e⟩
      · simp only [Behaviour.runAll, hb, Option.map_eq_some_iff] at h
        obtain ⟨⟨last', rest⟩, hrest, heq⟩ := h
        cases heq
        obtain ⟨ran, hran, hexpand⟩ := ih (line + x.written.lineFeeds) next rest (start ++ printed) hrest
        refine ⟨printed, rest, (c, start.size) :: ran, rfl, by rw [List.map_cons, hran], ?_⟩
        rw [expand, hx, running_of_succeeds behaviour _ c state next printed start hb,
          Outcome.andThen_of_done _ _ rfl, hexpand, ByteArray.append_assoc]
        rfl
      · simp only [Behaviour.runAll, hb, reduceCtorEq] at h
    cases x with
    | text b =>
      obtain ⟨ran, hran, hexpand⟩ := ih (line + (text b).written.lineFeeds) state outputs (start ++ b) h
      refine ⟨ran, hran, ?_⟩
      rw [expand]
      change ((⟨⟨state, .empty⟩, ⟨start ++ b, none⟩, none, []⟩ : Outcome σ ε).andThen _) = _
      rw [Outcome.andThen_of_done _ _ rfl, hexpand, ByteArray.append_assoc]
      rfl
    | region c =>
      obtain ⟨printed, rest, ran, rfl, hran, hexpand⟩ := hrun c rfl h
      exact ⟨ran, hran, hexpand⟩
    | unclosed c =>
      obtain ⟨printed, rest, ran, rfl, hran, hexpand⟩ := hrun c rfl h
      exact ⟨ran, hran, hexpand⟩

end Document

end LuaPages
