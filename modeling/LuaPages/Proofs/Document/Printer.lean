import LuaPages.Document.Interpret
import LuaPages.Proofs.Lua.Print
import LuaPages.Proofs.Lua.State
import LuaPages.Proofs.Sinks

namespace LuaPages.Document

open Sinks Lua

/-- What the machine starts from in a step, if an interpreter runs in it. -/
def turn? (s : Sinks Lua.State) : SinkStep → Option Machine.Turn
  | .interpreter h => (s.bufferOf? h).map State.fresh.registrationTurn
  | .register id h =>
    match s.bufferOf? h, s.states[id]? with
    | some b, some state => some (state.registrationTurn b)
    | _, _ => none
  | .exec id code =>
    match s.states[id]? with
    | some state => state.chunkTurn? regionName code
    | none => none
  | _ => none

variable {s : Sinks Lua.State} {x : SinkStep} {t : Machine.Turn}

/-- What the `print` calls put into their sinks that are made in a step. -/
def PrintsIn (s : Sinks Lua.State) (x : SinkStep) (e : Nat × Bytes) : Prop :=
  ∃ t, turn? s x = some t ∧ Machine.Prints t e

/-- A state within bounds, with nothing left that it has printed. -/
def Fits (K : Nat → Prop) (L : Nat × Bytes → Prop) (state : Lua.State) : Prop :=
  state.Obeys ⟨K, L⟩ ∧ state.store.printed = []

theorem fits_takePrinted {K : Nat → Prop} {L : Nat × Bytes → Prop} {state : Lua.State}
    (h : state.Obeys ⟨K, L⟩) : Fits K L state.takePrinted.2 ∧ ∀ e ∈ state.takePrinted.1, L e :=
  ⟨⟨(State.obeys_takePrinted h).1, rfl⟩, (State.obeys_takePrinted h).2⟩

/-- An interpreter prints by calls of `print` functions of its own. -/
theorem loyal_printer : Loyal printer Fits PrintsIn := by
  intro K L s x id r hran hbound hstate hprints
  have hbounded (t : Machine.Turn) (ht : turn? s x = some t) : Machine.Bounded ⟨K, L⟩ t :=
    fun e hsink he => hprints e hsink ⟨t, ht, he⟩
  -- only three kinds of steps let an interpreter run; each starts with what it is allowed to reach
  cases x with
  | interpreter h =>
    obtain ⟨b, hbuffer, heq⟩ := Option.map_eq_some_iff.mp hran
    obtain ⟨rfl, rfl⟩ := Prod.mk.inj heq
    have hb : K b := hbound b (by simp [binds, hbuffer])
    refine fits_takePrinted (State.obeys_registerPrint State.obeys_fresh hb (hbounded _ ?_))
    rw [turn?, hbuffer]
    rfl
  | register k h =>
    cases hbuffer : s.bufferOf? h <;> cases hold : s.states[k]? <;>
      simp only [ran, hbuffer, hold, Option.some.injEq, reduceCtorEq] at hran
    rename_i b state
    obtain ⟨rfl, rfl⟩ := Prod.mk.inj hran
    have hb : K b := hbound b (by simp [binds, hbuffer])
    refine fits_takePrinted (State.obeys_registerPrint (hstate state hold).1 hb (hbounded _ ?_))
    simp only [turn?, hbuffer, hold]
  | exec k code =>
    obtain ⟨state, hold, heq⟩ := Option.map_eq_some_iff.mp hran
    obtain ⟨rfl, rfl⟩ := Prod.mk.inj heq
    refine fits_takePrinted (State.obeys_exec (hstate state hold).1 fun t ht => hbounded t ?_)
    simp only [turn?, hold, ht]
  | new | clone h | write h bytes | length h | take h => cases hran

theorem obeys_turn? {K : Bounds} (hK : ∀ b, K.sinks b) (hs : ∀ state ∈ s.states, state.Obeys K)
    (ht : turn? s x = some t) : Machine.Obeys K [] (.inl t) := by
  cases x with
  | interpreter h =>
    obtain ⟨b, -, rfl⟩ := Option.map_eq_some_iff.mp ht
    exact State.obeys_registrationTurn State.obeys_fresh (hK b)
  | register id h =>
    simp only [turn?] at ht
    split at ht
    · rename_i b state _ hstate
      obtain rfl := Option.some.inj ht
      exact State.obeys_registrationTurn (hs state (List.mem_of_getElem? hstate)) (hK b)
    · cases ht
  | exec id code =>
    simp only [turn?] at ht
    split at ht
    · rename_i state hstate
      exact State.obeys_chunkTurn? (hs state (List.mem_of_getElem? hstate)) ht
    · cases ht
  | _ => cases ht

theorem output_register {state : Lua.State} {b : Nat} {r : Finished}
    (h : Machine.run Builtin.run State.stepLimit (state.registrationTurn b).1
      (state.registrationTurn b).2 = some r) : (printer.register state b).output = r.store.lines := by
  change (state.registerPrint b).1.takePrinted.1 = _
  rw [State.registerPrint_of_run h]
  rfl

theorem output_exec {state : Lua.State} {code : Bytes} {r : Finished}
    (ht : state.chunkTurn? regionName code = some t)
    (h : Machine.run Builtin.run State.stepLimit t.1 t.2 = some r) :
    (printer.exec state code).output = r.store.lines := by
  change (state.exec regionName code).1.takePrinted.1 = _
  rw [State.exec_of_run ht h]
  rfl

/-- A step appends what its run has printed. -/
theorem appended_of_run {r : Finished} (ht : turn? s x = some t)
    (hrun : Machine.run Builtin.run State.stepLimit t.1 t.2 = some r) :
    appended printer s x = r.store.lines := by
  cases x with
  | interpreter h =>
    obtain ⟨b, hb, rfl⟩ := Option.map_eq_some_iff.mp ht
    simp only [appended, hb]
    exact output_register hrun
  | register id h =>
    simp only [turn?] at ht
    split at ht
    · rename_i b state hb hstate
      obtain rfl := Option.some.inj ht
      simp only [appended, hb, hstate]
      exact output_register hrun
    · cases ht
  | exec id code =>
    simp only [turn?] at ht
    split at ht
    · rename_i state hstate
      simp only [appended, hstate]
      exact output_exec ht hrun
    · cases ht
  | _ => cases ht

theorem fits_after {l : List SinkStep} {id : Nat} {state : Lua.State} {K : Nat → Prop}
    (hstate : (after printer .empty l).states[id]? = some state)
    (hK : ∀ b ∈ boundTo printer id .empty l, K b) : Fits K (fun _ => True) state :=
  loyal_printer.within_after (s := .empty) hK (fun _ _ _ _ _ _ _ _ => trivial)
    (fun _ h => absurd h (by simp [Sinks.empty])) state hstate

/-- All states that some steps lead to are well-behaved. -/
theorem obeys_states (l : List SinkStep) :
    ∀ state ∈ (after printer .empty l).states, state.Obeys ⟨fun _ => True, fun _ => True⟩ := by
  intro state hstate
  obtain ⟨id, hid⟩ := List.mem_iff_getElem?.mp hstate
  exact (fits_after hid fun _ _ => trivial).1

/-- What an interpreter prints in a step are lines of calls of its `print` functions. These calls have
been made in the step, if no thread of the interpreter has been waiting. -/
theorem prints_of_mem_appended {l : List SinkStep} {id : Nat}
    (hruns : runs? (after printer .empty l) x = some id) :
    ∀ e ∈ appended printer (after printer .empty l) x, e.1 ∈ boundTo printer id .empty (l ++ [x]) ∧
      ∃ before y rest, l ++ [x] = before ++ y :: rest ∧
        (rest = [] ∨
          ∃ state p, (after printer .empty l).states[id]? = some state ∧ some p ∈ state.parked) ∧
        runs? (after printer .empty before) y = some id ∧ PrintsIn (after printer .empty before) y e := by
  have hafter : ∀ b ∈ boundTo printer id .empty l, b ∈ boundTo printer id .empty (l ++ [x]) := by
    intro b hb
    rw [boundTo_append]
    exact List.mem_append_left _ hb
  have hbinds : ∀ b ∈ binds (after printer .empty l) id x, b ∈ boundTo printer id .empty (l ++ [x]) := by
    intro b hb
    rw [boundTo_append]
    exact List.mem_append_right _ (List.mem_append_left _ hb)
  refine loyal_printer.mem_appended hruns hbinds
    (L := fun e => e.1 ∈ boundTo printer id .empty (l ++ [x]) ∧ _)
    (fun e hsink he => ⟨hsink, l, x, [], rfl, .inl rfl, hruns, he⟩) ?_
  by_cases hidle : ∀ state, (after printer .empty l).states[id]? = some state → ∀ p ∈ state.parked, p = none
  · -- nothing goes on from earlier steps, so it does not matter what was printed in them
    intro state hstate
    obtain ⟨hobeys, hprinted⟩ := fits_after hstate hafter
    exact ⟨hobeys.of_idle hprinted (hidle state hstate), hprinted⟩
  · push Not at hidle
    obtain ⟨state, hstate, p, hp, hsome⟩ := hidle
    obtain ⟨p, rfl⟩ := Option.ne_none_iff_exists'.mp hsome
    refine loyal_printer.within_after hafter (fun before y rest hl hruns' e hsink he => ⟨hsink, ?_⟩)
      (fun _ h => absurd h (by simp [Sinks.empty]))
    refine ⟨before, y, rest ++ [x], ?_, .inr ⟨state, p, hstate, hp⟩, hruns', he⟩
    rw [hl, List.append_assoc]
    rfl

/-- A `print` call that comes to its end in a step puts its line into its own sink, behind what has been
printed before. -/
theorem appended_of_print {l : List SinkStep} {r : Finished} (ht : turn? (after printer .empty l) x = some t)
    (hrun : Machine.run Builtin.run State.stepLimit t.1 t.2 = some r) {n k : Nat} {m m' : Machine}
    {serial sink : Nat} {args : Arguments} {site : Site} {trace : List Origin} {store store' : Store}
    {cs : List PrintCall} {ts : List Bytes} (hroom : HasRoom site store)
    (hcall : Machine.after n t = some (m,
      Machine.callProgram Builtin.run (.builtin (.print serial sink)) args site trace store))
    (htexts : Ends k m (Print.texts args (store.entered (.print serial sink) site trace)) cs m'
      (.done ts store')) :
    ∃ rest, appended printer (after printer .empty l) x =
      store'.lines ++ (sink, Print.line ts) :: rest := by
  rw [Print.callProgram_print serial sink args site trace store hroom] at hcall
  -- after the line nothing can be taken back, so it stands before all that the run prints later
  have hprinted := Machine.after_trans hcall (Print.after_call fun f => htexts.after_eq f)
  obtain ⟨new, hnew, -⟩ :=
    Machine.extends_of_run (obeys_turn? (fun _ => trivial) (obeys_states l) ht) (fun _ _ _ => trivial)
      hprinted hrun
  refine ⟨new.reverse, ?_⟩
  rw [appended_of_run ht hrun, Store.lines, hnew]
  change (new ++ (sink, Print.line ts) :: store'.printed).reverse = _
  rw [List.reverse_append, List.reverse_cons, List.append_assoc]
  rfl

theorem register_plain {state : Lua.State} (h : state.Plain) (b : Nat) :
    (printer.register state b).state = (state.bound b).takePrinted.2 :=
  congrArg (fun r : Lua.State × Option ChunkError => r.1.takePrinted.2) (State.registerPrint_plain h b)

/-- An interpreter starts with a `print` function for its sink. -/
theorem states_interpreter {h b : Nat} (hb : s.bufferOf? h = some b) :
    (step printer s (.interpreter h)).1.states = s.states ++ [(State.fresh.bound b).takePrinted.2] := by
  have hinitial : printer.initial = State.fresh := rfl
  simp only [step, hb, states_absorb]
  rw [hinitial, register_plain State.plain_fresh]

/-- Registering replaces the global `print` by a new function for the sink. -/
theorem states_register {id h b : Nat} {state : Lua.State} (hb : s.bufferOf? h = some b)
    (hstate : s.states[id]? = some state) (hplain : state.Plain) :
    (step printer s (.register id h)).1.states[id]? = some (state.bound b).takePrinted.2 := by
  have hid : id < s.states.length := (List.getElem?_eq_some_iff.mp hstate).1
  simp only [step, hb, hstate, states_absorb, setState]
  rw [List.getElem?_set_self hid, register_plain hplain]

/-- A step is answered by the sinks that the steps before it leave, whatever comes after it. Handles share a
buffer when they descend from one `new`. A buffer holds what has been appended to it since it was last
taken; taking it empties it and leaves the others as they are. What an interpreter prints in a step are the
lines of `print` calls for these buffers, made in the step or, if a thread has been waiting, in an earlier
one, and the buffers are those of the handles that its `print` functions have been registered with.
Registering makes a new function for the buffer, which becomes the global `print`. Any `print` function that
a script calls, whatever has been registered since the script got it, puts its line into the sink that it
was made for. -/
theorem sinks_hold_what_is_printed (l : List SinkStep) :
    let s := after printer .empty l
    (∀ x rest, (runSinks (l ++ x :: rest))[l.length]? = some (step printer s x).2) ∧
      s.handles.length = (originsFrom [] l).length ∧
      (∀ i < s.handles.length, ∀ j < s.handles.length,
        (s.bufferOf? i = s.bufferOf? j ↔ (originsFrom [] l)[i]? = (originsFrom [] l)[j]?)) ∧
      (∀ h b, s.bufferOf? h = some b →
        s.content b = Bytes.concat (pending printer b .empty [] l) ∧
        (step printer s (.length h)).2 = .length (s.content b).size ∧
        (step printer s (.take h)).2 = .taken (s.content b) ∧
        ∀ other, (step printer s (.take h)).1.content other =
          if other = b then .empty else s.content other) ∧
      (∀ x id, runs? s x = some id → ∀ e ∈ appended printer s x,
        e.1 ∈ boundTo printer id .empty (l ++ [x]) ∧
        ∃ before y rest t n m args store ts, l ++ [x] = before ++ y :: rest ∧
          (rest = [] ∨ ∃ state p, s.states[id]? = some state ∧ some p ∈ state.parked) ∧
          runs? (after printer .empty before) y = some id ∧
          turn? (after printer .empty before) y = some t ∧
          Machine.after n t = some (m, Print.call e.1 args store) ∧
          (Print.texts args store).Gives ts ∧ e.2 = Print.line ts) ∧
      (∀ h b, s.bufferOf? h = some b →
        (step printer s (.interpreter h)).1.states = s.states ++ [(State.fresh.bound b).takePrinted.2] ∧
        ∀ id state, s.states[id]? = some state → state.Plain →
          (step printer s (.register id h)).1.states[id]? = some (state.bound b).takePrinted.2) ∧
      ∀ x t r, turn? s x = some t → Machine.run Builtin.run State.stepLimit t.1 t.2 = some r →
        ∀ n m serial sink args site trace store, HasRoom site store →
          Machine.after n t = some (m,
            Machine.callProgram Builtin.run (.builtin (.print serial sink)) args site trace store) →
          ∀ k cs m' ts store',
            Ends k m (Print.texts args (store.entered (.print serial sink) site trace)) cs m'
              (.done ts store') →
            ∃ rest, appended printer s x = store'.lines ++ (sink, Print.line ts) :: rest := by
  refine ⟨fun x rest => getElem?_run printer .empty l rest x, length_handles_after printer l,
    fun i hi j hj => bufferOf?_eq_iff printer hi hj, fun h b hb => ?_, ?_,
    fun h b hb => ⟨states_interpreter hb, fun id state => states_register hb⟩, ?_⟩
  · refine ⟨content_of_bufferOf? printer hb, ?_, ?_, content_take printer hb⟩
    · simp only [step, hb]
    · simp only [step, hb]
  · intro x id hruns e he
    obtain ⟨hbound, before, y, rest, hl, hrest, hruns', t, ht, n, ⟨m, _⟩, hafter, hprints⟩ :=
      prints_of_mem_appended hruns e he
    obtain ⟨args, store, ts, rfl, hts, hline⟩ := hprints
    exact ⟨hbound, before, y, rest, t, n, m, args, store, ts, hl, hrest, hruns', ht, hafter, hts, hline⟩
  · intro x t r ht hrun n m serial sink args site trace store hroom hcall k cs m' ts store' htexts
    exact appended_of_print ht hrun hroom hcall htexts

def calling? (t : Machine.Turn) : Option (Nat × Nat × Arguments) :=
  match t.2 with
  | .ask (.call (.builtin (.print serial sink)) args site) _ _ _ =>
    if site.nested then none else some (serial, sink, args)
  | _ => none

theorem after_of_calling? {n serial sink : Nat} {args : Arguments}
    (h : (Machine.after n t).bind calling? = some (serial, sink, args)) :
    ∃ m site trace store, HasRoom site store ∧ Machine.after (n + 1) t =
      some (m, Machine.callProgram Builtin.run (.builtin (.print serial sink)) args site trace store) := by
  obtain ⟨⟨m, p⟩, hafter, hcalling⟩ := Option.bind_eq_some_iff.mp h
  unfold calling? at hcalling
  split at hcalling
  · rename_i site c store k hask
    split at hcalling
    · cases hcalling
    · rename_i hnested
      cases hcalling
      obtain rfl : p = _ := hask
      exact ⟨_, site, _, store, fun h => absurd h hnested, Machine.after_trans hafter rfl⟩
  · cases hcalling

/-- A script keeps the `print` function of the first of two sinks. -/
def keeping : List SinkStep := [.new, .new, .interpreter 0, .exec 0 ("p = print" : Bytes)]

theorem plain_of_keeping {state : Lua.State} (h : (after printer .empty keeping).states[0]? = some state) :
    state.Plain := by
  have hstate : ((after printer .empty keeping).states[0]?).map (fun state =>
      (state.store.active.nesting, (state.store.tables.getD state.store.globals default).metatable)) =
        some (0, none) := by decide +kernel
  rw [h] at hstate
  obtain ⟨hnesting, hmetatable⟩ := Prod.mk.inj (Option.some.inj hstate)
  refine ⟨fun _ => ?_, hmetatable⟩
  rw [hnesting]
  decide

/-- After another registration the function that was kept writes to the first sink, and the global one to
the second. -/
theorem sinks_hold_what_is_printed_of_kept_function :
    let s := after printer .empty (keeping ++ [.register 0 1])
    let x : SinkStep := .exec 0 ("p('a') print('b')" : Bytes)
    appended printer s x = [(0, ("a\n" : Bytes)), (1, ("b\n" : Bytes))] ∧
      (∃ state, (after printer .empty keeping).states[0]? = some state ∧ state.Plain ∧
        (step printer (after printer .empty keeping) (.register 0 1)).1.states[0]? =
          some (state.bound 1).takePrinted.2) ∧
      ∃ t r m site trace store, turn? s x = some t ∧
        Machine.run Builtin.run State.stepLimit t.1 t.2 = some r ∧ HasRoom site store ∧
        Machine.after 2 t = some (m,
          Machine.callProgram Builtin.run (.builtin (.print 0 0)) [.string "a"] site trace store) ∧
        ∃ rest, appended printer s x = store.lines ++ (0, ("a\n" : Bytes)) :: rest := by
  intro s x
  refine ⟨by decide +kernel, ?_, ?_⟩
  · have hsome : ((after printer .empty keeping).states[0]?).isSome := by decide +kernel
    obtain ⟨state, hstate⟩ := Option.isSome_iff_exists.mp hsome
    have hplain := plain_of_keeping hstate
    obtain ⟨-, -, -, -, -, hregister, -⟩ := sinks_hold_what_is_printed keeping
    have hbuffer : (after printer .empty keeping).bufferOf? 1 = some 1 := by decide +kernel
    have hbound := (hregister 1 1 hbuffer).2 0 state hstate hplain
    exact ⟨state, hstate, hplain, hbound⟩
  · have hrun : ((turn? s x).bind fun t => Machine.run Builtin.run State.stepLimit t.1 t.2).isSome := by
      decide +kernel
    have hcalling : ((turn? s x).bind fun t => (Machine.after 1 t).bind calling?) =
        some (0, 0, [.string "a"]) := by decide +kernel
    have hline : Print.line ["a"] = ("a\n" : Bytes) := by decide +kernel
    obtain ⟨r, hrun⟩ := Option.isSome_iff_exists.mp hrun
    obtain ⟨t, ht, hrun⟩ := Option.bind_eq_some_iff.mp hrun
    rw [ht] at hcalling
    obtain ⟨m, site, trace, store, hroom, hcall⟩ := after_of_calling? hcalling
    obtain ⟨-, -, -, -, -, -, hprints⟩ := sinks_hold_what_is_printed (keeping ++ [.register 0 1])
    refine ⟨t, r, m, site, trace, store, ht, hrun, hroom, hcall, ?_⟩
    rw [← hline]
    let entered := store.entered (.print 0 0) site trace
    exact hprints x t r ht hrun 2 m 0 0 _ site trace store hroom hcall 0 [] m ["a"] entered (.done ..)

end LuaPages.Document
