import LuaPages.Lua.State
import LuaPages.Proofs.Lua.Machine
import LuaPages.Proofs.Lua.Print

namespace LuaPages.Lua.State

open Confined Script

variable {K : Bounds} {state : State} {s : Store}

/-- All that a state holds is confined to `K`, and what has been printed are lines in `K`. -/
def Obeys (K : Bounds) (state : State) : Prop := state.store.Obeys K [] ∧ within K state.parked

/-- Where no thread waits, there is no program that goes on from earlier runs. -/
theorem Obeys.of_idle {S : Nat → Prop} {L L' : Nat × Bytes → Prop} (h : state.Obeys ⟨S, L⟩)
    (hprinted : state.store.printed = []) (hidle : ∀ p ∈ state.parked, p = none) :
    state.Obeys ⟨S, L'⟩ := by
  have hnothing : Extends ⟨S, L'⟩ [] state.store.printed := by
    rw [hprinted]
    exact .refl []
  refine ⟨⟨h.1.1, hnothing⟩, fun p hp q hq => ?_⟩
  rw [hidle p hp] at hq
  cases hq

def turn (state : State) (task : Task) : Machine.Turn :=
  (⟨[], [], state.parked⟩, (do
    match ← Script.ask task (.handled (.builtin .describe)) with
    | .ok flow => return .finish flow
    | .error e => Script.reraise e : Script Outcome) state.store)

/-- The machine runs from there, to an end or out of steps. -/
theorem perform_eq (state : State) (task : Task) : state.perform task =
    match Machine.run Builtin.run stepLimit (state.turn task).1 (state.turn task).2 with
    | none => (state, some .endless)
    | some r => (⟨r.store, r.parked⟩,
        match r.result with
        | .ok _ => none
        | .error e => some (chunkError r.store e)) := rfl

theorem perform_of_run {task : Task} {r : Finished}
    (h : Machine.run Builtin.run stepLimit (state.turn task).1 (state.turn task).2 = some r) :
    (state.perform task).1 = ⟨r.store, r.parked⟩ := by
  rw [perform_eq, h]

theorem obeys_turn (h : state.Obeys K) {task : Task} (ht : within K task) :
    Machine.Obeys K [] (.inl (state.turn task)) := by
  have hcatch : within K (Catch.handled (.builtin .describe)) :=
    fun w hw => Catch.handled.inj hw ▸ nofun
  refine ⟨⟨within_emptyList, within_emptyList, h.2⟩, Keeps.obeys (.bind (.ask ht hcatch) fun r hr => ?_) h.1⟩
  cases r with
  | ok flow => exact .pure (hr.2 flow rfl)
  | error e => exact .reraise (hr.1 e rfl)

theorem obeys_perform (h : state.Obeys K) {task : Task} (ht : within K task)
    (hb : Machine.Bounded K (state.turn task)) : (state.perform task).1.Obeys K := by
  cases hrun : Machine.run Builtin.run stepLimit (state.turn task).1 (state.turn task).2 with
  | none =>
    rw [perform_eq, hrun]
    exact h
  | some r =>
    have hr := Machine.obeys_run (obeys_turn h ht) hb hrun
    rw [perform_of_run hrun]
    exact ⟨hr.2.1, hr.2.2⟩

theorem obeys_loadChunk (h : state.Obeys K) (source code : Bytes) :
    within K (state.loadChunk source code).1 ∧ (state.loadChunk source code).2.Obeys K := by
  have hload := (Chunk.keeps_load source code "bt" (v := .table state.store.globals) nofun).obeys h.1
  unfold loadChunk
  generalize Chunk.load source code "bt" (.table state.store.globals) state.store = loaded at hload
  split
  · exact ⟨hload.1, hload.2, h.2⟩
  · exact ⟨⟨fun _ _ => trivial, nofun⟩, h⟩

def chunkTurn? (state : State) (source code : Bytes) : Option Machine.Turn :=
  match state.loadChunk source code with
  | (.ok f, state) => some (state.turn (.call f [] entry))
  | _ => none

theorem obeys_exec (h : state.Obeys K) {source code : Bytes}
    (hb : ∀ t, state.chunkTurn? source code = some t → Machine.Bounded K t) :
    (state.exec source code).1.Obeys K := by
  have hload := obeys_loadChunk h source code
  unfold exec
  split
  · rename_i state' heq
    exact (heq ▸ hload.2 : _)
  · rename_i m state' heq
    exact (heq ▸ hload.2 : _)
  · rename_i f state' heq
    rw [heq] at hload
    exact obeys_perform hload.2 ⟨hload.1.2 f rfl, within_emptyList⟩ (hb _ (by rw [chunkTurn?, heq]))

theorem exec_of_run {source code : Bytes} {t : Machine.Turn} {r : Finished}
    (ht : state.chunkTurn? source code = some t)
    (h : Machine.run Builtin.run stepLimit t.1 t.2 = some r) :
    (state.exec source code).1 = ⟨r.store, r.parked⟩ := by
  unfold chunkTurn? at ht
  unfold exec
  split at ht
  · rename_i f state' hload
    rw [hload]
    exact perform_of_run (Option.some.inj ht ▸ h)
  · cases ht

theorem obeys_chunkTurn? (h : state.Obeys K) {source code : Bytes} {t : Machine.Turn}
    (ht : state.chunkTurn? source code = some t) : Machine.Obeys K [] (.inl t) := by
  have hload := obeys_loadChunk h source code
  unfold chunkTurn? at ht
  split at ht
  · rename_i f state' heq
    rw [heq] at hload
    obtain rfl := Option.some.inj ht
    exact obeys_turn hload.2 ⟨hload.1.2 f rfl, within_emptyList⟩
  · cases ht

/-- What the machine starts from when `print` is registered: metamethods of the table of globals may run
scripts. -/
def registrationTurn (state : State) (sink : Nat) : Machine.Turn :=
  let serial := state.store.prints
  let state := { state with store := { state.store with prints := serial + 1 } }
  state.turn (.call (.builtin .assign)
    [.table state.store.globals, .text "print", .builtin (.print serial sink)] entry)

theorem registerPrint_of_run {sink : Nat} {r : Finished}
    (h : Machine.run Builtin.run stepLimit (state.registrationTurn sink).1
      (state.registrationTurn sink).2 = some r) :
    (state.registerPrint sink).1 = ⟨r.store, r.parked⟩ := perform_of_run h

theorem within_registration (state : State) {sink : Nat} (hsink : K.sinks sink) :
    within K (Task.call (.builtin .assign) [.table state.store.globals, .text "print",
      .builtin (.print state.store.prints sink)] entry) := by
  have hprint : within K (Value.builtin (.print state.store.prints sink)) := by
    intro serial sink' heq
    cases heq
    exact hsink
  have hargs : within K [Value.table state.store.globals, .text "print",
      .builtin (.print state.store.prints sink)] :=
    within_listCons.mpr ⟨nofun, within_listCons.mpr ⟨within_text _,
      within_listCons.mpr ⟨hprint, within_emptyList⟩⟩⟩
  exact ⟨nofun, hargs⟩

theorem obeys_registrationTurn (h : state.Obeys K) {sink : Nat} (hsink : K.sinks sink) :
    Machine.Obeys K [] (.inl (state.registrationTurn sink)) := by
  have hcounted : (⟨{ state.store with prints := state.store.prints + 1 }, state.parked⟩ : State).Obeys K := h
  exact obeys_turn hcounted (within_registration state hsink)

theorem obeys_registerPrint (h : state.Obeys K) {sink : Nat} (hsink : K.sinks sink)
    (hb : Machine.Bounded K (state.registrationTurn sink)) : (state.registerPrint sink).1.Obeys K := by
  have hcounted : (⟨{ state.store with prints := state.store.prints + 1 }, state.parked⟩ : State).Obeys K := h
  exact obeys_perform hcounted (within_registration state hsink) hb

theorem obeys_takePrinted (h : state.Obeys K) :
    state.takePrinted.2.Obeys K ∧ ∀ e ∈ state.takePrinted.1, K.lines e := by
  obtain ⟨⟨hstore, new, hnew, hlines⟩, hparked⟩ := h
  refine ⟨⟨⟨hstore, .refl _⟩, hparked⟩, fun e he => hlines e ?_⟩
  rw [List.append_nil] at hnew
  rw [← hnew]
  exact List.mem_reverse.mp he

/-- Where assigning to a global runs no script. -/
structure Plain (state : State) : Prop where
  hasRoom : HasRoom entry state.store
  metatable_globals : (state.store.tables.getD state.store.globals default).metatable = none

def bound (state : State) (sink : Nat) : State :=
  ⟨{ state.store with
      prints := state.store.prints + 1
      tables := state.store.tables.modify state.store.globals
        (·.set (.text "print") (.builtin (.print state.store.prints sink))) }, state.parked⟩

theorem setIndex_plain {id : Nat} {s : Store} (h : (s.tables.getD id default).metatable = none)
    (name : String) (v : Value) :
    Script.setIndex (.table id) (.text name) v none none s =
      .done () { s with tables := s.tables.modify id (·.set (.text name) v) } := by
  have hmetatable : ofTable id (·.metatable) s = .done none s := congrArg (Prog.done · s) h
  change (ofTable id (·.metatable) >>= _ : Script Unit) s = _
  rw [Script.bind_apply, hmetatable]
  rfl

/-- An assignment to a field of a table without a metatable, as a call from outside. -/
theorem start_assign {s : Store} (hroom : HasRoom entry s) {id : Nat}
    (h : (s.tables.getD id default).metatable = none) (m : Machine) (name : String) (v : Value) :
    Machine.start Builtin.run m (.call (.builtin .assign) [.table id, .text name, v] entry) s =
      (m, .done (.finish (.return [])) { s.entered .assign entry (entry.origin :: s.active.trace) with
        tables := s.tables.modify id (·.set (.text name) v) }) := by
  have hset := setIndex_plain (s := s.entered .assign entry (entry.origin :: s.active.trace)) h name v
  change (m, Machine.callProgram Builtin.run _ _ _ _ _) = _
  rw [Machine.callProgram_builtin _ _ _ _ _ hroom, Script.bind_apply]
  change (m, ((Script.setIndex (.table id) (.text name) v none none >>= fun _ => pure []) _).bind _) = _
  rw [Script.bind_apply, hset]
  rfl

/-- In a plain state registering takes three steps: the call, its return and that of the state. -/
theorem run_registrationTurn (h : state.Plain) (sink : Nat) :
    Machine.run Builtin.run stepLimit (state.registrationTurn sink).1 (state.registrationTurn sink).2 =
      some ⟨.ok [], (state.bound sink).store, state.parked⟩ := by
  let counted : Store := { state.store with prints := state.store.prints + 1 }
  have hcall (m : Machine) := start_assign (s := counted) h.hasRoom h.metatable_globals m "print"
    (.builtin (.print state.store.prints sink))
  -- three steps are taken by computation, however many are allowed
  obtain ⟨n, hn⟩ : ∃ n, stepLimit = n + 3 := ⟨stepLimit - 3, rfl⟩
  have hfirst : Machine.step Builtin.run (state.registrationTurn sink).1 (state.registrationTurn sink).2 =
      .inl (Machine.start Builtin.run _ (.call (.builtin .assign) _ entry) counted) := rfl
  rw [hcall] at hfirst
  rw [hn, Machine.run_of_step hfirst]
  rfl

theorem registerPrint_plain (h : state.Plain) (sink : Nat) :
    state.registerPrint sink = (state.bound sink, none) := by
  have heq := perform_eq ⟨{ state.store with prints := state.store.prints + 1 }, state.parked⟩
    (.call (.builtin .assign) [.table state.store.globals, .text "print",
      .builtin (.print state.store.prints sink)] entry)
  have hrun := run_registrationTurn h sink
  rw [registrationTurn] at hrun
  rw [registerPrint, heq]
  dsimp only at hrun ⊢
  rw [hrun]
  rfl

theorem obeys_withTable (hs : s.Obeys K []) (id : Nat) {f : Table → Table}
    (hf : ∀ t, within K t → within K (f t)) : (withTable s id f).Obeys K [] :=
  ⟨⟨⟨within_modify hs.1.1.1 hf id, hs.1.1.2⟩, hs.1.2⟩, hs.2⟩

theorem obeys_newTable (hs : s.Obeys K []) {t : Table} (ht : within K t) : (newTable s t).2.Obeys K [] :=
  ⟨⟨⟨within_push hs.1.1.1 ht, hs.1.1.2⟩, hs.1.2⟩, hs.2⟩

theorem within_setTexts {l : List (String × Value)} (hl : within K l) {t : Table} (ht : within K t) :
    within K (l.foldl (fun t e => t.setText e.1 e.2) t) :=
  List.foldlRecOn l _ ht fun _ ht e he => Table.within_setText ht e.1 (hl e he).2

theorem within_constants (name : String) : within K ((constants.lookup name).getD []) := by
  have hall : within K constants := by
    simp [constants, within_prod, within_float, within_int, within_string, within_text]
  generalize constants = l at hall
  induction l with
  | nil => exact within_emptyList
  | cons e l ih =>
    obtain ⟨he, hl⟩ := within_listCons.mp hall
    rw [List.lookup_cons]
    split
    · exact he.2
    · exact ih hl

theorem obeys_addLibrary (hs : s.Obeys K []) (name : String) {functions : List (String × Builtin)}
    (h : ∀ e ∈ functions, within K (Value.builtin e.2)) : (addLibrary s name functions).Obeys K [] := by
  have hentries : within K (functions.map (fun e => (e.1, Value.builtin e.2)) ++
      (constants.lookup name).getD []) := by
    intro e he
    rcases List.mem_append.mp he with he | he
    · obtain ⟨f, hf, rfl⟩ := List.mem_map.mp he
      exact ⟨trivial, h f hf⟩
    · exact within_constants name e he
  have hid (id : Nat) : within K (Value.table id) := nofun
  have hfill (p : Nat × Store) (hp : p.2.Obeys K []) := obeys_withTable hp p.1 fun t ht =>
    within_setTexts hentries ht
  have henter (id : Nat) {s : Store} (hs : s.Obeys K []) (at_ : Nat) := obeys_withTable hs at_ fun t ht =>
    Table.within_setText ht name (hid id)
  unfold addLibrary
  dsimp only
  refine henter _ (henter _ (hfill _ ?_) _) _
  split
  · exact hs
  · exact obeys_newTable hs (Table.within_create _ _)

theorem within_functions {F : Type} (all : List (String × F)) {make : F → Builtin}
    (hmake : ∀ f serial sink, make f ≠ .print serial sink) :
    ∀ e ∈ all.map fun e => (e.1, make e.2), within K (Value.builtin e.2) := by
  intro e he serial sink heq
  obtain ⟨f, -, rfl⟩ := List.mem_map.mp he
  exact absurd (Value.builtin.inj heq) (hmake f.2 serial sink)

theorem within_libraries : ∀ l ∈ libraries, ∀ e ∈ l.2, within K (Value.builtin e.2) := by
  unfold libraries
  simp only [List.forall_mem_cons]
  refine ⟨?_, ?_, ?_, ?_, ?_, ?_, ?_, ?_, ?_, List.forall_mem_nil _⟩
  all_goals exact within_functions _ nofun

theorem obeys_emptyStore : emptyStore.Obeys K [] := by
  have htables : within K emptyStore.tables := by
    intro t ht
    simp only [emptyStore, List.mem_toArray, List.mem_cons, List.not_mem_nil, or_false] at ht
    rcases ht with rfl | rfl | rfl <;> exact Table.within_create _ _
  have hthreads : within K emptyStore.threads := by
    intro t ht
    rw [Array.mem_singleton.mp ht]
    exact within_nil
  have hcells : within K emptyStore.cells := fun v hv => absurd hv (Array.not_mem_empty v)
  exact ⟨⟨⟨htables, hcells⟩, hthreads, Machine.within_library ..⟩, .refl _⟩

theorem within_libraryTable (hs : s.Obeys K []) (name : String) : within K (libraryTable s name) :=
  Table.within_getText (within_getD hs.1.1.1 Table.within_default _) name

theorem within_stringOperations {t : Table} (ht : within K t) :
    within K (stringOperations.foldl (fun t e => t.setText e.1 (.builtin (.stringArith e.2))) t) := by
  have hoperations : within K (stringOperations.map fun e => (e.1, Value.builtin (.stringArith e.2))) := by
    intro e he
    obtain ⟨f, -, rfl⟩ := List.mem_map.mp he
    exact ⟨trivial, nofun⟩
  have hset := within_setTexts hoperations ht
  rwa [List.foldl_map] at hset

/-- A new state has no `print` function. -/
theorem obeys_fresh : fresh.Obeys K := by
  have hs : (libraries.foldl (fun s l => addLibrary s l.1 l.2) emptyStore).Obeys K [] :=
    List.foldlRecOn libraries _ obeys_emptyStore fun _ hs l hl => obeys_addLibrary hs l.1 (within_libraries l hl)
  unfold fresh
  generalize libraries.foldl (fun s l => addLibrary s l.1 l.2) emptyStore = s at hs
  dsimp only
  have hstrings := obeys_withTable hs s.stringMeta fun t ht =>
    Table.within_setText (within_stringOperations ht) "__index" (within_libraryTable hs "string")
  generalize withTable s s.stringMeta _ = s at hstrings
  have hsearchers := obeys_newTable (obeys_newTable hstrings (Table.within_create 0 0)) (Table.within_create 0 0)
  have hid (id : Nat) : within K (Value.table id) := nofun
  refine ⟨?_, fun p hp => absurd hp (Array.not_mem_empty p)⟩
  split
  · refine obeys_withTable hsearchers _ fun t ht => ?_
    exact Table.within_setText (Table.within_setText (Table.within_setText ht _ (hid _)) _ (hid _)) _ (hid _)
  · exact hsearchers

structure Bare (s : Store) : Prop where
  metatable_eq : ∀ t ∈ s.tables, t.metatable = none
  active_eq : s.active = emptyStore.active

theorem Bare.withTable {s : Store} (h : Bare s) (id : Nat) {f : Table → Table}
    (hf : ∀ t, (f t).metatable = t.metatable) : Bare (withTable s id f) := by
  refine ⟨fun t ht => ?_, h.active_eq⟩
  have ht : t ∈ s.tables.modify id f := ht
  obtain ⟨i, hi, rfl⟩ := Array.mem_iff_getElem.mp ht
  rw [Array.getElem_modify]
  split
  · exact (hf _).trans (h.metatable_eq _ (Array.getElem_mem _))
  · exact h.metatable_eq _ (Array.getElem_mem _)

theorem Bare.newTable {s : Store} (h : Bare s) (arraySize nodeSize : Nat) :
    Bare (newTable s (.create arraySize nodeSize)).2 := by
  refine ⟨fun t ht => ?_, h.active_eq⟩
  rcases Array.mem_push.mp ht with ht | rfl
  · exact h.metatable_eq t ht
  · rfl

theorem metatable_setTexts {α : Type} (name : α → String) (value : α → Value) (l : List α) (t : Table) :
    (l.foldl (fun t e => t.setText (name e) (value e)) t).metatable = t.metatable :=
  List.foldlRecOn (motive := fun t' => Table.metatable t' = t.metatable) l _ rfl fun _ ht _ _ =>
    (Table.metatable_setText _ _ _).trans ht

theorem Bare.addLibrary {s : Store} (h : Bare s) (name : String) (functions : List (String × Builtin)) :
    Bare (addLibrary s name functions) := by
  unfold State.addLibrary
  dsimp only
  refine ((Bare.withTable ?_ _ fun t => metatable_setTexts _ _ _ t).withTable _ fun t => ?_).withTable _ fun t => ?_
  · split
    · exact h
    · exact h.newTable _ _
  · exact Table.metatable_setText t _ _
  · exact Table.metatable_setText t _ _

theorem bare_fresh : Bare fresh.store := by
  have hempty : Bare emptyStore := by
    refine ⟨fun t ht => ?_, rfl⟩
    simp only [emptyStore, List.mem_toArray, List.mem_cons, List.not_mem_nil, or_false] at ht
    rcases ht with rfl | rfl | rfl <;> rfl
  have hs : Bare (libraries.foldl (fun s l => addLibrary s l.1 l.2) emptyStore) :=
    List.foldlRecOn libraries _ hempty fun _ hs l _ => hs.addLibrary l.1 l.2
  unfold fresh
  generalize libraries.foldl (fun s l => addLibrary s l.1 l.2) emptyStore = s at hs
  dsimp only
  have hstrings (t : Table) : ((stringOperations.foldl (fun t e =>
      t.setText e.1 (.builtin (.stringArith e.2))) t).setText "__index" (libraryTable s "string")).metatable =
        t.metatable :=
    (Table.metatable_setText _ _ _).trans (metatable_setTexts _ _ _ t)
  have hsearchers := ((hs.withTable s.stringMeta hstrings).newTable 0 0).newTable 0 0
  split
  · refine hsearchers.withTable _ fun t => ?_
    exact ((Table.metatable_setText _ _ _).trans (Table.metatable_setText _ _ _)).trans
      (Table.metatable_setText t _ _)
  · exact hsearchers

theorem plain_fresh : fresh.Plain := by
  constructor
  · intro _
    rw [bare_fresh.active_eq]
    decide
  · rw [Array.getD_eq_getD_getElem?]
    cases h : fresh.store.tables[fresh.store.globals]? with
    | none => rfl
    | some t => exact bare_fresh.metatable_eq t (Array.mem_of_getElem? h)

end LuaPages.Lua.State
