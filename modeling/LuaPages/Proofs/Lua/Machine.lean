import LuaPages.Lua.Library.Run
import LuaPages.Proofs.Lua.Library.Arithmetic
import LuaPages.Proofs.Lua.Library.Base
import LuaPages.Proofs.Lua.Library.Sequence
import LuaPages.Proofs.Lua.Library.Texts
import LuaPages.Proofs.Lua.PrintCalls

namespace LuaPages.Lua

open Confined Script

variable {α β : Type} {K : Bounds} {log : List (Nat × Bytes)}

/-- What had been printed before comes first, and all that came after it are lines in `K`. -/
def Extends (K : Bounds) (log log' : List (Nat × Bytes)) : Prop :=
  ∃ new, log' = new ++ log ∧ ∀ e ∈ new, K.lines e

theorem Extends.refl (log : List (Nat × Bytes)) : Extends K log log := ⟨[], rfl, List.forall_mem_nil _⟩

theorem Extends.cons {log log' : List (Nat × Bytes)} (h : Extends K log log') {e : Nat × Bytes}
    (he : K.lines e) : Extends K log (e :: log') := by
  obtain ⟨new, rfl, hnew⟩ := h
  exact ⟨e :: new, rfl, List.forall_mem_cons.mpr ⟨he, hnew⟩⟩

/-- All that a store holds is confined to `K`, and so is what has been printed beyond `log`. -/
def Store.Obeys (K : Bounds) (log : List (Nat × Bytes)) (s : Store) : Prop :=
  within K s ∧ Extends K log s.printed

/-- A program that prints only into `K`, beyond what has been printed when it goes on, and hands on only
what is confined to `K`. -/
def Prog.Obeys [Confined α] (K : Bounds) (log : List (Nat × Bytes)) : Prog α → Prop
  | .done a s => within K a ∧ s.Obeys K log
  | .fail e _ s => within K e ∧ s.Obeys K log
  | .ask t c s k => (within K t ∧ within K c) ∧ s.Obeys K log ∧
      ∀ log r s', within K r → s'.Obeys K log → (k r s').Obeys K log
  | .yield vs s k => within K vs ∧ s.Obeys K log ∧
      ∀ log vs s', within K vs → s'.Obeys K log → (k vs s').Obeys K log

/-- The results that a program may come to, by the answers to what it asks for. -/
inductive Prog.Gives : Prog α → α → Prop
  | done (a : α) (s : Store) : Gives (.done a s) a
  | ask {t : Task} {c : Catch} {s s' : Store} {k : Except Value Flow → Store → Prog α}
      {r : Except Value Flow} {a : α} (h : Gives (k r s') a) : Gives (.ask t c s k) a
  | yield {vs vs' : List Value} {s s' : Store} {k : List Value → Store → Prog α} {a : α}
      (h : Gives (k vs' s') a) : Gives (.yield vs s k) a

theorem Prog.Obeys.bind [Confined α] [Confined β] {p : Prog α} {f : α → Store → Prog β}
    (hp : p.Obeys K log)
    (hf : ∀ log a s, p.Gives a → within K a → s.Obeys K log → (f a s).Obeys K log) :
    (p.bind f).Obeys K log := by
  induction p generalizing log with
  | done a s => exact hf log a s (.done a s) hp.1 hp.2
  | fail => exact hp
  | ask t c s k ih =>
    refine ⟨hp.1, hp.2.1, fun log r s' hr hs => ih r s' (hp.2.2 log r s' hr hs) ?_⟩
    exact fun log a s ha => hf log a s (.ask ha)
  | yield vs s k ih =>
    refine ⟨hp.1, hp.2.1, fun log vs s' hvs hs => ih vs s' (hp.2.2 log vs s' hvs hs) ?_⟩
    exact fun log a s ha => hf log a s (.yield ha)

/-- A program that prints nothing prints nothing elsewhere. -/
theorem Prog.Keeps.obeys [Confined α] {log' : List (Nat × Bytes)} {p : Prog α} (hp : p.Keeps K log')
    (hlog : Extends K log log') : p.Obeys K log := by
  induction p generalizing log log' with
  | done a s =>
    obtain ⟨ha, hs, rfl⟩ := hp
    exact ⟨ha, hs, hlog⟩
  | fail e handled s =>
    obtain ⟨he, hs, rfl⟩ := hp
    exact ⟨he, hs, hlog⟩
  | ask t c s k ih =>
    obtain ⟨htask, ⟨hs, rfl⟩, hk⟩ := hp
    exact ⟨htask, ⟨hs, hlog⟩, fun log r s' hr hs' => ih r s' (hk r s' hr hs'.1) hs'.2⟩
  | yield vs s k ih =>
    obtain ⟨hvs, ⟨hs, rfl⟩, hk⟩ := hp
    exact ⟨hvs, ⟨hs, hlog⟩, fun log vs s' hvs hs' => ih vs s' (hk vs s' hvs hs'.1) hs'.2⟩

/-- What matters to a program is what it prints from where it stands. -/
theorem Prog.Obeys.anew [Confined α] {p : Prog α} (hp : p.Obeys K log) : p.Obeys K p.store.printed := by
  cases p with
  | done a s => exact ⟨hp.1, hp.2.1, .refl _⟩
  | fail e handled s => exact ⟨hp.1, hp.2.1, .refl _⟩
  | ask t c s k => exact ⟨hp.1, ⟨hp.2.1.1, .refl _⟩, hp.2.2⟩
  | yield vs s k => exact ⟨hp.1, ⟨hp.2.1.1, .refl _⟩, hp.2.2⟩

theorem Script.Keeps.obeys [Confined α] {x : Script α} (hx : Keeps K x) {s : Store} (hs : s.Obeys K log) :
    (x s).Obeys K log := (hx s hs.1).obeys hs.2

theorem Store.Obeys.enter {s : Store} {a : Activation} (hs : s.Obeys K log) (ha : within K a) :
    Store.Obeys K log { s with active := a } := ⟨⟨hs.1.1, hs.1.2.1, ha⟩, hs.2⟩

theorem Store.Obeys.put {s : Store} {sink : Nat} {b : Bytes} (hs : s.Obeys K log)
    (he : K.lines (sink, b)) : (s.put sink b).Obeys K log := ⟨hs.1, hs.2.cons he⟩

/-- What a program puts into a sink if it is a `print` call: the line of the texts that the conversion
of its arguments may come to. -/
def Prog.Prints (p : Prog Outcome) (e : Nat × Bytes) : Prop :=
  ∃ args s ts, p = Print.call e.1 args s ∧ (Print.texts args s).Gives ts ∧ e.2 = Print.line ts

def Prog.Allowed (K : Bounds) (p : Prog Outcome) : Prop := ∀ e, K.sinks e.1 → p.Prints e → K.lines e

/-- A `print` call writes its line to its own sink. -/
theorem Print.obeys_call {sink : Nat} (hsink : K.sinks sink) {args : Arguments} (hargs : within K args)
    {s : Store} (hs : s.Obeys K log) (hallowed : (call sink args s).Allowed K) :
    (call sink args s).Obeys K log := by
  have hline (ts : List Bytes) (hts : (texts args s).Gives ts) : K.lines (sink, line ts) :=
    hallowed (sink, line ts) hsink ⟨args, s, ts, rfl, hts, rfl⟩
  rw [call_eq]
  refine ((keeps_texts hargs).obeys hs).bind fun log ts s' hts _ hs' => ?_
  exact ⟨within_emptyList, hs'.put (hline ts hts)⟩

/-- Library functions other than `print` print nothing themselves. -/
theorem Builtin.keeps_run {b : Builtin} (hb : ∀ serial sink, b ≠ .print serial sink) {args : Arguments}
    (h : within K args) : Keeps K (b.run args) := by
  cases b with
  | base f => exact Base.keeps_run f h
  | string f => exact Strings.keeps_run f h
  | table f => exact Sequence.keeps_run f h
  | math f => exact Arithmetic.keeps_run f h
  | utf8 f => exact Utf8Text.keeps_run f args
  | coroutine f => exact Threads.keeps_run f h
  | os f => exact Environment.keeps_run f args
  | io f => exact Environment.keeps_runIo f h
  | package f => exact Environment.keeps_runPackage f args
  | stringArith op => exact Strings.keeps_arith op h
  | print serial sink => exact absurd rfl (hb serial sink)
  | ipairsStep => exact Base.keeps_ipairsStep h
  | codesStep lax => exact Utf8Text.keeps_codesStep lax args
  | gmatchStep id => exact Strings.keeps_gmatchStep id
  | wrapped thread => exact Threads.keeps_wrapped thread h
  | assign =>
    have hget := Arguments.within_get h
    exact .bind (keeps_setIndex (hget 1) (hget 2) (hget 3) none none) fun _ _ => .pure within_emptyList
  | describe => exact Print.keeps_describe h

instance : Confined Frame :=
  ⟨fun K f => (∀ log r s, within K r → s.Obeys K log → (f.resume r s).Obeys K log) ∧ within K f.mode ∧
    within K f.caller⟩

instance : Confined Parked :=
  ⟨fun K p => match p with
    | .waiting resume frames active =>
      (∀ log vs s, within K vs → s.Obeys K log → (resume vs s).Obeys K log) ∧ within K frames ∧ within K active
    | .failed e frames active => within K e ∧ within K frames ∧ within K active⟩

instance : Confined Resumer := ⟨fun K r => within K r.frame ∧ within K r.frames⟩

instance : Confined Machine :=
  ⟨fun K m => within K m.frames ∧ within K m.resumers ∧ within K m.parked⟩

def Machine.Obeys (K : Bounds) (log : List (Nat × Bytes)) : Machine.Turn ⊕ Finished → Prop
  | .inl t => within K t.1 ∧ t.2.Obeys K log
  | .inr r => within K r.result ∧ r.store.Obeys K log ∧ within K r.parked

def Machine.Allowed (K : Bounds) : Machine.Turn ⊕ Finished → Prop
  | .inl t => t.2.Allowed K
  | .inr _ => True

namespace Machine

variable {m : Machine} {s : Store} {v : Value} {args : List Value}

theorem within_library (trace : List Origin) (name : String × Bytes) (depth nesting : Nat)
    (yieldable : Bool) : within K (Activation.library trace name depth nesting yieldable) :=
  ⟨fun a ha => absurd ha (Array.not_mem_empty a), within_emptyList⟩

theorem obeys_failed (o : Origin) (message : String) (hs : s.Obeys K log) : (failed o message s).Obeys K log :=
  (keeps_failAt o _).obeys hs

theorem keeps_enterFunction (code : Function) (h : within K args) : Keeps K (enterFunction code args) := by
  refine .bind (keeps_declareSlots _ h) fun _ _ => ?_
  refine .ite (keeps_changeActive fun a ha => ⟨ha.1, ?_⟩) (.pure trivial)
  exact fun v hv => h v (List.mem_of_mem_drop hv)

theorem obeys_builtin {b : Builtin} (hb : within K (Value.builtin b)) (hargs : within K args)
    (hs : s.Obeys K log)
    (hallowed : ((do return .finish (.return (← b.run args)) : Script Outcome) s).Allowed K) :
    ((do return .finish (.return (← b.run args)) : Script Outcome) s).Obeys K log := by
  by_cases hprint : ∃ serial sink, b = .print serial sink
  · obtain ⟨serial, sink, rfl⟩ := hprint
    exact Print.obeys_call (hb serial sink rfl) hargs hs hallowed
  · have hrun : Keeps K (b.run args) :=
      Builtin.keeps_run (fun serial sink h => hprint ⟨serial, sink, h⟩) hargs
    refine Keeps.obeys (.bind hrun fun vs hvs => ?_) hs
    exact .pure hvs

theorem obeys_body (c : Closure) (hargs : within K args) (hs : s.Obeys K log) :
    ((do
      enterFunction c.code args
      runTurn (.block c.code.body c.code.body)) s).Obeys K log :=
  have hturn : within K (Job.block c.code.body c.code.body) := trivial
  Keeps.obeys (.bind (keeps_enterFunction c.code hargs) fun _ _ => keeps_runTurn hturn) hs

theorem obeys_callProgram (hv : within K v) (hargs : within K args) (site : Site) (trace : List Origin)
    (hs : s.Obeys K log) : (callProgram Builtin.run v args site trace s).Allowed K →
      (callProgram Builtin.run v args site trace s).Obeys K log := by
  have hactive := hs.1.2.2
  have hrefuse : (Prog.fail (.text "error in error handling") true s : Prog Outcome).Obeys K log :=
    ⟨within_text _, hs⟩
  -- the two limits come first, then the three kinds of values: closures, library functions, and the rest
  unfold callProgram
  dsimp only
  generalize (if site.nested = true then s.active.nesting + 1 else s.active.nesting) = nesting
  split
  · exact fun _ => obeys_failed _ _ (hs.enter hactive)
  · split
    · exact fun _ => hrefuse
    · split
      · split
        · exact fun _ => ⟨trivial, hs⟩
        · split
          · exact fun _ => obeys_failed _ _ (hs.enter hactive)
          · split
            · exact fun _ => hrefuse
            · exact fun _ => obeys_body _ hargs (hs.enter ⟨within_replicate within_nil _, within_emptyList⟩)
      · exact obeys_builtin hv hargs (hs.enter (within_library ..))
      · refine fun _ => Keeps.obeys (.bind (keeps_metamethod v _) fun h hh => ?_) hs
        refine .ite (keeps_typeError _ _ _ _) (.pure ?_)
        exact ⟨hh, within_listCons.mpr ⟨hv, hargs⟩⟩

theorem obeys_setStatus (thread : Nat) (status : ThreadStatus) (hs : s.Obeys K log) :
    (setStatus thread status s).Obeys K log := by
  have hstatus (t : Thread) (ht : within K t) : within K { t with status := status } := ht
  exact ⟨⟨hs.1.1, within_modify hs.1.2.1 hstatus thread, hs.1.2.2⟩, hs.2⟩

theorem obeys_switch (thread : Nat) (left : ThreadStatus) (hs : s.Obeys K log) :
    (switch thread left s).Obeys K log := obeys_setStatus thread .running (obeys_setStatus s.thread left hs)

theorem within_park (hm : within K m) (id : Nat) {p : Option Parked} (hp : within K p) :
    within K (m.park id p) := by
  refine ⟨hm.1, hm.2.1, within_setIfInBounds (fun q hq => ?_) hp id⟩
  rcases Array.mem_append.mp hq with hq | hq
  · exact hm.2.2 q hq
  · exact within_replicate within_none _ q hq

theorem within_parkedAt (hm : within K m) (id : Nat) : within K (m.parkedAt id) :=
  within_getD hm.2.2 within_none id

/-- The store in which the asker of a frame goes on. -/
theorem obeys_back (hs : s.Obeys K log) (caller : Option Activation) : within K caller →
    Store.Obeys K log (match caller with | some a => { s with active := a } | none => s) := by
  intro hcaller
  cases caller with
  | none => exact hs
  | some a => exact hs.enter (within_some.mp hcaller)

theorem obeys_deliver (hm : within K m) {f : Frame} (hf : within K f) {r : Except Value Flow}
    (hr : within K r) (hs : s.Obeys K log) : Obeys K log (.inl (deliver m f r s)) := by
  have hback := obeys_back hs f.caller hf.2.2
  exact ⟨hm, hf.1 log r _ hr hback⟩

theorem within_ok {flow : Flow} (h : within K flow) : within K (.ok flow : Except Value Flow) :=
  ⟨nofun, fun _ heq => Except.ok.inj heq ▸ h⟩

theorem within_error {e : Value} (h : within K e) : within K (.error e : Except Value Flow) := by
  refine ⟨fun e' heq => Except.error.inj heq ▸ h, fun flow heq => ?_⟩
  cases heq

theorem obeys_leave (hm : within K m) {r : Except Value Flow} (hr : within K r) (hs : s.Obeys K log) :
    Obeys K log (leave m r s) := by
  unfold leave
  split
  · refine ⟨?_, hs, hm.2.2⟩
    cases r with
    | error e => exact ⟨fun _ heq => Except.error.inj heq ▸ hr.1 e rfl, nofun⟩
    | ok flow => exact ⟨nofun, fun _ heq => Except.ok.inj heq ▸ within_values (hr.2 flow rfl)⟩
  · rename_i r' rs hrs
    have hresumers : within K (r' :: rs) := hrs ▸ hm.2.1
    obtain ⟨hr', hrest⟩ := within_listCons.mp hresumers
    have hm' : within K ({ m with frames := r'.frames, resumers := rs } : Machine) :=
      ⟨hr'.2, hrest, hm.2.2⟩
    exact obeys_deliver hm' hr'.1 hr (obeys_switch _ _ hs)

theorem within_frames (hm : within K m) {frames : List Frame} (h : within K frames) :
    within K ({ m with frames := frames } : Machine) := ⟨h, hm.2⟩

/-- An error goes to a frame below, or out of the thread. -/
theorem obeys_unwind (hm : within K m) {e : Value} (he : within K e) {frames : List Frame}
    (hframes : within K frames) (hs : s.Obeys K log) : Obeys K log (unwind m e frames s) := by
  induction frames generalizing s with
  | nil => exact obeys_leave (within_frames hm within_emptyList) (within_error he) hs
  | cons f frames ih =>
    obtain ⟨hf, hframes⟩ := within_listCons.mp hframes
    unfold unwind
    split
    · exact ih hframes (obeys_back hs f.caller hf.2.2)
    · exact obeys_deliver (within_frames hm hframes) hf (within_error he) hs

theorem obeys_kill (hm : within K m) {frames : List Frame} (hframes : within K frames)
    (hs : s.Obeys K log) : Obeys K log (kill m frames s) := by
  induction frames generalizing s with
  | nil => exact obeys_leave (within_frames hm within_emptyList) (within_ok within_emptyList) hs
  | cons f frames ih =>
    obtain ⟨hf, hframes⟩ := within_listCons.mp hframes
    unfold kill
    split
    · exact obeys_deliver (within_frames hm hframes) hf (within_ok trivial) hs
    · exact ih hframes (obeys_back hs f.caller hf.2.2)

theorem obeys_replaceCall (hm : within K m) (hv : within K v) (hargs : within K args) (site : Site)
    (hs : s.Obeys K log) (hallowed : Allowed K (.inl (replaceCall Builtin.run m v args site s))) :
    Obeys K log (.inl (replaceCall Builtin.run m v args site s)) :=
  ⟨hm, obeys_callProgram hv hargs _ _ (hs.enter hs.1.2.2) hallowed⟩

theorem obeys_finish (hm : within K m) {flow : Flow} (hflow : within K flow) (hs : s.Obeys K log) :
    Allowed K (finish Builtin.run m flow s) → Obeys K log (finish Builtin.run m flow s) := by
  have hdeliver (f : Frame) (frames : List Frame) (h : m.frames = f :: frames) :
      Obeys K log (.inl (deliver { m with frames := frames } f (.ok flow) s)) := by
    obtain ⟨hf, hframes⟩ := within_listCons.mp (h ▸ hm.1)
    exact obeys_deliver (within_frames hm hframes) hf (within_ok hflow) hs
  unfold finish
  split
  · exact fun _ => obeys_kill hm hm.1 hs
  · split
    · split
      · exact obeys_replaceCall hm hflow.1 hflow.2 _ hs
      · exact fun _ => hdeliver _ _ ‹_›
    · exact obeys_replaceCall hm hflow.1 hflow.2 _ hs
  · split
    · exact fun _ => hdeliver _ _ ‹_›
    · exact fun _ => obeys_leave hm (within_ok hflow) hs

/-- The machine with another resumer on top, whose frames wait for the thread. -/
theorem within_resumer (hm : within K m) {f : Frame} {frames : List Frame} (h : m.frames = f :: frames)
    (thread : Nat) (closes : Bool) :
    within K ({ m with resumers := ⟨f, frames, thread, closes⟩ :: m.resumers } : Machine) :=
  ⟨hm.1, within_listCons.mpr ⟨within_listCons.mp (h ▸ hm.1), hm.2.1⟩, hm.2.2⟩

theorem obeys_resume (hm : within K m) (id : Nat) (hargs : within K args) (hs : s.Obeys K log) :
    Allowed K (.inl (start Builtin.run m (.resume id args) s)) →
      Obeys K log (.inl (start Builtin.run m (.resume id args) s)) := by
  have hs' : (switch id .normal s).Obeys K log := obeys_switch id .normal hs
  unfold start
  dsimp only
  split
  · exact fun _ => ⟨hm, trivial, hs⟩
  · rename_i f frames hframes
    have hm' := within_resumer hm hframes s.thread false
    split
    · rename_i k waiting active hparked
      have hp : within K (Parked.waiting k waiting active) := within_parkedAt hm' id _ hparked
      refine fun _ => ⟨within_frames (within_park hm' id within_none) hp.2.1, ?_⟩
      exact hp.1 _ args _ hargs (hs'.enter hp.2.2)
    · have hthread : within K ((switch id .normal s).threads.getD id default).body :=
        within_getD hs'.1.2.1 within_nil id
      have hbase : within K (baseActivation (s.active.nesting + 1)) := within_library ..
      have hcall := obeys_callProgram hthread hargs ⟨none, none, false, true⟩ [] (hs'.enter hbase)
      exact fun hallowed => ⟨within_frames hm' within_emptyList, hcall hallowed⟩

theorem obeys_close (hm : within K m) (id : Nat) (hs : s.Obeys K log) :
    Obeys K log (.inl (start Builtin.run m (.close id) s)) := by
  have hs' : (switch id .normal s).Obeys K log := obeys_switch id .normal hs
  unfold start
  dsimp only
  split
  · exact ⟨hm, trivial, hs⟩
  · rename_i f frames hframes
    have hm' := within_frames (within_resumer hm hframes s.thread true) within_emptyList
    split
    · rename_i k waiting active hparked
      have hp : within K (Parked.waiting k waiting active) := within_parkedAt hm' id _ hparked
      exact ⟨within_frames (within_park hm' id within_none) hp.2.1, trivial, hs'.enter hp.2.2⟩
    · rename_i e waiting active hparked
      have hp : within K (Parked.failed e waiting active) := within_parkedAt hm' id _ hparked
      exact ⟨within_frames (within_park hm' id within_none) hp.2.1, hp.1, hs'.enter hp.2.2⟩
    · exact ⟨hm', trivial, hs'⟩

theorem obeys_start (hm : within K m) {t : Task} (ht : within K t) (hs : s.Obeys K log)
    (hallowed : Allowed K (.inl (start Builtin.run m t s))) :
    Obeys K log (.inl (start Builtin.run m t s)) := by
  cases t with
  | call f args site => exact ⟨hm, obeys_callProgram ht.1 ht.2 site _ hs hallowed⟩
  | job j => exact ⟨hm, (keeps_runTurn ht).obeys hs⟩
  | resume id args => exact obeys_resume hm id ht hs hallowed
  | close id => exact obeys_close hm id hs

/-- The innermost handler is one of those that wait. -/
theorem within_handler? {frames : List Frame} (h : within K frames) : within K (handler? frames) := by
  induction frames with
  | nil => exact within_none
  | cons f frames ih =>
    obtain ⟨hf, hframes⟩ := within_listCons.mp h
    unfold handler?
    split
    · exact within_some.mpr within_none
    · rename_i v hv
      exact within_some.mpr (within_some.mpr (hf.2.1 v hv))
    · exact ih hframes

theorem obeys_fail (hm : within K m) {e : Value} (he : within K e) (handled : Bool) (hs : s.Obeys K log) :
    Allowed K (fail Builtin.run m e handled s) → Obeys K log (fail Builtin.run m e handled s) := by
  have hunwind : Obeys K log (unwind m e m.frames s) := obeys_unwind hm he hm.1 hs
  have hhandler := within_handler? hm.1
  unfold fail
  split
  · rename_i handler hsome
    rw [hsome] at hhandler
    split
    · exact fun _ => hunwind
    · -- the handler is asked by a frame that fails with what it returns
      have hmode : within K Catch.never := nofun
      refine obeys_start (within_frames hm (within_listCons.mpr ⟨⟨?_, hmode, ?_⟩, hm.1⟩)) ?_ hs
      · intro log r s' hr hs'
        cases r with
        | ok flow => exact ⟨within_headD (within_values (hr.2 flow rfl)) within_nil, hs'⟩
        | error e => exact ⟨hr.1 e rfl, hs'⟩
      · exact within_some.mpr hs.1.2.2
      · exact ⟨within_some.mp (within_some.mp hhandler), within_listCons.mpr ⟨he, within_emptyList⟩⟩
  · exact fun _ => hunwind
  · split
    · exact fun _ => hunwind
    · split
      · exact fun _ => hunwind
      · have hparked : within K (Parked.failed e m.frames s.active) := ⟨he, hm.1, hs.1.2.2⟩
        exact fun _ => obeys_leave (within_park hm _ (within_some.mpr hparked)) (within_error he) hs

theorem obeys_step (hm : within K m) {p : Prog Outcome} (hp : p.Obeys K log)
    (hallowed : Allowed K (step Builtin.run m p)) : Obeys K log (step Builtin.run m p) := by
  cases p with
  | done o s =>
    cases o with
    | finish flow => exact obeys_finish hm hp.1 hp.2 hallowed
    | again t => exact obeys_start hm hp.1 hp.2 hallowed
  | fail e handled s => exact obeys_fail hm hp.1 handled hp.2 hallowed
  | ask t c s k =>
    obtain ⟨⟨ht, hc⟩, hs, hk⟩ := hp
    have hcaller : within K (if keepsCaller t then some s.active else none) := by
      split
      · exact within_some.mpr hs.1.2.2
      · exact within_none
    have hframe : within K (⟨k, c, if keepsCaller t then some s.active else none⟩ : Frame) :=
      ⟨hk, hc, hcaller⟩
    exact obeys_start (within_frames hm (within_listCons.mpr ⟨hframe, hm.1⟩)) ht hs hallowed
  | yield vs s k =>
    obtain ⟨hvs, hs, hk⟩ := hp
    unfold step
    dsimp only
    split
    · rename_i r rs hrs
      obtain ⟨hr, hrest⟩ : within K r ∧ within K rs := within_listCons.mp (hrs ▸ hm.2.1)
      have hparked : within K (Parked.waiting k m.frames s.active) := ⟨hk, hm.1, hs.1.2.2⟩
      have hpark := within_park hm s.thread (within_some.mpr hparked)
      have hm' : within K ({ m.park s.thread (some (.waiting k m.frames s.active)) with
          frames := r.frames, resumers := rs } : Machine) := ⟨hr.2, hrest, hpark.2.2⟩
      exact obeys_deliver hm' hr.1 (within_ok hvs) (obeys_switch _ _ hs)
    · exact ⟨hm, hk log [] s within_emptyList hs⟩

/-- What the `print` calls that are made from a turn on put into their sinks. -/
def Prints (t : Turn) (e : Nat × Bytes) : Prop := ∃ n t', after n t = some t' ∧ t'.2.Prints e

def Bounded (K : Bounds) (t : Turn) : Prop := ∀ e, K.sinks e.1 → Prints t e → K.lines e

theorem Bounded.next {t t₁ : Turn} (h : Bounded K t) (hnext : step Builtin.run t.1 t.2 = .inl t₁) :
    Bounded K t₁ := by
  rintro e hsink ⟨n, t', hafter, hprints⟩
  refine h e hsink ⟨n + 1, t', ?_, hprints⟩
  rw [after, hnext]
  exact hafter

theorem Bounded.allowed {t : Turn} (h : Bounded K t) : Allowed K (step Builtin.run t.1 t.2) := by
  cases hnext : step Builtin.run t.1 t.2 with
  | inl t₁ => exact fun e hsink hprints => h.next hnext e hsink ⟨0, t₁, rfl, hprints⟩
  | inr r => trivial

/-- A run to its end stays within the bounds that it starts with. -/
theorem obeys_run {fuel : Nat} {t : Turn} {r : Finished} (ht : Obeys K log (.inl t)) (hb : Bounded K t)
    (hrun : run Builtin.run fuel t.1 t.2 = some r) : Obeys K log (.inr r) := by
  induction fuel generalizing t with
  | zero => cases hrun
  | succ fuel ih =>
    have hstep := obeys_step ht.1 ht.2 hb.allowed
    unfold run at hrun
    cases hnext : step Builtin.run t.1 t.2 with
    | inl t₁ =>
      rw [hnext] at hrun hstep
      exact ih hstep (hb.next hnext) hrun
    | inr r' =>
      rw [hnext] at hrun hstep
      exact Option.some.inj hrun ▸ hstep

theorem obeys_after {n : Nat} {t t' : Turn} (ht : Obeys K log (.inl t)) (hb : Bounded K t)
    (h : after n t = some t') : Obeys K log (.inl t') ∧ Bounded K t' := by
  induction n generalizing t with
  | zero => exact Option.some.inj h ▸ ⟨ht, hb⟩
  | succ n ih =>
    have hstep := obeys_step ht.1 ht.2 hb.allowed
    unfold after at h
    cases hnext : step Builtin.run t.1 t.2 with
    | inl t₁ =>
      rw [hnext] at h hstep
      exact ih hstep (hb.next hnext) h
    | inr r =>
      rw [hnext] at h
      cases h

theorem run_of_step {fuel : Nat} {m : Machine} {p : Prog Outcome} {t : Turn}
    (h : step Builtin.run m p = .inl t) :
    run Builtin.run (fuel + 1) m p = run Builtin.run fuel t.1 t.2 := by rw [run, h]

theorem run_of_after {n fuel : Nat} {t t' : Turn} {r : Finished} (h : after n t = some t')
    (hrun : run Builtin.run fuel t.1 t.2 = some r) :
    ∃ left, run Builtin.run left t'.1 t'.2 = some r := by
  induction n generalizing t fuel with
  | zero =>
    obtain rfl := Option.some.inj h
    exact ⟨fuel, hrun⟩
  | succ n ih =>
    cases fuel with
    | zero => cases hrun
    | succ fuel =>
      unfold after at h
      cases hnext : step Builtin.run t.1 t.2 with
      | inl t₁ =>
        rw [hnext] at h
        rw [run_of_step hnext] at hrun
        exact ih h hrun
      | inr r' =>
        rw [hnext] at h
        cases h

/-- Whatever has been printed when a run gets somewhere stays there to its end. -/
theorem extends_of_run {n fuel : Nat} {t t' : Turn} {r : Finished} (ht : Obeys K log (.inl t))
    (hb : Bounded K t) (h : after n t = some t') (hrun : run Builtin.run fuel t.1 t.2 = some r) :
    Extends K t'.2.store.printed r.store.printed := by
  obtain ⟨left, hleft⟩ := run_of_after h hrun
  obtain ⟨ht', hb'⟩ := obeys_after ht hb h
  exact (obeys_run (t := t') ⟨ht'.1, ht'.2.anew⟩ hb' hleft).2.1.2

end Machine

end LuaPages.Lua
