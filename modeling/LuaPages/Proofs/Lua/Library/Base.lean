import LuaPages.Lua.Library.Base
import LuaPages.Lua.Library.Threads
import LuaPages.Lua.Library.Print
import LuaPages.Proofs.Lua.Library.Arguments

namespace LuaPages.Lua

open Confined Script

variable {K : Bounds} {v : Value} {args : Arguments}

namespace Chunk

@[grind ←] theorem keeps_closureOf (code : Function) (hv : within K v) : Keeps K (closureOf code v) := by
  refine .bind (keeps_mapM (fun i => ?_) _) fun _ _ => keeps_newClosure _
  exact keeps_newCell (by split <;> grind)

@[grind ←] theorem keeps_load (source text mode : Bytes) (hv : within K v) :
    Keeps K (load source text mode v) := by
  have hfault (f : Fault) : Keeps K (pure (.error f) : Script (Except Fault Value)) :=
    .pure ⟨fun _ _ => trivial, nofun⟩
  have hloaded (code : Function) : Keeps K (do return .ok (← closureOf code v) : Script (Except Fault Value)) :=
    .bind (keeps_closureOf code hv) fun f hf => .pure ⟨nofun, fun g hg => Except.ok.inj hg ▸ hf⟩
  have hdumped : Keeps K (read fun s => s.dumped) := .read fun _ _ _ _ => trivial
  have hdepth : Keeps K (read fun s => s.active.nesting) := .read fun _ _ => trivial
  refine .ite (hfault _) (.ite (.bind hdumped fun kept _ => ?_) (.bind hdepth fun depth _ => ?_))
  · split
    · exact hfault _
    · split
      · exact hfault _
      · exact hloaded _
  · split
    · exact hloaded _
    · exact hfault _
    · exact hfault _

end Chunk

namespace Base

theorem keeps_located (hv : within K v) (level : Int64) : Keeps K (located v level) := by
  have htrace : Keeps K (read fun s => s.active.trace) := .read fun _ _ _ _ _ _ => trivial
  unfold located
  split
  · exact .ite (.bind htrace fun _ _ => .pure (within_string _)) (.pure hv)
  · exact .pure hv

theorem keeps_error (h : within K args) : Keeps K (error args) := by
  refine .bind (Arguments.keeps_intD args 2 1) fun level _ => ?_
  exact .bind (keeps_located (Arguments.within_get h 1) level) fun _ he => .raise he

theorem keeps_assert (h : within K args) : Keeps K (assert args) := by
  have hmessage : within K ((args.at? 2).getD (.text "assertion failed!")) :=
    within_optionGetD (Arguments.within_at? h 2) (within_text _)
  refine .ite (.pure h) (.bind (Arguments.keeps_any h 1) fun _ _ => ?_)
  exact .bind (keeps_located hmessage 1) fun _ he => .raise he

theorem keeps_collectgarbage (args : Arguments) : Keeps K (collectgarbage args) := by
  refine .bind (Arguments.keeps_option args 1 _ _) fun what _ => ?_
  split
  · exact .bind (.read fun _ _ => trivial) fun _ _ => keeps_single (within_float _)
  · exact keeps_single (within_bool true)
  · exact keeps_single (within_bool true)
  · exact keeps_single (within_int _)
  · exact keeps_single (within_int _)
  · exact keeps_single (within_text _)
  · exact keeps_single (within_text _)
  · exact keeps_single (within_int _)

theorem keeps_dofile (args : Arguments) : Keeps K (dofile args) :=
  .bind (Arguments.keeps_bytesD args 1 _) fun _ _ => .raise (within_string _)

theorem keeps_loadfile (args : Arguments) : Keeps K (loadfile args) :=
  .bind (Arguments.keeps_bytesD args 1 _) fun _ _ => keeps_two within_nil (within_string _)

theorem keeps_getmetatable (h : within K args) : Keeps K (getmetatable args) := by
  refine .bind (Arguments.keeps_any h 1) fun v _ => ?_
  split
  · exact keeps_single (within_bool false)
  · refine .bind (keeps_metatable? _) fun m _ => ?_
    split
    · exact keeps_single within_nil
    · refine .bind (keeps_ofTable _ fun t ht => Table.within_getText ht _) fun shown hshown => ?_
      refine keeps_single ?_
      split
      · exact nofun
      · exact hshown

theorem keeps_setmetatable (args : Arguments) : Keeps K (setmetatable args) := by
  refine .bind (Arguments.keeps_table args 1) fun id _ => ?_
  extract_lets set
  have hset (m : Option Nat) : Keeps K (set m) := by
    refine .bind (keeps_metamethod _ _) fun _ _ => .ite ?_ (keeps_failCaller_bind _ _)
    exact .bind (keeps_changeTable id fun t ht => ht) fun _ _ => keeps_single nofun
  split
  · exact .bind (.pure within_none) fun m _ => hset m
  · exact .bind (.pure (within_some.mpr trivial)) fun m _ => hset m
  · exact .bind (Arguments.keeps_refuseType args 2 _) fun m _ => hset m

theorem keeps_ipairs (h : within K args) : Keeps K (ipairs args) :=
  .bind (Arguments.keeps_any h 1) fun _ hv =>
    .pure (within_listCons.mpr ⟨nofun, within_listCons.mpr ⟨hv, within_listCons.mpr
      ⟨within_int 0, within_emptyList⟩⟩⟩)

theorem keeps_ipairsStep (h : within K args) : Keeps K (ipairsStep args) := by
  refine .bind (Arguments.keeps_int args 2) fun i _ => ?_
  refine .bind (keeps_index (Arguments.within_get h 1) (within_int _) none none) fun v hv => .pure ?_
  split
  · exact within_listCons.mpr ⟨within_nil, within_emptyList⟩
  · exact within_listCons.mpr ⟨within_int _, within_listCons.mpr ⟨hv, within_emptyList⟩⟩

theorem keeps_next (args : Arguments) : Keeps K (next args) := by
  refine .bind (Arguments.keeps_table args 1) fun id _ => ?_
  refine .bind (keeps_ofTable id fun t ht => Table.within_next ht _) fun entry hentry => ?_
  split
  · exact keeps_failAt none _
  · exact keeps_single within_nil
  · rename_i k v
    have hpair := within_some.mp (within_some.mp hentry)
    exact keeps_two hpair.1 hpair.2

theorem keeps_pairs (h : within K args) : Keeps K (pairs args) := by
  refine .bind (Arguments.keeps_any h 1) fun v hv => .bind (keeps_metamethod v _) fun f hf => .ite ?_ ?_
  · exact .pure (within_listCons.mpr ⟨nofun, within_listCons.mpr ⟨hv, within_listCons.mpr
      ⟨within_nil, within_emptyList⟩⟩⟩)
  · refine .bind (keeps_call hf (within_listCons.mpr ⟨hv, within_emptyList⟩) _) fun vs hvs => .pure ?_
    have hget (i : Nat) : within K (vs.getD i .nil) := within_listGetD hvs within_nil i
    exact within_listCons.mpr ⟨hget 0, within_listCons.mpr ⟨hget 1, within_listCons.mpr
      ⟨hget 2, within_emptyList⟩⟩⟩

theorem within_protectedResults {r : Except Value Flow} (hr : within K r) :
    within K (protectedResults r) := by
  cases r with
  | ok flow => exact within_listCons.mpr ⟨within_bool true, within_values (hr.2 flow rfl)⟩
  | error e => exact within_listCons.mpr ⟨within_bool false, within_listCons.mpr ⟨hr.1 e rfl, within_emptyList⟩⟩

theorem keeps_pcall (h : within K args) : Keeps K (pcall args) := by
  refine .bind (Arguments.keeps_any h 1) fun f hf => ?_
  exact .bind (.ask ⟨hf, Arguments.within_drop h 1⟩ nofun) fun r hr => .pure (within_protectedResults hr)

theorem keeps_xpcall (h : within K args) : Keeps K (xpcall args) := by
  refine .bind (Arguments.keeps_function h 2) fun f hf => ?_
  refine .bind (.ask ⟨Arguments.within_get h 1, Arguments.within_drop h 2⟩ fun w hw => ?_) fun r hr =>
    .pure (within_protectedResults hr)
  exact Catch.handled.inj hw ▸ hf

theorem keeps_rawequal (h : within K args) : Keeps K (rawequal args) :=
  .bind (Arguments.keeps_any h 1) fun _ _ => .bind (Arguments.keeps_any h 2) fun _ _ =>
    keeps_single (within_bool _)

theorem keeps_rawget (h : within K args) : Keeps K (rawget args) := by
  refine .bind (Arguments.keeps_table args 1) fun id _ => .bind (Arguments.keeps_any h 2) fun key _ => ?_
  exact .bind (keeps_ofTable id fun t ht => Table.within_get ht key) fun _ hv => keeps_single hv

theorem keeps_rawset (h : within K args) : Keeps K (rawset args) := by
  refine .bind (Arguments.keeps_table args 1) fun id _ => .bind (Arguments.keeps_any h 2) fun key hkey => ?_
  refine .bind (Arguments.keeps_any h 3) fun value hvalue => ?_
  exact .bind (keeps_rawSet id hkey hvalue none) fun _ _ => keeps_single nofun

theorem keeps_rawlen (args : Arguments) : Keeps K (rawlen args) := by
  unfold rawlen
  split
  · exact .bind (keeps_ofTable _ fun _ _ => trivial) fun _ _ => keeps_single (within_ofNat _)
  · exact keeps_single (within_ofNat _)
  · exact Arguments.keeps_refuseType args 1 _

theorem keeps_byIndex (h : within K args) (n : Nat) : Keeps K (select.byIndex args n) := by
  refine .bind (Arguments.keeps_int args 1) fun i _ => .bind (Arguments.keeps_require _ 1 _) fun _ _ => ?_
  exact .pure (Arguments.within_drop h _)

theorem keeps_select (h : within K args) : Keeps K (select args) := by
  unfold select
  dsimp only
  split
  · exact .ite (keeps_single (within_ofNat _)) (keeps_byIndex h _)
  · exact keeps_byIndex h _

theorem keeps_tonumber (h : within K args) : Keeps K (tonumber args) := by
  refine .ite ?_ (.bind (Arguments.keeps_int args 2) fun base _ => ?_)
  · split
    · exact keeps_single (within_number _)
    · refine keeps_single ?_
      split
      · exact within_number _
      · exact within_nil
    · exact .bind (Arguments.keeps_any h 1) fun _ _ => keeps_single within_nil
  · split
    · refine .bind (Arguments.keeps_require _ 2 _) fun _ _ => keeps_single ?_
      split
      · exact within_int _
      · exact within_nil
    · exact Arguments.keeps_refuseType args 1 _

theorem keeps_tostring (h : within K args) : Keeps K (tostring args) :=
  .bind (Arguments.keeps_any h 1) fun _ hv => .bind (keeps_display hv) fun _ _ =>
    keeps_single (within_string _)

theorem keeps_type (h : within K args) : Keeps K (type args) :=
  .bind (Arguments.keeps_any h 1) fun _ _ => keeps_single (within_text _)

theorem keeps_warn (args : Arguments) : Keeps K (warn args) := by
  refine .bind (Arguments.keeps_bytes args 1) fun _ _ => .bind ?_ fun _ _ => .pure within_emptyList
  induction List.range args.length with
  | nil => exact .pure trivial
  | cons i l ih =>
    rw [List.forIn_cons]
    refine .bind (.bind (Arguments.keeps_bytes args _) fun _ _ => .pure trivial) fun r _ => ?_
    cases r with
    | done => exact .pure trivial
    | yield => exact ih

theorem keeps_gather {f : Value} (hf : within K f) (fuel : Nat) (acc : Bytes) :
    Keeps K (gather f fuel acc) := by
  have hfail {e : Value} (he : within K e) : Keeps K (pure (.error e) : Script (Except Value Bytes)) :=
    .pure ⟨fun _ h => Except.error.inj h ▸ he, nofun⟩
  have hok (b : Bytes) : Keeps K (pure (.ok b) : Script (Except Value Bytes)) := .pure ⟨nofun, fun _ _ => trivial⟩
  induction fuel generalizing acc with
  | zero => exact hok acc
  | succ fuel ih =>
    refine .bind (.ask ⟨hf, within_emptyList⟩ nofun) fun r hr => ?_
    cases r with
    | error e => exact hfail (hr.1 e rfl)
    | ok flow =>
      dsimp only
      split
      · exact hok acc
      · split
        · exact .ite (hok acc) (ih _)
        · exact hfail (within_text _)

theorem keeps_load (h : within K args) : Keeps K (load args) := by
  refine .bind (Arguments.keeps_bytesD args 3 "bt") fun mode _ => ?_
  extract_lets finish loaded
  have hfinish {r : Except Chunk.Fault Value} (hr : within K r) : within K (finish r) := by
    cases r with
    | ok f => exact within_listCons.mpr ⟨hr.2 f rfl, within_emptyList⟩
    | error f => exact within_listCons.mpr ⟨within_nil, within_listCons.mpr ⟨within_string _, within_emptyList⟩⟩
  have hloaded (globals : Value) (hglobals : within K globals) : Keeps K (loaded globals) := by
    have hchunk (source text : Bytes) : Keeps K (do return finish (← Chunk.load source text mode globals)) :=
      .bind (Chunk.keeps_load source text mode hglobals) fun r hr => .pure (hfinish hr)
    dsimp only [loaded]
    split
    · exact .bind (Arguments.keeps_bytesD args 2 _) fun source _ => hchunk source _
    · refine .bind (Arguments.keeps_bytesD args 2 _) fun source _ => ?_
      refine .bind (Arguments.keeps_function h 1) fun f hf => .bind (keeps_gather hf _ _) fun r hr => ?_
      cases r with
      | error e => exact keeps_two within_nil (hr.1 e rfl)
      | ok text => exact hchunk source text
  have hat := Arguments.within_at? h 4
  cases hv : args.at? 4 with
  | none =>
    have hread : Keeps K (read fun s => Value.table s.globals) := .read fun _ _ => nofun
    exact .bind hread hloaded
  | some v => exact .bind (.pure (hat v hv)) hloaded

theorem keeps_require (args : Arguments) : Keeps K (require args) := by
  have hget (id : Nat) (key : Value) : Keeps K (ofTable id (·.get key)) :=
    keeps_ofTable id fun t ht => Table.within_get ht key
  have hset (id : Nat) (name : Bytes) {v : Value} (hv : within K v) :
      Keeps K (changeTable id (·.set (.string name) v)) :=
    keeps_changeTable id fun t ht => Table.within_set ht (within_string name) hv
  have hloaded : Keeps K (read fun s => s.loaded) := .read fun _ _ => trivial
  have hpackage (id : Nat) : Keeps K (ofTable id (·.getText "package")) :=
    keeps_ofTable id fun t ht => Table.within_getText ht _
  have hpaths (id : Nat) : Keeps K (ofTable id fun t => (t.getText "preload", t.getText "path")) :=
    keeps_ofTable id fun t ht => ⟨Table.within_getText ht _, Table.within_getText ht _⟩
  have hnone : Keeps K (pure (.nil, .nil) : Script (Value × Value)) := .pure ⟨within_nil, within_nil⟩
  refine .bind (Arguments.keeps_bytes args 1) fun name _ => .bind hloaded fun loaded _ => ?_
  refine .bind (hget loaded _) fun found hfound => .ite (keeps_single hfound) ?_
  refine .bind (hpackage loaded) fun package _ => ?_
  -- the parts of the program that several branches go on with, the last one first
  extract_lets source answer conclude search
  have hanswer (kept : Value) (h : within K kept) : Keeps K (answer kept) :=
    keeps_two h (within_text _)
  have hconclude (u : Unit) : Keeps K (conclude u) := by
    refine .bind (hget loaded _) fun kept hkept => .ite ?_ (.bind (.pure hkept) hanswer)
    exact .bind (hset loaded name (within_bool true)) fun _ _ => .bind (.pure (within_bool true)) hanswer
  have hsearch (x : Value × Value) : Keeps K (search x) := by
    dsimp only [search]
    split
    · refine .bind (.pure trivial) fun path _ => ?_
      split
      · refine .bind (hget _ _) fun loader hloader => .ite (keeps_failCaller_bind _ _) ?_
        have hargs : within K [Value.string name, source] :=
          within_listCons.mpr ⟨within_string name, within_listCons.mpr ⟨within_text _, within_emptyList⟩⟩
        refine .bind (keeps_call hloader hargs _) fun vs hvs => .ite (hconclude ()) ?_
        exact .bind (hset loaded name (within_headD hvs within_nil)) fun u _ => hconclude u
      · exact keeps_failCaller _
    · exact keeps_failCaller_bind _ _
  split
  · exact .bind (hpaths _) fun x _ => hsearch x
  · exact .bind hnone fun x _ => hsearch x

theorem keeps_run (f : BaseFunction) (h : within K args) : Keeps K (run f args) := by
  cases f with
  | assert => exact keeps_assert h
  | collectgarbage => exact keeps_collectgarbage args
  | dofile => exact keeps_dofile args
  | error => exact keeps_error h
  | getmetatable => exact keeps_getmetatable h
  | ipairs => exact keeps_ipairs h
  | load => exact keeps_load h
  | loadfile => exact keeps_loadfile args
  | next => exact keeps_next args
  | pairs => exact keeps_pairs h
  | pcall => exact keeps_pcall h
  | rawequal => exact keeps_rawequal h
  | rawget => exact keeps_rawget h
  | rawlen => exact keeps_rawlen args
  | rawset => exact keeps_rawset h
  | require => exact keeps_require args
  | select => exact keeps_select h
  | setmetatable => exact keeps_setmetatable args
  | tonumber => exact keeps_tonumber h
  | tostring => exact keeps_tostring h
  | type => exact keeps_type h
  | warn => exact keeps_warn args
  | xpcall => exact keeps_xpcall h

end Base

namespace Threads

theorem keeps_thread (args : Arguments) (i : Nat) : Keeps K (thread args i) := by
  unfold thread
  split
  · exact .pure trivial
  · exact Arguments.keeps_refuseType args i _

theorem keeps_status (id : Nat) : Keeps K (status id) := .read fun _ _ => trivial

theorem keeps_create (h : within K args) : Keeps K (create args) := by
  refine .bind (Arguments.keeps_function h 1) fun f hf => .update fun s hs => ?_
  have hthread : within K (⟨.suspended, f⟩ : Thread) := hf
  exact ⟨⟨trivial, hs.1, within_push hs.2.1 hthread, hs.2.2⟩, rfl⟩

theorem keeps_resume (id : Nat) (h : within K args) : Keeps K (resume id args) := by
  have hrefuse (text : String) :
      Keeps K (pure (.error (.text text)) : Script (Except Value (List Value))) :=
    .pure ⟨fun _ h => Except.error.inj h ▸ within_text text, nofun⟩
  refine .bind (keeps_status id) fun status _ => ?_
  split
  · refine .bind (.read fun _ _ => trivial) fun nesting _ => .ite (hrefuse _) ?_
    refine .bind (.ask h nofun) fun r hr => .pure ?_
    cases r with
    | error e => exact ⟨fun _ he => Except.error.inj he ▸ hr.1 e rfl, nofun⟩
    | ok flow => exact ⟨nofun, fun _ hvs => Except.ok.inj hvs ▸ within_values (hr.2 flow rfl)⟩
  · exact hrefuse _
  · exact hrefuse _

theorem keeps_finish (id : Nat) : Keeps K (finish id) := by
  refine .bind (.ask trivial nofun) fun r hr => ?_
  cases r with
  | ok flow => exact .pure within_none
  | error e => exact .pure (within_some.mpr (hr.1 e rfl))

theorem keeps_close (args : Arguments) : Keeps K (close args) := by
  refine .bind (keeps_thread args 1) fun id _ => .bind (keeps_status id) fun status _ => ?_
  cases status with
  | suspended | dead =>
    refine .bind (keeps_finish id) fun e he => ?_
    cases e with
    | none => exact keeps_single (within_bool true)
    | some e => exact keeps_two (within_bool false) (within_some.mp he)
  | running | normal => exact keeps_failCaller _

theorem keeps_wrapped (id : Nat) (h : within K args) : Keeps K (wrapped id args) := by
  refine .bind (keeps_status id) fun before _ => .bind (keeps_resume id h) fun r hr => ?_
  cases r with
  | ok vs => exact .pure (hr.2 vs rfl)
  | error e =>
    have he := hr.1 e rfl
    refine .bind (keeps_status id) fun status _ => ?_
    extract_lets fail
    have hfail (e : Value) (he : within K e) : Keeps K (fail e) :=
      .bind (Base.keeps_located he 1) fun _ he => .raise he
    split
    · refine .bind (.map (keeps_finish id) fun e' he' => ?_) hfail
      exact within_optionGetD he' he
    · exact .bind (.pure he) hfail

theorem keeps_yield (h : within K args) : Keeps K (yield args) := by
  have hcurrent : Keeps K (read fun s => (s.thread, s.active.yieldable)) := .read fun _ _ => ⟨trivial, trivial⟩
  refine .bind hcurrent fun current _ => ?_
  exact .ite (keeps_failAt none _) (.ite (keeps_failAt none _) (.yield h))

theorem keeps_run (f : CoroutineFunction) (h : within K args) : Keeps K (run f args) := by
  have hcurrent : Keeps K (read fun s => s.thread) := .read fun _ _ => trivial
  cases f with
  | close => exact keeps_close args
  | create => exact .bind (keeps_create h) fun _ _ => keeps_single nofun
  | isyieldable =>
    have hanswer (current id : Nat) : Keeps K (
        if id = current then do return [.bool (← read fun s => s.active.yieldable)]
        else return [.bool (id ≠ mainThread)] : Script (List Value)) :=
      .ite (.bind (.read fun _ _ => trivial) fun _ _ => keeps_single (within_bool _))
        (keeps_single (within_bool _))
    refine .bind hcurrent fun current _ => .ite ?_ ?_
    · exact .bind (.pure trivial) fun id _ => hanswer current id
    · exact .bind (keeps_thread args 1) fun id _ => hanswer current id
  | resume =>
    refine .bind (keeps_thread args 1) fun id _ => ?_
    refine .bind (keeps_resume id (Arguments.within_drop h 1)) fun r hr => ?_
    cases r with
    | ok vs => exact .pure (within_listCons.mpr ⟨within_bool true, hr.2 vs rfl⟩)
    | error e => exact keeps_two (within_bool false) (hr.1 e rfl)
  | running => exact .bind hcurrent fun _ _ => keeps_two nofun (within_bool _)
  | status =>
    exact .bind (keeps_thread args 1) fun id _ => .bind (keeps_status id) fun _ _ =>
      keeps_single (within_text _)
  | wrap => exact .bind (keeps_create h) fun _ _ => keeps_single nofun
  | yield => exact keeps_yield h

end Threads

namespace Print

theorem keeps_failWith {α : Type} [Confined α] (text : Bytes) : Keeps K (failWith text : Script α) :=
  Keeps.bind (keeps_newFailure text) fun _ h => .raise h

theorem keeps_failureText (e : Value) : Keeps K (failureText e) := by
  unfold failureText
  split
  · exact .read fun _ _ => trivial
  · exact .pure trivial
  · exact .pure trivial

theorem keeps_converted (hv : within K v) : Keeps K (converted v) := by
  have htask : within K (Task.call (.builtin (.base .tostring)) [v] .library) :=
    ⟨nofun, within_listCons.mpr ⟨hv, within_emptyList⟩⟩
  have hcatch : within K (Catch.handled (.builtin .describe)) :=
    fun w hw => Catch.handled.inj hw ▸ nofun
  refine .bind (.ask htask hcatch) fun r hr => ?_
  split
  · exact .bind (keeps_failureText _) fun _ _ => keeps_failWith _
  · split
    · split
      · exact .pure trivial
      · exact keeps_failWith _
    · exact .pure trivial

theorem keeps_textOf (hv : within K v) : Keeps K (textOf v) := by
  unfold textOf
  split
  · exact .pure trivial
  · exact .pure trivial
  · exact .pure trivial
  · exact .pure trivial
  · exact .pure trivial
  · exact .read fun _ _ => trivial
  · exact keeps_converted hv

theorem keeps_texts {vs : List Value} (h : within K vs) : Keeps K (texts vs) := by
  induction vs with
  | nil => exact .pure fun _ _ => trivial
  | cons v vs ih =>
    obtain ⟨hv, hvs⟩ := within_listCons.mp h
    exact .bind (keeps_textOf hv) fun _ _ => .bind (ih hvs) fun _ _ => .pure fun _ _ => trivial

theorem keeps_describe (h : within K args) : Keeps K (describe args) := by
  have hv := Arguments.within_get h 1
  unfold describe
  generalize args.get 1 = v at hv
  split
  · exact .pure (by grind)
  · exact .bind (keeps_display hv) fun _ _ => .pure (by grind)

end Print

end LuaPages.Lua
