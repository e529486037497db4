import LuaPages.Lua.Library.Arithmetic
import LuaPages.Lua.Library.Environment
import LuaPages.Proofs.Lua.Library.Arguments

namespace LuaPages.Lua

open Confined Script

variable {K : Bounds} {v : Value} {args : Arguments}

namespace Arithmetic

@[grind ←] theorem within_ofReal (x : Binary64) : within K (ofReal x) :=
  within_listCons.mpr ⟨within_float x, within_emptyList⟩

@[grind ←] theorem within_wholeOr (whole : Binary64 → Option Int) (x : Binary64) :
    within K (wholeOr whole x) := by
  unfold wholeOr
  split
  · split <;> exact within_number _
  · exact within_float x

@[grind ←] theorem keeps_rounded (args : Arguments) (whole : Binary64 → Option Int) :
    Keeps K (rounded args whole) := by
  unfold rounded
  split
  · exact keeps_single (within_int _)
  · exact .bind (Arguments.keeps_real args 1) fun _ _ => keeps_single (within_wholeOr whole _)

@[grind ←] theorem keeps_unary (args : Arguments) (f : Float → Float) : Keeps K (unary args f) :=
  .bind (Arguments.keeps_real args 1) fun _ _ => .pure (within_ofReal _)

@[grind ←] theorem keeps_abs (args : Arguments) : Keeps K (abs args) := by
  unfold abs
  split
  · exact keeps_single (within_int _)
  · exact .bind (Arguments.keeps_real args 1) fun _ _ => .pure (within_ofReal _)

@[grind ←] theorem keeps_atan (args : Arguments) : Keeps K (atan args) := by
  have hresult (y x : Binary64) : Keeps K (pure (ofReal (Binary64.lift₂ Float.atan2 y x))) :=
    .pure (within_ofReal _)
  refine .bind (Arguments.keeps_real args 1) fun y _ => .ite ?_ ?_
  · exact .bind (.pure trivial) fun x _ => hresult y x
  · exact .bind (Arguments.keeps_real args 2) fun x _ => hresult y x

@[grind ←] theorem keeps_fmod (args : Arguments) : Keeps K (fmod args) := by
  unfold fmod
  split
  · exact .bind (Arguments.keeps_require _ 2 _) fun _ _ => keeps_single (within_ofInt _)
  · refine .bind (Arguments.keeps_real args 2) fun _ _ => ?_
    exact .bind (Arguments.keeps_real args 1) fun _ _ => .pure (within_ofReal _)

@[grind ←] theorem keeps_log (args : Arguments) : Keeps K (log args) := by
  have hresult (x : Binary64) : Keeps K (pure (ofReal x)) := .pure (within_ofReal x)
  refine .bind (Arguments.keeps_real args 1) fun x _ => .ite (hresult _) ?_
  refine .bind (Arguments.keeps_real args 2) fun base _ => ?_
  exact .ite (hresult _) (.ite (hresult _) (hresult _))

@[grind ←] theorem keeps_modf (args : Arguments) : Keeps K (modf args) := by
  unfold modf
  split
  · exact keeps_two (within_int _) (within_float _)
  · exact .bind (Arguments.keeps_real args 1) fun _ _ => keeps_two (within_float _) (within_float _)

@[grind ←] theorem keeps_random (args : Arguments) : Keeps K (random args) := by
  refine .bind (.update fun _ hs => ⟨⟨trivial, hs⟩, rfl⟩) fun x _ => ?_
  extract_lets between
  have hbetween (low up : Int64) : Keeps K (between low up) := by
    refine .bind (Arguments.keeps_require _ 1 _) fun _ _ => ?_
    exact .bind (.update fun _ hs => ⟨⟨trivial, hs⟩, rfl⟩) fun _ _ => keeps_single (within_int _)
  split
  · exact .pure (within_ofReal _)
  · exact .bind (Arguments.keeps_int args 1) fun up _ =>
      .ite (keeps_single (within_int _)) (hbetween 1 up)
  · refine .bind (Arguments.keeps_int args 1) fun low _ => ?_
    exact .bind (Arguments.keeps_int args 2) fun up _ => hbetween low up
  · exact keeps_failCaller _

@[grind ←] theorem keeps_randomseed (args : Arguments) : Keeps K (randomseed args) := by
  have hpair (p : Int64 × Int64) : within K p := ⟨trivial, trivial⟩
  unfold randomseed
  extract_lets seed
  have hseeded (p : Int64 × Int64) : Keeps K (seed p) :=
    .bind (.change fun _ hs => ⟨hs, rfl⟩) fun _ _ => keeps_two (within_int _) (within_int _)
  refine .ite ?_ (.bind (Arguments.keeps_number args 1) fun n _ => ?_)
  · exact .bind (.update fun _ hs => ⟨⟨hpair _, hs⟩, rfl⟩) fun p _ => hseeded p
  · exact .bind (Arguments.keeps_intD args 2 0) fun y _ => .bind (.pure (hpair _)) fun p _ => hseeded p

/-- A function that checks that there is an argument, and gives nil. -/
theorem keeps_nilOfAny (h : within K args) : Keeps K (do
    let _ ← args.any 1
    return [.nil] : Script (List Value)) :=
  .bind (Arguments.keeps_any h 1) fun _ _ => keeps_single within_nil

@[grind ←] theorem keeps_tointeger (h : within K args) : Keeps K (tointeger args) := by
  unfold tointeger
  split
  case h_1 | h_2 =>
    apply keeps_single
    split
    · exact within_int _
    · exact within_nil
  case h_3 => exact keeps_nilOfAny h

@[grind ←] theorem keeps_type (h : within K args) : Keeps K (type args) := by
  unfold type
  split
  · exact keeps_single (within_text _)
  · exact keeps_single (within_text _)
  · exact keeps_nilOfAny h

theorem keeps_best {better : Value → Value → Script Bool}
    (hbetter : ∀ v m, within K v → within K m → Keeps K (better v m)) {vs : List Value}
    (hvs : within K vs) (hv : within K v) : Keeps K (best better vs v) := by
  induction vs generalizing v with
  | nil => exact .pure hv
  | cons w vs ih =>
    obtain ⟨hw, hvs⟩ := within_listCons.mp hvs
    refine .bind (hbetter w v hw hv) fun b _ => ?_
    cases b with
    | true => exact ih hvs hw
    | false => exact ih hvs hv

@[grind ←] theorem keeps_extreme {better : Value → Value → Script Bool} (h : within K args)
    (hbetter : ∀ v m, within K v → within K m → Keeps K (better v m)) :
    Keeps K (extreme args better) := by
  refine .bind (Arguments.keeps_any h 1) fun first hfirst => ?_
  refine .bind (keeps_best hbetter (Arguments.within_drop h 1) hfirst) fun v hv => ?_
  exact .pure (within_listCons.mpr ⟨hv, within_emptyList⟩)

@[grind ←] theorem keeps_run (f : MathFunction) (h : within K args) : Keeps K (run f args) := by
  cases f <;> grind [run]

end Arithmetic

namespace Environment

@[grind ←] theorem keeps_clock : Keeps K clock :=
  .bind (.update fun _ hs => ⟨⟨trivial, hs⟩, rfl⟩) fun _ _ => .pure (by grind)

theorem keeps_now : Keeps K now := .read fun _ _ => trivial

theorem keeps_field (hv : within K v) (key : String) (default : Option Int) (base : Int) :
    Keeps K (field v key default base) := by
  refine .bind (keeps_index hv (within_text key) none none) fun w _ => ?_
  split
  · split
    · exact .pure trivial
    · exact keeps_failCaller _
  · split
    · exact keeps_failCaller _
    · exact .ite (.pure trivial) (keeps_failCaller _)

theorem keeps_setFields (id : Nat) (m : Moment) (hv : within K v) :
    Keeps K (setFields id m v) := by
  refine keeps_changeTable id fun t ht => ?_
  have hset {t : Table} (ht : within K t) (key : String) (n : Number) :
      within K (t.setText key (.number n)) := Table.within_setText ht key (within_number n)
  exact Table.within_setText
    (hset (hset (hset (hset (hset (hset (hset (hset ht _ _) _ _) _ _) _ _) _ _) _ _) _ _) _ _) _ hv

theorem keeps_time (args : Arguments) : Keeps K (time args) := by
  have hfield (id : Nat) := keeps_field (K := K) (v := .table id) nofun
  refine .ite (.bind keeps_now fun _ _ => keeps_single (within_ofInt _)) ?_
  refine .bind (Arguments.keeps_table args 1) fun id _ => ?_
  refine .bind (hfield id _ _ _) fun year _ => .bind (hfield id _ _ _) fun month _ => ?_
  refine .bind (hfield id _ _ _) fun day _ => .bind (hfield id _ _ _) fun hour _ => ?_
  refine .bind (hfield id _ _ _) fun minute _ => .bind (hfield id _ _ _) fun second _ => ?_
  refine .bind (keeps_setFields id _ (within_bool false)) fun _ _ => ?_
  exact .ite (keeps_failCaller_bind _ _) (keeps_single (within_ofInt _))

theorem keeps_date (args : Arguments) : Keeps K (date args) := by
  refine .bind (Arguments.keeps_bytesD args 1 _) fun pattern _ => ?_
  extract_lets chars present
  clear_value chars
  have hpresent (t : Int) : Keeps K (present t) := by
    dsimp only [present]
    split
    · refine .bind (keeps_newTable (Table.within_create 0 9)) fun t ht => ?_
      split
      · exact .bind (keeps_setFields _ _ (within_bool false)) fun _ _ => keeps_single ht
      · exact keeps_single ht
    · split
      · exact keeps_single (within_string _)
      · exact Arguments.keeps_refuse 1 _
  refine .ite (.bind keeps_now fun t _ => hpresent t) ?_
  exact .bind (.map (Arguments.keeps_int args 2) fun _ _ => trivial) fun t _ => hpresent t

theorem within_missing (name : Bytes) : within K (missing name) :=
  within_listCons.mpr ⟨within_nil, within_listCons.mpr ⟨within_string _,
    within_listCons.mpr ⟨within_int 2, within_emptyList⟩⟩⟩

@[grind ←] theorem keeps_run (f : OsFunction) (args : Arguments) : Keeps K (run f args) := by
  have hbytes (i : Nat) : Keeps K (args.bytes i) := Arguments.keeps_bytes args i
  cases f with
  | clock => exact keeps_clock
  | date => exact keeps_date args
  | difftime =>
    exact .bind (Arguments.keeps_int args 1) fun _ _ => .bind (Arguments.keeps_int args 2) fun _ _ =>
      keeps_single (within_float _)
  | execute =>
    refine .pure ?_
    split
    · exact within_listCons.mpr ⟨within_bool false, within_emptyList⟩
    · exact within_listCons.mpr ⟨within_nil, within_listCons.mpr ⟨within_text _,
        within_listCons.mpr ⟨within_int _, within_emptyList⟩⟩⟩
  | exit => exact keeps_failCaller _
  | getenv => exact .bind (hbytes 1) fun _ _ => keeps_single within_nil
  | remove => exact .bind (hbytes 1) fun name _ => .pure (within_missing name)
  | rename => exact .bind (hbytes 1) fun name _ => .bind (hbytes 2) fun _ _ => .pure (within_missing name)
  | setlocale =>
    refine .bind (Arguments.keeps_bytesD args 1 _) fun l _ => keeps_single ?_
    split
    · exact within_text _
    · exact within_nil
  | time => exact keeps_time args
  | tmpname => exact keeps_failCaller _

@[grind ←] theorem keeps_runIo (f : IoFunction) (h : within K args) : Keeps K (runIo f args) := by
  cases f with
  | «open» => exact .bind (Arguments.keeps_bytes args 1) fun name _ => .pure (within_missing name)
  | type => exact .bind (Arguments.keeps_any h 1) fun _ _ => keeps_single within_nil
  | _ => exact keeps_failCaller _

@[grind ←] theorem keeps_runPackage (f : PackageFunction) (args : Arguments) :
    Keeps K (runPackage f args) := by
  refine .bind (Arguments.keeps_bytes args 1) fun name _ => .bind (Arguments.keeps_bytes args 2) fun _ _ => ?_
  cases f with
  | loadlib =>
    exact .pure (within_listCons.mpr ⟨within_nil, within_listCons.mpr ⟨within_text _,
      within_listCons.mpr ⟨within_text _, within_emptyList⟩⟩⟩)
  | searchpath => exact keeps_two within_nil (within_string _)

end Environment

end LuaPages.Lua
