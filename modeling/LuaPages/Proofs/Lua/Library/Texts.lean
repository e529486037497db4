import LuaPages.Lua.Library.Strings
import LuaPages.Lua.Library.Utf8Text
import LuaPages.Proofs.Lua.Library.Arguments

namespace LuaPages.Lua

open Confined Script

variable {α : Type} [Confined α] {K : Bounds} {v : Value} {args : Arguments}

theorem Confined.within_map {β : Type} {f : β → α} (hf : ∀ b, within K (f b)) (l : List β) :
    within K (l.map f) := by
  intro a ha
  obtain ⟨b, -, rfl⟩ := List.mem_map.mp ha
  exact hf b

namespace Formatting

@[grind ←] theorem keeps_invalid (spec : List UInt8) : Keeps K (invalid spec : Script α) :=
  keeps_failCaller _

@[grind ←] theorem keeps_directive (flags : String) (dotted : Bool) (spec : List UInt8) :
    Keeps K (directive flags dotted spec) := by
  unfold directive
  split <;> grind

theorem keeps_literal (i : Nat) (hv : within K v) : Keeps K (literal i v) := by
  cases v with
  | nil | bool => exact keeps_display hv
  | number n => cases n <;> exact .pure trivial
  | string s => exact .pure trivial
  | table | closure | builtin | thread | failure => exact Arguments.keeps_refuse i _

@[grind ←] theorem keeps_text (h : within K args) (i : Nat) (spec : List UInt8) :
    Keeps K (text args i spec) := by
  refine .bind (keeps_display (Arguments.within_get h i)) fun s _ => ?_
  split
  · exact .pure trivial
  · refine .bind (Arguments.keeps_require _ i _) fun _ _ => .bind (keeps_directive _ _ spec) fun d _ => ?_
    split <;> exact .pure trivial

@[grind ←] theorem keeps_pointer (h : within K args) (i : Nat) (spec : List UInt8) :
    Keeps K (pointer args i spec) := by
  have hv := Arguments.within_get h i
  refine .bind (keeps_directive _ _ spec) fun d _ => ?_
  generalize args.get i = v at hv
  split
  · exact .pure trivial
  · exact .pure trivial
  · exact .pure trivial
  · exact .pure trivial
  · refine .bind (keeps_display hv) fun t _ => ?_
    split <;> exact .pure trivial

/-- A number and a directive, read in either order. -/
theorem keeps_numeric {β γ : Type} [Confined β] [Confined γ] {x : Script β} {y : Script γ}
    (hx : Keeps K x) (hy : Keeps K y) (f : β → γ → Bytes) : Keeps K (do
      let a ← x
      return f a (← y)) :=
  .bind hx fun _ _ => .bind hy fun _ _ => .pure trivial

theorem keeps_convert (h : within K args) (i : Nat) (spec : List UInt8) :
    Keeps K (convert args i spec) := by
  have hint (f : String) (dotted : Bool) (g : Int64 → Number.Directive → Bytes) :=
    keeps_numeric (Arguments.keeps_int (K := K) args i) (keeps_directive f dotted spec) g
  have hreal (f : String) (dotted : Bool) (g : Binary64 → Number.Directive → Bytes) :=
    keeps_numeric (Arguments.keeps_real (K := K) args i) (keeps_directive f dotted spec) g
  have hreal' (f : String) (dotted : Bool) (g : Number.Directive → Binary64 → Bytes) :=
    keeps_numeric (keeps_directive (K := K) f dotted spec) (Arguments.keeps_real args i) g
  unfold convert
  dsimp only
  split
  case h_8 | h_9 => exact hreal' _ _ _
  case h_10 | h_11 | h_12 | h_13 | h_14 => exact hreal _ _ _
  case h_15 => exact keeps_pointer h i spec
  case h_16 =>
    split
    · exact keeps_failCaller_bind _ _
    · exact keeps_literal i (Arguments.within_get h i)
  case h_17 => exact keeps_text h i spec
  case h_18 => exact keeps_invalid _
  all_goals exact hint _ _ _

theorem keeps_expand (h : within K args) (fuel i : Nat) (s : List UInt8) (acc : Bytes) :
    Keeps K (expand args fuel i s acc) := by
  fun_induction expand args fuel i s acc with
  | case1 | case2 => exact .pure trivial
  | case3 _ _ _ _ ih | case6 _ _ _ _ _ _ _ ih => exact ih
  | case4 fuel i r acc _ jp hfew ih | case5 fuel i r acc _ jp hfew ih =>
    have hpiece : Keeps K (do
        let piece ← convert args (i + 1) (r.takeWhile isModifier ++
          [(r.drop (r.takeWhile isModifier).length).headD 0])
        expand args fuel (i + 1) ((r.drop (r.takeWhile isModifier).length).drop 1) (acc ++ piece)) :=
      .bind (keeps_convert h _ _) fun piece _ => ih piece
    have hjp : Keeps K (jp ()) := by
      dsimp only [jp]
      split
      · exact keeps_failCaller_bind _ _
      · exact hpiece
    first
      | exact hjp
      | exact .bind (Arguments.keeps_refuse _ _) fun _ _ => hjp

@[grind ←] theorem keeps_format (h : within K args) : Keeps K (format args) :=
  .bind (Arguments.keeps_bytes args 1) fun _ _ => .bind (keeps_expand h _ _ _ _) fun _ _ =>
    keeps_single (within_string _)

end Formatting

namespace Packing

@[grind ←] theorem keeps_intSize (n : Nat) (r : List UInt8) : Keeps K (intSize n r) := by
  unfold intSize
  dsimp only
  split
  · exact keeps_failCaller_bind _ _
  · exact .pure ⟨trivial, fun _ _ => trivial⟩

@[grind ←] theorem keeps_option (l : Layout) (c : UInt8) (r : List UInt8) :
    Keeps K (option l c r) := by
  have hread (item : Item) (l : Layout) (r : List UInt8) :
      Keeps K (pure (item, l, r) : Script (Item × Layout × List UInt8)) :=
    .pure ⟨trivial, trivial, fun _ _ => trivial⟩
  have hsized (make : Nat → Item) (d : Nat) : Keeps K (do
      let size ← intSize d r
      return (make size.1, l, size.2)) := .bind (keeps_intSize d r) fun _ _ => hread _ _ _
  unfold option
  dsimp only
  split
  case h_5 | h_6 | h_15 => exact hsized _ _
  case h_16 =>
    split
    · exact hread _ _ _
    · exact keeps_failCaller _
  case h_24 => exact .bind (keeps_intSize 8 r) fun _ _ => hread _ _ _
  case h_25 => exact keeps_failCaller _
  all_goals exact hread _ _ _

@[grind ←] theorem keeps_step (l : Layout) (total : Nat) (c : UInt8) (r : List UInt8) :
    Keeps K (step l total c r) := by
  refine .bind (keeps_option l c r) fun o _ => ?_
  obtain ⟨item, l, rest⟩ := o
  have halign (n : Nat) (r : List UInt8) : Keeps K (pure (n, r) : Script (Nat × List UInt8)) :=
    .pure ⟨trivial, fun _ _ => trivial⟩
  have hresult (s : Step) : Keeps K (pure s) := .pure trivial
  dsimp -zeta only
  extract_lets size finish
  have hfinish (a : Nat × List UInt8) : Keeps K (finish a) := by
    refine .ite (hresult _) (.ite ?_ (hresult _))
    exact .bind (Arguments.keeps_refuse 1 _) fun _ _ => hresult _
  split
  · split
    · exact .bind (Arguments.keeps_refuse 1 _) fun a _ => hfinish a
    · refine .bind (keeps_option l _ _) fun next _ => ?_
      split
      · exact .bind (Arguments.keeps_refuse 1 _) fun a _ => hfinish a
      · refine .ite (.bind (Arguments.keeps_refuse 1 _) fun a _ => hfinish a) ?_
        exact .bind (halign _ _) fun a _ => hfinish a
  · exact .bind (halign _ _) fun a _ => hfinish a

@[grind ←] theorem keeps_packItem (args : Arguments) (i : Nat) (s : Step) :
    Keeps K (packItem args i s) := by
  have hbytes (b : List UInt8) (i : Nat) : Keeps K (pure (b, i) : Script (List UInt8 × Nat)) :=
    .pure ⟨fun _ _ => trivial, trivial⟩
  have hread (f : Bytes → Bool) (why : String) (g : Bytes → List UInt8) : Keeps K (do
      let b ← args.bytes i
      Arguments.require (f b) i why
      return (g b, i + 1)) :=
    .bind (Arguments.keeps_bytes args i) fun _ _ => .bind (Arguments.keeps_require _ i _) fun _ _ => hbytes _ _
  unfold packItem
  dsimp only
  split
  case h_1 | h_2 =>
    refine .bind (Arguments.keeps_int args i) fun n _ => .ite ?_ (hbytes _ _)
    exact .bind (Arguments.keeps_require _ i _) fun _ _ => hbytes _ _
  case h_3 | h_4 => exact .bind (Arguments.keeps_real args i) fun x _ => hbytes _ _
  case h_5 | h_6 | h_7 => exact hread _ _ _
  all_goals exact hbytes _ _

theorem keeps_packFrom (args : Arguments) (fuel : Nat) (l : Layout) (f : List UInt8) (i : Nat)
    (acc : Bytes) : Keeps K (packFrom args fuel l f i acc) := by
  fun_induction packFrom args fuel l f i acc with
  | case1 | case2 => exact .pure trivial
  | case3 fuel l c r i acc ih =>
    refine .bind (keeps_step l acc.size c r) fun s _ => .bind (keeps_packItem args i s) fun p _ => ?_
    exact ih s p.1 p.2

@[grind ←] theorem keeps_pack (args : Arguments) : Keeps K (pack args) :=
  .bind (Arguments.keeps_bytes args 1) fun _ _ => .bind (keeps_packFrom args _ _ _ _ _) fun _ _ =>
    keeps_single (within_string _)

theorem keeps_packsizeFrom (fuel : Nat) (l : Layout) (f : List UInt8) (total : Nat) :
    Keeps K (packsizeFrom fuel l f total) := by
  fun_induction packsizeFrom fuel l f total with
  | case1 | case2 => exact .pure trivial
  | case3 fuel l c r total ih =>
    refine .bind (keeps_step l total c r) fun s _ => ?_
    split
    · exact Arguments.keeps_refuse 1 _
    · exact Arguments.keeps_refuse 1 _
    · exact .bind (Arguments.keeps_require _ 1 _) fun _ _ => ih s

@[grind ←] theorem keeps_packsize (args : Arguments) : Keeps K (packsize args) :=
  .bind (Arguments.keeps_bytes args 1) fun _ _ => .bind (keeps_packsizeFrom _ _ _ _) fun _ _ =>
    keeps_single (within_ofNat _)

@[grind ←] theorem keeps_unpackInt (l : Layout) (signed : Bool) (b : List UInt8) :
    Keeps K (unpackInt l signed b) := by
  have hvalue (i : Int) : Keeps K (pure (.ofInt i) : Script Int64) := .pure trivial
  exact .ite (.ite (keeps_failCaller_bind _ _) (hvalue _)) (hvalue _)

@[grind ←] theorem keeps_unpackItem (data : Bytes) (pos : Nat) (s : Step) :
    Keeps K (unpackItem data pos s) := by
  have hnone (n : Nat) : Keeps K (pure ([], n) : Script (List Value × Nat)) := .pure ⟨within_emptyList, trivial⟩
  have hone {v : Value} (hv : within K v) (n : Nat) : Keeps K (pure ([v], n) : Script (List Value × Nat)) :=
    .pure ⟨within_listCons.mpr ⟨hv, within_emptyList⟩, trivial⟩
  unfold unpackItem
  dsimp only
  split
  case h_1 | h_2 => exact .bind (keeps_unpackInt _ _ _) fun n _ => hone (within_int n) _
  case h_3 | h_4 => exact hone (within_float _) _
  case h_5 => exact hone (within_string _) _
  case h_6 => exact .bind (Arguments.keeps_require _ 2 _) fun _ _ => hone (within_string _) _
  case h_7 =>
    split
    · exact hone (within_string _) _
    · exact Arguments.keeps_refuse 2 _
  all_goals exact hnone _

theorem keeps_unpackFrom (data : Bytes) (fuel : Nat) (l : Layout) (f : List UInt8) (pos : Nat)
    {acc : List Value} (hacc : within K acc) : Keeps K (unpackFrom data fuel l f pos acc) := by
  fun_induction unpackFrom data fuel l f pos acc with
  | case1 | case2 => exact .pure (by grind)
  | case3 fuel l c r pos acc ih =>
    refine .bind (keeps_step l pos c r) fun s _ => .bind (Arguments.keeps_require _ 2 _) fun _ _ => ?_
    refine .bind (keeps_unpackItem data _ s) fun p hp => ih s p.1 p.2 ?_
    exact List.forall_mem_append.mpr ⟨hacc, hp.1⟩

@[grind ←] theorem keeps_unpack (args : Arguments) : Keeps K (unpack args) := by
  refine .bind (Arguments.keeps_bytes args 1) fun f _ => .bind (Arguments.keeps_bytes args 2) fun b _ => ?_
  refine .bind (Arguments.keeps_intD args 3 1) fun i _ => .bind (Arguments.keeps_require _ 3 _) fun _ _ => ?_
  exact keeps_unpackFrom b _ _ _ _ (List.forall_mem_nil _)

end Packing

namespace Strings

@[grind ←] theorem keeps_sub (args : Arguments) : Keeps K (sub args) := by
  refine .bind (Arguments.keeps_bytes args 1) fun s _ => .bind (Arguments.keeps_int args 2) fun i _ => ?_
  exact .bind (Arguments.keeps_intD args 3 _) fun j _ => keeps_single (within_string _)

@[grind ←] theorem keeps_byte (args : Arguments) : Keeps K (byte args) := by
  refine .bind (Arguments.keeps_bytes args 1) fun s _ => .bind (Arguments.keeps_intD args 2 1) fun i _ => ?_
  refine .bind (Arguments.keeps_intD args 3 i) fun j _ => .pure ?_
  split
  · exact within_map (fun _ => within_ofNat _) _
  · exact within_emptyList

@[grind ←] theorem keeps_char (args : Arguments) : Keeps K (char args) := by
  refine .bind (keeps_mapM (fun i => ?_) _) fun _ _ => keeps_single (within_string _)
  exact .bind (Arguments.keeps_int args _) fun _ _ => .bind (Arguments.keeps_require _ _ _) fun _ _ =>
    .pure trivial

@[grind ←] theorem keeps_rep (args : Arguments) : Keeps K (rep args) := by
  have hrepeated (s : Bytes) : Keeps K (pure [.string s] : Script (List Value)) := keeps_single (within_string s)
  refine .bind (Arguments.keeps_bytes args 1) fun s _ => .bind (Arguments.keeps_int args 2) fun n _ => ?_
  refine .bind (Arguments.keeps_bytesD args 3 _) fun sep _ => .ite (hrepeated _) ?_
  exact .ite (keeps_failCaller_bind _ _) (hrepeated _)

@[grind ←] theorem keeps_mapBytes (args : Arguments) (f : List UInt8 → List UInt8) :
    Keeps K (mapBytes args f) :=
  .bind (Arguments.keeps_bytes args 1) fun _ _ => keeps_single (within_string _)

@[grind ←] theorem keeps_dump (h : within K args) : Keeps K (dump args) := by
  refine .bind (Arguments.keeps_function h 1) fun f _ => ?_
  split
  · refine .bind (.update fun s hs => ?_) fun n _ => keeps_single (within_string _)
    split <;> exact ⟨⟨trivial, hs⟩, rfl⟩
  · exact keeps_failCaller _

@[grind ←] theorem keeps_matching (h : ∀ a : α, within K a) (r : Except String α) :
    Keeps K (matching r) := by
  unfold matching
  split
  · exact .pure (h _)
  · exact keeps_failCaller _

theorem within_captured (c : Pattern.Captured) : within K (captured c) := by
  cases c with
  | text b => exact within_string b
  | position n => exact within_ofNat n

@[grind ←] theorem keeps_captures (m : Pattern.Subject) (f : Pattern.Found) : Keeps K (captures m f) :=
  .bind (keeps_matching (fun _ _ _ => trivial) _) fun cs _ => .pure (within_map within_captured cs)

@[grind ←] theorem keeps_lookFor (bounds : Bool) (args : Arguments) :
    Keeps K (lookFor bounds args) := by
  refine .bind (Arguments.keeps_bytes args 1) fun s _ => .bind (Arguments.keeps_bytes args 2) fun p _ => ?_
  refine .bind (Arguments.keeps_intD args 3 1) fun i _ => .ite (keeps_single within_nil) (.ite ?_ ?_)
  · split
    · exact keeps_two (within_ofNat _) (within_ofNat _)
    · exact keeps_single within_nil
  · refine .bind (keeps_matching (fun _ _ _ => trivial) _) fun found _ => ?_
    cases found with
    | none => exact keeps_single within_nil
    | some f =>
      have hbounds (cs : List Value) (hcs : within K cs) :
          Keeps K (pure (.ofNat (f.start + 1) :: .ofNat f.stop :: cs) : Script (List Value)) :=
        .pure (within_listCons.mpr ⟨within_ofNat _, within_listCons.mpr ⟨within_ofNat _, hcs⟩⟩)
      refine .ite (.ite ?_ ?_) (keeps_captures _ f)
      · exact .bind (.pure within_emptyList) hbounds
      · exact .bind (keeps_captures _ f) hbounds

@[grind ←] theorem keeps_gmatch (args : Arguments) : Keeps K (gmatch args) := by
  refine .bind (Arguments.keeps_bytes args 1) fun s _ => .bind (Arguments.keeps_bytes args 2) fun p _ => ?_
  refine .bind (Arguments.keeps_intD args 3 1) fun i _ => .bind (.update fun st hst => ?_) fun id _ => ?_
  · exact ⟨⟨trivial, hst⟩, rfl⟩
  · exact .pure (within_listCons.mpr ⟨nofun, within_emptyList⟩)

@[grind ←] theorem keeps_gmatchStep (id : Nat) : Keeps K (gmatchStep id) := by
  have hcursor : Keeps K (read fun s => s.cursors[id]?) := .read fun _ _ _ _ => trivial
  refine .bind hcursor fun cursor _ => ?_
  split
  · exact .pure within_emptyList
  · refine .bind (keeps_matching (fun _ _ _ => trivial) _) fun found _ => ?_
    split
    · exact .pure within_emptyList
    · exact .bind (.change fun _ hs => ⟨hs, rfl⟩) fun _ _ => keeps_captures _ _

theorem keeps_replacement (m : Pattern.Subject) (f : Pattern.Found) {by_ : Value} (hby : within K by_) :
    Keeps K (replacement m f by_) := by
  unfold replacement
  dsimp only
  split
  · exact keeps_matching (fun _ => trivial) _
  · split
    · refine .bind (keeps_matching (fun _ => trivial) _) fun key _ => ?_
      refine .bind (keeps_index hby (within_captured key) none none) fun v _ => .ite (.pure trivial) ?_
      split
      · exact .pure trivial
      · exact keeps_failCaller _
    · refine .bind (keeps_captures m f) fun vs hvs => ?_
      refine .bind (keeps_call hby hvs _) fun vs _ => .ite (.pure trivial) ?_
      split
      · exact .pure trivial
      · exact keeps_failCaller _

theorem keeps_replaceFrom (m : Pattern.Subject) {by_ : Value} (hby : within K by_) (p : Nat)
    (anchored : Bool) (fuel left pos count : Nat) (lastEnd : Option Nat) (acc : Bytes) :
    Keeps K (replaceFrom m by_ p anchored fuel left pos count lastEnd acc) := by
  induction fuel generalizing left pos count lastEnd acc with
  | zero => exact .pure ⟨trivial, trivial⟩
  | succ fuel ih =>
    have hreplacement (f : Pattern.Found) : Keeps K (replacement m f by_) := keeps_replacement m f hby
    have hpure (r : Bytes × Nat) : Keeps K (pure r) := .pure ⟨trivial, trivial⟩
    unfold replaceFrom
    dsimp only
    split
    · exact hpure _
    · refine .bind (keeps_matching (fun _ _ _ => ⟨trivial, fun _ _ => trivial⟩) _) fun found _ => ?_
      split
      · split
        · exact ih _ _ _ _ _
        · exact hpure _
      · split
        · split
          · exact ih _ _ _ _ _
          · exact hpure _
        · refine .bind (hreplacement _) fun piece _ => ?_
          split
          · exact hpure _
          · exact ih _ _ _ _ _

@[grind ←] theorem keeps_gsub (h : within K args) : Keeps K (gsub args) := by
  refine .bind (Arguments.keeps_bytes args 1) fun s _ => .bind (Arguments.keeps_bytes args 2) fun p _ => ?_
  refine .bind (Arguments.keeps_intD args 4 _) fun most _ => ?_
  extract_lets fits anchored replace
  have hreplace (u : Unit) : Keeps K (replace u) :=
    .bind (keeps_replaceFrom _ (Arguments.within_get h 3) _ _ _ _ _ _ _ _) fun _ _ =>
      keeps_two (within_string _) (within_ofNat _)
  exact .ite (hreplace ()) (.bind (Arguments.keeps_refuseType args 3 _) fun u _ => hreplace u)

@[grind ←] theorem keeps_arith (op : ArithOp) (h : within K args) : Keeps K (arith op args) := by
  have ha := Arguments.within_get h 1
  have hb := Arguments.within_get h 2
  have hargs : within K [args.get 1, args.get 2] :=
    within_listCons.mpr ⟨ha, within_listCons.mpr ⟨hb, within_emptyList⟩⟩
  unfold arith
  extract_lets a b called
  have hcalled (f : Value) (hf : within K f) : Keeps K (called f) :=
    .ite (keeps_failCaller _) (.bind (keeps_call hf hargs _) fun vs hvs =>
      keeps_single (within_headD hvs within_nil))
  split
  · exact .bind (Script.keeps_arith op (within_number _) (within_number _) _ _ _) fun v hv => keeps_single hv
  · clear_value b
    split
    · exact .bind (.pure within_nil) hcalled
    · exact .bind (keeps_metamethod _ _) hcalled

@[grind ←] theorem keeps_run (f : StringFunction) (h : within K args) : Keeps K (run f args) := by
  cases f <;> grind [run]

end Strings

namespace Utf8Text

@[grind ←] theorem keeps_char (args : Arguments) : Keeps K (char args) := by
  refine .bind (keeps_mapM (fun i => ?_) _) fun _ _ => keeps_single (within_string _)
  refine .bind (Arguments.keeps_int args _) fun _ _ => .bind (Arguments.keeps_require _ _ _) fun _ _ => ?_
  exact .pure fun _ _ => trivial

@[grind ←] theorem keeps_codepoint (args : Arguments) : Keeps K (codepoint args) := by
  refine .bind (Arguments.keeps_bytes args 1) fun s _ => .bind (Arguments.keeps_intD args 2 1) fun i _ => ?_
  refine .bind (Arguments.keeps_intD args 3 _) fun j _ => .bind (Arguments.keeps_require _ 2 _) fun _ _ => ?_
  refine .bind (Arguments.keeps_require _ 3 _) fun _ _ => .ite (.pure within_emptyList) ?_
  split
  · exact keeps_failCaller _
  · exact .pure (within_map (fun _ => within_ofNat _) _)

@[grind ←] theorem keeps_len (args : Arguments) : Keeps K (len args) := by
  refine .bind (Arguments.keeps_bytes args 1) fun s _ => .bind (Arguments.keeps_intD args 2 1) fun i _ => ?_
  refine .bind (Arguments.keeps_intD args 3 _) fun j _ => .bind (Arguments.keeps_require _ 2 _) fun _ _ => ?_
  refine .bind (Arguments.keeps_require _ 3 _) fun _ _ => ?_
  split
  · exact keeps_single (within_ofNat _)
  · exact keeps_two within_nil (within_ofNat _)

@[grind ←] theorem keeps_offset (args : Arguments) : Keeps K (offset args) := by
  refine .bind (Arguments.keeps_bytes args 1) fun s _ => .bind (Arguments.keeps_int args 2) fun n _ => ?_
  refine .bind (Arguments.keeps_intD args 3 _) fun i _ => .bind (Arguments.keeps_require _ 3 _) fun _ _ => ?_
  refine .ite (keeps_single (within_ofNat _)) (.ite (keeps_failCaller _) (keeps_single ?_))
  split
  · exact within_ofNat _
  · exact within_nil

@[grind ←] theorem keeps_codes (args : Arguments) : Keeps K (codes args) := by
  have hstep : within K (Value.builtin (.codesStep (args.get 2).truthy)) := nofun
  refine .bind (Arguments.keeps_bytes args 1) fun s _ => .bind (Arguments.keeps_require _ 1 _) fun _ _ => .pure ?_
  exact within_listCons.mpr ⟨hstep, within_listCons.mpr ⟨within_string s, within_listCons.mpr
    ⟨within_int 0, within_emptyList⟩⟩⟩

@[grind ←] theorem keeps_codesStep (lax : Bool) (args : Arguments) :
    Keeps K (codesStep lax args) := by
  refine .bind (Arguments.keeps_bytes args 1) fun s _ => .bind (Arguments.keeps_int args 2) fun i _ => ?_
  refine .ite (.pure within_emptyList) ?_
  split
  · exact keeps_failCaller _
  · exact .ite (keeps_failCaller _) (keeps_two (within_ofNat _) (within_ofNat _))

@[grind ←] theorem keeps_run (f : Utf8Function) (args : Arguments) : Keeps K (run f args) := by
  cases f <;> grind [run]

end Utf8Text

end LuaPages.Lua
