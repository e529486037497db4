import LuaPages.Lua.Library.Arguments
import LuaPages.Proofs.Lua.Evaluate

namespace LuaPages.Lua

open Confined Script

variable {α : Type} [Confined α] {K : Bounds} {args : Arguments}

/-- The results of a script that is run for each entry of a list. -/
@[grind ←] theorem Script.keeps_mapM {β : Type} {f : β → Script α} (hf : ∀ b, Keeps K (f b)) (l : List β) :
    Keeps K (l.mapM f) := by
  have hloop (acc : List α) (hacc : within K acc) : Keeps K (List.mapM.loop f l acc) := by
    induction l generalizing acc with
    | nil => exact .pure fun a ha => hacc a (List.mem_reverse.mp ha)
    | cons b l ih => exact .bind (hf b) fun a ha => ih (a :: acc) (within_listCons.mpr ⟨ha, hacc⟩)
  exact hloop [] within_emptyList

/-- A function that returns one value. -/
@[grind ←] theorem Script.keeps_single {v : Value} (hv : within K v) :
    Keeps K (pure [v] : Script (List Value)) := .pure (within_listCons.mpr ⟨hv, within_emptyList⟩)

@[grind ←] theorem Script.keeps_two {v w : Value} (hv : within K v) (hw : within K w) :
    Keeps K (pure [v, w] : Script (List Value)) :=
  .pure (within_listCons.mpr ⟨hv, within_listCons.mpr ⟨hw, within_emptyList⟩⟩)

namespace Arguments

@[grind ←] theorem within_at? (h : within K args) (i : Nat) : within K (args.at? i) :=
  fun v hv => h v (List.mem_of_getElem? hv)

@[grind ←] theorem within_get (h : within K args) (i : Nat) : within K (args.get i) :=
  within_optionGetD (within_at? h i) within_nil

@[grind ←] theorem within_drop (h : within K args) (n : Nat) : within K (args.drop n) :=
  fun w hw => h w (List.mem_of_mem_drop hw)

@[grind ←] theorem keeps_refuse (i : Nat) (why : Bytes) : Keeps K (refuse i why : Script α) := by
  have hname : Keeps K (read fun s => s.active.name) := .read fun _ _ => ⟨trivial, trivial⟩
  refine .bind hname fun name _ => ?_
  dsimp only
  generalize (if name.1 = "method" then i - 1 else i) = position
  split <;> exact keeps_failCaller _

@[grind ←] theorem keeps_refuseType (args : Arguments) (i : Nat) (wanted : String) :
    Keeps K (args.refuseType i wanted : Script α) := by
  unfold refuseType
  dsimp only
  split
  · exact .bind (keeps_typeText _) fun _ _ => keeps_refuse i _
  · exact .bind (.pure trivial) fun _ _ => keeps_refuse i _

@[grind ←] theorem keeps_any (h : within K args) (i : Nat) : Keeps K (args.any i) := by
  unfold any
  split
  · rename_i w hget
    exact .pure (within_at? h i w hget)
  · exact keeps_refuse i _

@[grind ←] theorem keeps_table (args : Arguments) (i : Nat) : Keeps K (args.table i) := by
  unfold table
  split <;> grind

@[grind ←] theorem keeps_number (args : Arguments) (i : Nat) : Keeps K (args.number i) := by
  unfold number
  split <;> grind

@[grind ←] theorem keeps_real (args : Arguments) (i : Nat) : Keeps K (args.real i) :=
  .bind (keeps_number args i) fun _ _ => .pure trivial

@[grind ←] theorem keeps_int (args : Arguments) (i : Nat) : Keeps K (args.int i) := by
  unfold int
  split
  · split <;> grind
  · grind

@[grind ←] theorem keeps_intD (args : Arguments) (i : Nat) (d : Int64) : Keeps K (args.intD i d) := by
  unfold intD
  split <;> grind

@[grind ←] theorem keeps_bytes (args : Arguments) (i : Nat) : Keeps K (args.bytes i) := by
  unfold bytes
  split <;> grind

@[grind ←] theorem keeps_bytesD (args : Arguments) (i : Nat) (d : Bytes) : Keeps K (args.bytesD i d) := by
  unfold bytesD
  split <;> grind

@[grind ←] theorem keeps_function (h : within K args) (i : Nat) : Keeps K (args.function i) := by
  unfold function
  split <;> grind

@[grind ←] theorem keeps_require (holds : Bool) (i : Nat) (why : String) :
    Keeps K (require holds i why) := by
  unfold require
  split <;> grind

@[grind ←] theorem keeps_option (args : Arguments) (i : Nat) (d : String) (options : List String) :
    Keeps K (args.option i d options) := by
  refine .bind (keeps_bytesD args i d) fun s _ => ?_
  split <;> grind

end Arguments

end LuaPages.Lua
