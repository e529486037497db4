import LuaPages.Lua.Library.Sequence
import LuaPages.Proofs.Lua.Library.Arguments

namespace LuaPages.Lua.Sequence

open Confined Script

variable {K : Bounds} {v x : Value} {args : Arguments}

@[grind ←] theorem keeps_check (h : within K args) (i : Nat) (events : List String) :
    Keeps K (check args i events) := by
  have hv := Arguments.within_get h i
  unfold check
  generalize args.get i = v at hv
  split
  · exact .pure hv
  · refine .bind (keeps_metatable? _) fun m _ => .bind (keeps_mapM (fun e => keeps_metamethod _ e) _) fun hs _ => ?_
    exact .ite (.pure hv) (Arguments.keeps_refuseType args i _)

@[grind ←] theorem keeps_lengthOf (hv : within K v) : Keeps K (lengthOf v) := by
  refine .bind (keeps_length hv none none) fun n _ => ?_
  split
  · split
    · exact .pure trivial
    · exact keeps_failCaller _
  · split
    · exact .pure trivial
    · exact keeps_failCaller _

@[grind ←] theorem keeps_getAt (hv : within K v) (i : Int64) : Keeps K (getAt v i) :=
  keeps_index hv (within_int i) none none

@[grind ←] theorem keeps_setAt (hv : within K v) (i : Int64) (hx : within K x) : Keeps K (setAt v i x) :=
  keeps_setIndex hv (within_int i) hx none none

@[grind ←] theorem keeps_textsFrom (hv : within K v) (n : Nat) (i : Int64) (acc : List Bytes) :
    Keeps K (textsFrom v n i acc) := by
  induction n generalizing i acc with
  | zero => exact .pure (by grind)
  | succ n ih =>
    refine .bind (keeps_getAt hv i) fun x _ => ?_
    split
    · exact ih _ _
    · exact keeps_failCaller _

@[grind ←] theorem keeps_shiftUp (hv : within K v) (n : Nat) (i : Int64) : Keeps K (shiftUp v n i) := by
  induction n generalizing i with
  | zero => exact .pure trivial
  | succ n ih => exact .bind (keeps_getAt hv i) fun x hx => .bind (keeps_setAt hv _ hx) fun _ _ => ih _

@[grind ←] theorem keeps_shiftDown (hv : within K v) (n : Nat) (i : Int64) :
    Keeps K (shiftDown v n i) := by
  induction n generalizing i with
  | zero => exact .pure trivial
  | succ n ih => exact .bind (keeps_getAt hv _) fun x hx => .bind (keeps_setAt hv i hx) fun _ _ => ih _

@[grind ←] theorem keeps_copy {target : Value} (hv : within K v) (htarget : within K target)
    (step : Int64) (n : Nat) (i j : Int64) : Keeps K (copy v target step n i j) := by
  induction n generalizing i j with
  | zero => exact .pure trivial
  | succ n ih =>
    exact .bind (keeps_getAt hv i) fun x hx => .bind (keeps_setAt htarget j hx) fun _ _ => ih _ _

@[grind ←] theorem keeps_valuesFrom (hv : within K v) (n : Nat) (i : Int64) {acc : List Value}
    (hacc : within K acc) : Keeps K (valuesFrom v n i acc) := by
  induction n generalizing i acc with
  | zero => exact .pure fun a ha => hacc a (List.mem_reverse.mp ha)
  | succ n ih => exact .bind (keeps_getAt hv i) fun x hx => ih _ (within_listCons.mpr ⟨hx, hacc⟩)

@[grind ←] theorem keeps_concat (h : within K args) : Keeps K (concat args) := by
  refine .bind (keeps_check h 1 _) fun v hv => .bind (keeps_lengthOf hv) fun size _ => ?_
  refine .bind (Arguments.keeps_bytesD args 2 _) fun sep _ => .bind (Arguments.keeps_intD args 3 _) fun i _ => ?_
  refine .bind (Arguments.keeps_intD args 4 _) fun last _ => .ite (keeps_single (within_string _)) ?_
  exact .bind (keeps_textsFrom hv _ _ _) fun _ _ => keeps_single (within_string _)

@[grind ←] theorem keeps_insert (h : within K args) : Keeps K (insert args) := by
  refine .bind (keeps_check h 1 _) fun v hv => .bind (keeps_lengthOf hv) fun size _ => ?_
  dsimp only
  split
  · exact .bind (keeps_setAt hv _ (Arguments.within_get h 2)) fun _ _ => .pure within_emptyList
  · refine .bind (Arguments.keeps_int args 2) fun pos _ => .bind (Arguments.keeps_require _ 2 _) fun _ _ => ?_
    refine .bind (keeps_shiftUp hv _ _) fun _ _ => ?_
    exact .bind (keeps_setAt hv pos (Arguments.within_get h 3)) fun _ _ => .pure within_emptyList
  · exact keeps_failCaller _

@[grind ←] theorem keeps_remove (h : within K args) : Keeps K (remove args) := by
  refine .bind (keeps_check h 1 _) fun v hv => .bind (keeps_lengthOf hv) fun size _ => ?_
  refine .bind (Arguments.keeps_intD args 2 size) fun pos _ => ?_
  extract_lets n close
  have hclose (u : Unit) : Keeps K (close u) := by
    refine .bind (keeps_getAt hv pos) fun x hx => .bind (keeps_shiftDown hv n pos) fun _ _ => ?_
    exact .bind (keeps_setAt hv _ within_nil) fun _ _ => keeps_single hx
  exact .ite (.bind (Arguments.keeps_require _ 2 _) fun u _ => hclose u) (hclose ())

@[grind ←] theorem keeps_move (h : within K args) : Keeps K (move args) := by
  have hsingle {goal : Value} (hgoal : within K goal) : Keeps K (pure [goal] : Script (List Value)) :=
    .pure (within_listCons.mpr ⟨hgoal, within_emptyList⟩)
  have hchecked (i : Nat) (events : List String) := keeps_check h i events
  have hint (i : Nat) : Keeps K (args.int i) := Arguments.keeps_int args i
  unfold move
  dsimp only
  refine .bind (hint 2) fun first _ => .bind (hint 3) fun last _ => .bind (hint 4) fun destination _ => ?_
  refine .bind (hchecked _ _) fun source hsource => .bind (hchecked _ _) fun goal hgoal => ?_
  refine .ite ?_ (hsingle hgoal)
  -- the limit is not to be computed when programs are compared
  generalize Int64.maxValue = most
  refine .bind (Arguments.keeps_require _ _ _) fun _ _ => ?_
  refine .bind (Arguments.keeps_require _ _ _) fun _ _ => .ite ?_ ?_
  · exact .bind (keeps_copy hsource hgoal _ _ _ _) fun _ _ => hsingle hgoal
  · exact .bind (keeps_copy hsource hgoal _ _ _ _) fun _ _ => hsingle hgoal

@[grind ←] theorem keeps_pack (h : within K args) : Keeps K (pack args) := by
  have hfilled (t : Table) (ht : within K t) : within K { t with array := args.toArray } :=
    ⟨fun v hv => h v (List.mem_toArray.mp hv), ht.2⟩
  refine .bind (keeps_newTable (Table.within_setText (hfilled _ (Table.within_create _ _)) _ ?_)) fun t ht => ?_
  · exact within_ofNat _
  · exact .pure (within_listCons.mpr ⟨ht, within_emptyList⟩)

@[grind ←] theorem keeps_unpack (h : within K args) : Keeps K (unpack args) := by
  have hvalues (n : Nat) (i : Int64) : Keeps K (valuesFrom (args.get 1) n i []) :=
    keeps_valuesFrom (Arguments.within_get h 1) n i within_emptyList
  refine .bind (Arguments.keeps_intD args 2 1) fun i _ => ?_
  extract_lets collect
  have hcollect (last : Int64) : Keeps K (collect last) :=
    .ite (.pure within_emptyList) (.ite (keeps_failCaller_bind _ _) (hvalues _ _))
  refine .ite ?_ ?_
  · exact .bind (keeps_lengthOf (Arguments.within_get h 1)) fun last _ => hcollect last
  · exact .bind (Arguments.keeps_int args 3) fun last _ => hcollect last

section Sorting

theorem keeps_invalidOrder {α : Type} [Confined α] : Keeps K (invalidOrder : Script α) :=
  keeps_failCaller _

theorem keeps_swap {y : Value} (hv : within K v) (hx : within K x) (hy : within K y) (i j : Int64) :
    Keeps K (swap v i j x y) := .bind (keeps_setAt hv i hy) fun _ _ => keeps_setAt hv j hx

variable {order : Option Value} (hv : within K v) (horder : within K order)

include horder

@[grind ←] theorem keeps_before {a b : Value} (ha : within K a) (hb : within K b) :
    Keeps K (before order a b) := by
  unfold before
  split
  · exact keeps_ordered true ha hb none
  · rename_i f
    exact .bind (keeps_call (within_some.mp horder) (by grind) _) fun _ _ => .pure trivial

include hv

theorem keeps_scanUp {pivot : Value} (hpivot : within K pivot) (last : Int64) (n : Nat) (i : Int64) :
    Keeps K (scanUp v order pivot last n i) := by
  induction n generalizing i with
  | zero => exact keeps_invalidOrder
  | succ n ih =>
    refine .bind (keeps_getAt hv _) fun x hx => .bind (keeps_before horder hx hpivot) fun b _ => ?_
    exact .ite (.ite keeps_invalidOrder (ih _)) (.pure ⟨trivial, hx⟩)

theorem keeps_scanDown {pivot : Value} (hpivot : within K pivot) (least : Int64) (n : Nat) (j : Int64) :
    Keeps K (scanDown v order pivot least n j) := by
  induction n generalizing j with
  | zero => exact keeps_invalidOrder
  | succ n ih =>
    refine .bind (keeps_getAt hv _) fun x hx => .bind (keeps_before horder hpivot hx) fun b _ => ?_
    exact .ite (.ite keeps_invalidOrder (ih _)) (.pure ⟨trivial, hx⟩)

theorem keeps_partition {pivot : Value} (hpivot : within K pivot) (lo up : Int64) (n : Nat) (i j : Int64) :
    Keeps K (partition v order pivot lo up n i j) := by
  induction n generalizing i j with
  | zero => exact keeps_invalidOrder
  | succ n ih =>
    refine .bind (keeps_scanUp hv horder hpivot _ _ i) fun left hleft => ?_
    refine .bind (keeps_scanDown hv horder hpivot _ _ j) fun right hright => .ite ?_ ?_
    · exact .bind (keeps_swap hv hpivot hleft.2 _ _) fun _ _ => .pure trivial
    · exact .bind (keeps_swap hv hleft.2 hright.2 _ _) fun _ _ => ih _ _

theorem keeps_orderPair (i j : Int64) : Keeps K (orderPair v order i j) := by
  refine .bind (keeps_getAt hv i) fun a ha => .bind (keeps_getAt hv j) fun b hb => ?_
  exact .bind (keeps_before horder hb ha) fun _ _ => .ite (keeps_swap hv ha hb _ _) (.pure trivial)

theorem keeps_sortBetween (fuel : Nat) (lo up : Int64) : Keeps K (sortBetween v order fuel lo up) := by
  induction fuel generalizing lo up with
  | zero => exact .pure trivial
  | succ fuel ih =>
    unfold sortBetween
    extract_lets middle span recurse
    have hrecurse (u : Unit) : Keeps K (recurse u) := by
      refine .ite (.pure trivial) (.bind (keeps_getAt hv _) fun pivot hpivot => ?_)
      refine .bind (keeps_getAt hv _) fun y hy => .bind (keeps_swap hv hpivot hy _ _) fun _ _ => ?_
      refine .bind (keeps_partition hv horder hpivot lo up _ _ _) fun p _ => .ite ?_ ?_
      · exact .bind (ih _ _) fun _ _ => ih _ _
      · exact .bind (ih _ _) fun _ _ => ih _ _
    refine .ite (.bind (keeps_orderPair hv horder lo up) fun _ _ => .ite (.pure trivial) ?_) (.pure trivial)
    refine .bind (keeps_getAt hv _) fun x hx => .bind (keeps_getAt hv _) fun a ha => ?_
    refine .bind (keeps_before horder hx ha) fun _ _ => .ite ?_ ?_
    · exact .bind (keeps_swap hv hx ha _ _) fun u _ => hrecurse u
    · refine .bind (keeps_getAt hv _) fun b hb => .bind (keeps_before horder hb hx) fun _ _ => .ite ?_ ?_
      · exact .bind (keeps_swap hv hx hb _ _) fun u _ => hrecurse u
      · exact hrecurse ()

end Sorting

@[grind ←] theorem keeps_sort (h : within K args) : Keeps K (sort args) := by
  refine .bind (keeps_check h 1 _) fun v hv => .bind (keeps_lengthOf hv) fun n _ => ?_
  refine .ite (.bind (Arguments.keeps_require _ _ _) fun _ _ => ?_) (.pure within_emptyList)
  extract_lets sorted
  have hsorted (order : Option Value) (horder : within K order) : Keeps K (sorted order) :=
    .bind (keeps_sortBetween hv horder _ _ _) fun _ _ => .pure within_emptyList
  refine .ite (.bind (.pure within_none) hsorted) ?_
  exact .bind (.map (Arguments.keeps_function h 2) fun f hf => within_some.mpr hf) hsorted

@[grind ←] theorem keeps_run (f : TableFunction) (h : within K args) : Keeps K (run f args) := by
  cases f <;> grind [run]

end LuaPages.Lua.Sequence
