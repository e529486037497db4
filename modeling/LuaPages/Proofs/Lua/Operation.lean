import LuaPages.Proofs.Lua.Keeps
import LuaPages.Proofs.Lua.Tables

namespace LuaPages.Lua.Script

open Confined

variable {α : Type} [Confined α] {K : Bounds} {v key value : Value}

@[grind ←] theorem keeps_failAt (o : Origin) (message : Bytes) : Keeps K (failAt o message : Script α) :=
  .raise (within_string _)

@[grind ←] theorem keeps_ofTable (id : Nat) {f : Table → α} (hf : ∀ t, within K t → within K (f t)) :
    Keeps K (ofTable id f) :=
  .read fun _ hs => hf _ (within_getD hs.1.1 Table.within_default id)

@[grind ←] theorem keeps_changeTable (id : Nat) {f : Table → Table}
    (hf : ∀ t, within K t → within K (f t)) : Keeps K (changeTable id f) :=
  .change fun _ hs => ⟨⟨⟨within_modify hs.1.1 hf id, hs.1.2⟩, hs.2⟩, rfl⟩

@[grind ←] theorem keeps_newTable {t : Table} (ht : within K t) : Keeps K (newTable t) :=
  .update fun _ hs => ⟨⟨nofun, ⟨within_push hs.1.1 ht, hs.1.2⟩, hs.2⟩, rfl⟩

@[grind ←] theorem keeps_newCell (hv : within K v) : Keeps K (newCell v) :=
  .update fun _ hs => ⟨⟨trivial, ⟨hs.1.1, within_push hs.1.2 hv⟩, hs.2⟩, rfl⟩

@[grind ←] theorem keeps_newClosure (c : Closure) : Keeps K (newClosure c) :=
  .update fun _ hs => ⟨⟨nofun, hs⟩, rfl⟩

@[grind ←] theorem keeps_newFailure (text : Bytes) : Keeps K (newFailure text) :=
  .update fun _ hs => ⟨⟨nofun, hs⟩, rfl⟩

@[grind ←] theorem keeps_metatable? (v : Value) : Keeps K (metatable? v) := by
  unfold metatable?
  split <;> grind

@[grind ←] theorem keeps_metamethod (v : Value) (event : String) : Keeps K (metamethod v event) := by
  unfold metamethod
  refine .bind (keeps_metatable? v) fun m _ => ?_
  grind

@[grind ←] theorem keeps_typeText (v : Value) : Keeps K (typeText v) := by
  unfold typeText
  grind

@[grind ←] theorem keeps_typeError (o : Origin) (action : String) (v : Value) (d : Described) :
    Keeps K (typeError o action v d : Script α) :=
  Keeps.bind (keeps_typeText v) fun _ _ => keeps_failAt o _

theorem within_values {flow : Flow} (h : within K flow) : within K flow.values := by
  cases flow with
  | «return» vs => exact h
  | _ => exact fun a ha => absurd ha List.not_mem_nil

@[grind ←] theorem keeps_call {f : Value} {args : List Value} (hf : within K f) (hargs : within K args)
    (site : Site) : Keeps K (call f args site) :=
  .bind (.run ⟨hf, hargs⟩) fun _ hflow => .pure (within_values hflow)

@[grind ←] theorem within_headD {vs : List Value} (h : within K vs) (hv : within K v) : within K (vs.headD v) := by
  cases vs with
  | nil => exact hv
  | cons w vs => exact h w List.mem_cons_self

@[grind ←] theorem keeps_callMeta {f : Value} {args : List Value} (hf : within K f)
    (hargs : within K args) (o : Origin) (event : String) : Keeps K (callMeta f args o event) :=
  .bind (keeps_call hf hargs _) fun _ hvs => .pure (within_headD hvs within_nil)

theorem keeps_indexFrom (o : Origin) (hkey : within K key) (fuel : Nat) (hv : within K v)
    (d : Described) : Keeps K (indexFrom o key fuel v d) := by
  induction fuel generalizing v d with
  | zero => exact keeps_failAt o _
  | succ fuel ih =>
    unfold indexFrom
    dsimp only
    split
    · have hread (id : Nat) : Keeps K (ofTable id fun t => (t.get key, t.metatable)) :=
        keeps_ofTable id fun t ht => ⟨Table.within_get ht _, fun _ _ => trivial⟩
      refine .bind (hread _) fun p hp => ?_
      grind
    · grind

@[grind ←] theorem keeps_index (hv : within K v) (hkey : within K key) (d : Described) (o : Origin) :
    Keeps K (index v key d o) := keeps_indexFrom o hkey chainLimit hv d

@[grind ←] theorem keeps_rawSet (id : Nat) (hkey : within K key) (hvalue : within K value) (o : Origin) :
    Keeps K (rawSet id key value o) := by
  unfold rawSet
  grind

theorem keeps_setIndexFrom (o : Origin) (hkey : within K key) (hvalue : within K value) (fuel : Nat)
    (hv : within K v) (d : Described) : Keeps K (setIndexFrom o key value fuel v d) := by
  induction fuel generalizing v d with
  | zero => exact keeps_failAt o _
  | succ fuel ih =>
    have hstore (id : Nat) := keeps_rawSet id hkey hvalue o
    unfold setIndexFrom
    dsimp only
    split
    · refine .bind (keeps_ofTable _ fun _ _ _ _ => trivial) fun m _ => ?_
      cases m with
      | none => exact hstore _
      | some m =>
        refine .bind (keeps_ofTable _ fun _ _ => trivial) fun present _ => ?_
        cases present with
        | false => exact hstore _
        | true =>
          refine .bind (keeps_ofTable m fun t ht => Table.within_getText ht _) fun h hh => ?_
          grind
    · grind

@[grind ←] theorem keeps_setIndex (hv : within K v) (hkey : within K key) (hvalue : within K value)
    (d : Described) (o : Origin) : Keeps K (setIndex v key value d o) :=
  keeps_setIndexFrom o hkey hvalue chainLimit hv d

@[grind ←] theorem keeps_arithFailed (f : ArithOp.Failure) (o : Origin) :
    Keeps K (arithFailed f o : Script α) := keeps_failAt o _

@[grind ←] theorem keeps_binaryMeta (a b : Value) (event : String) : Keeps K (binaryMeta a b event) := by
  unfold binaryMeta
  grind

@[grind ←] theorem keeps_arithRefused (op : ArithOp) (a b : Value) (da db : Described) (o : Origin) :
    Keeps K (arithRefused op a b da db o : Script α) := by
  unfold arithRefused
  grind

@[grind ←] theorem keeps_arith (op : ArithOp) {a b : Value} (ha : within K a) (hb : within K b)
    (da db : Described) (o : Origin) : Keeps K (arith op a b da db o) := by
  unfold arith
  grind

@[grind ←] theorem keeps_isEqual {a b : Value} (ha : within K a) (hb : within K b) (o : Origin) :
    Keeps K (isEqual a b o) := by
  unfold isEqual
  split
  · split <;> grind
  · grind

@[grind ←] theorem keeps_ordered (strict : Bool) {a b : Value} (ha : within K a) (hb : within K b)
    (o : Origin) : Keeps K (ordered strict a b o) := by
  unfold ordered
  grind

@[grind ←] theorem keeps_compare (op : CompareOp) {a b : Value} (ha : within K a) (hb : within K b)
    (o : Origin) : Keeps K (compare op a b o) := by
  unfold compare
  grind

@[grind ←] theorem keeps_concatPair {a b : Value} (ha : within K a) (hb : within K b)
    (da db : Described) (o : Origin) : Keeps K (concatPair a b da db o) := by
  unfold concatPair
  grind

theorem keeps_joined (hv : within K v) (texts : List Bytes) : Keeps K (concatFrom.joined v texts) := by
  unfold concatFrom.joined
  grind

theorem keeps_concatFrom (o : Origin) {rest : List (Value × Described)} (hrest : within K rest)
    {acc : Value × Described} (hacc : within K acc) (texts : List Bytes) :
    Keeps K (concatFrom o rest acc texts) := by
  induction rest generalizing acc texts with
  | nil => exact keeps_joined hacc.1 texts
  | cons part rest ih =>
    have hpart : within K part := hrest part List.mem_cons_self
    have ih {acc : Value × Described} (hacc : within K acc) (texts : List Bytes) :
        Keeps K (concatFrom o rest acc texts) :=
      ih (fun p hp => hrest p (List.mem_cons_of_mem part hp)) hacc texts
    unfold concatFrom
    split
    · exact ih hacc _
    · refine .bind (keeps_joined hacc.1 texts) fun right hright => ?_
      refine .bind (keeps_concatPair hpart.1 hright _ _ o) fun value hvalue => ?_
      exact ih ⟨hvalue, fun _ _ => ⟨trivial, trivial⟩⟩ []

@[grind ←] theorem keeps_concat {parts : List (Value × Described)} (h : within K parts) (o : Origin) :
    Keeps K (concat parts o) := by
  have hreverse : within K parts.reverse := fun p hp => h p (List.mem_reverse.mp hp)
  unfold concat
  split
  · exact .pure (within_string _)
  · rename_i last rest hparts
    rw [hparts] at hreverse
    exact keeps_concatFrom o (fun p hp => hreverse p (List.mem_cons_of_mem last hp))
      (hreverse last List.mem_cons_self) []

@[grind ←] theorem keeps_length (hv : within K v) (d : Described) (o : Origin) :
    Keeps K (length v d o) := by
  unfold length
  grind

@[grind ←] theorem keeps_caller : Keeps K caller := .read fun _ _ _ _ => trivial

@[grind ←] theorem keeps_failCaller (message : Bytes) : Keeps K (failCaller message : Script α) :=
  Keeps.bind keeps_caller fun _ _ => keeps_failAt _ _

/-- What would come after a failure does not matter. -/
theorem keeps_failCaller_bind {β : Type} [Confined β] (message : Bytes) (f : β → Script α) :
    Keeps K (failCaller message >>= f) := by
  have hfail : (failCaller message >>= f) = failCaller message := rfl
  rw [hfail]
  exact keeps_failCaller message

@[grind ←] theorem keeps_display (hv : within K v) : Keeps K (display v) := by
  unfold display
  grind

end LuaPages.Lua.Script
