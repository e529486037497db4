import LuaPages.Proofs.Lua.Operation

namespace LuaPages.Lua

open Confined

variable {K : Bounds} {v : Value} {vs : List Value}

instance : Confined Script.Operand :=
  ⟨fun K x => match x with
    | .value v => within K v
    | .slot _ => True⟩

instance : Confined Script.Target :=
  ⟨fun K x => match x with
    | .entry v k _ _ => within K v ∧ within K k
    | _ => True⟩

namespace Script

@[grind ←] theorem keeps_isCaptured (slot : Nat) : Keeps K (isCaptured slot) := .read fun _ _ => trivial

@[grind ←] theorem keeps_readSlot (slot : Nat) : Keeps K (readSlot slot) := by
  refine .read fun s hs => ?_
  dsimp only
  split
  · exact within_getD hs.1.2 within_nil _
  · exact within_getD hs.2.2.1 within_nil _

@[grind ←] theorem keeps_changeActive {f : Activation → Activation}
    (hf : ∀ a, within K a → within K (f a)) : Keeps K (changeActive f) :=
  .change fun _ hs => ⟨⟨hs.1, hs.2.1, hf _ hs.2.2⟩, rfl⟩

@[grind ←] theorem keeps_setCell (id : Nat) (hv : within K v) : Keeps K (setCell id v) :=
  .change fun _ hs => ⟨⟨⟨hs.1.1, within_setIfInBounds hs.1.2 hv id⟩, hs.2⟩, rfl⟩

theorem keeps_setSlot (slot : Nat) (hv : within K v) :
    Keeps K (changeActive fun a => { a with slots := a.slots.setIfInBounds slot v }) :=
  keeps_changeActive fun _ ha => ⟨within_setIfInBounds ha.1 hv slot, ha.2⟩

@[grind ←] theorem keeps_writeSlot (slot : Nat) (hv : within K v) : Keeps K (writeSlot slot v) := by
  unfold writeSlot
  refine .bind (keeps_isCaptured slot) fun captured _ => ?_
  split
  · exact .bind (.read fun _ _ => trivial) fun _ _ => keeps_setCell _ hv
  · exact keeps_setSlot slot hv

@[grind ←] theorem keeps_declareSlot (slot : Nat) (hv : within K v) : Keeps K (declareSlot slot v) := by
  unfold declareSlot
  refine .bind (keeps_isCaptured slot) fun captured _ => ?_
  split
  · exact .bind (keeps_newCell hv) fun _ _ => keeps_changeActive fun _ ha => ha
  · exact keeps_setSlot slot hv

theorem within_tail (h : within K vs) : within K vs.tail := fun v hv => h v (List.mem_of_mem_tail hv)

@[grind ←] theorem keeps_declareSlots (slots : List Nat) (h : within K vs) :
    Keeps K (declareSlots slots vs) := by
  induction slots generalizing vs with
  | nil => exact .pure trivial
  | cons slot slots ih =>
    exact .bind (keeps_declareSlot slot (within_headD h within_nil)) fun _ _ => ih (within_tail h)

@[grind ←] theorem keeps_readVariable (x : Variable) : Keeps K (readVariable x) := by
  cases x with
  | «local» slot _ => exact keeps_readSlot slot
  | upvalue i _ => exact .read fun s hs => within_getD hs.1.2 within_nil _

@[grind ←] theorem keeps_writeVariable (x : Variable) (hv : within K v) : Keeps K (writeVariable x v) := by
  cases x with
  | «local» slot _ => exact keeps_writeSlot slot hv
  | upvalue i _ => exact .bind (.read fun _ _ => trivial) fun _ _ => keeps_setCell _ hv

@[grind ←] theorem keeps_place (line : Nat) : Keeps K (place line) := .read fun _ _ _ _ => trivial

@[grind ←] theorem keeps_makeClosure (f : Function) : Keeps K (makeClosure f) :=
  .bind (.read fun _ _ _ _ => trivial) fun _ _ => keeps_newClosure _

@[grind ←] theorem keeps_get {x : Operand} (hx : within K x) : Keeps K x.get := by
  cases x with
  | value v => exact .pure hx
  | slot i => exact keeps_readSlot i

@[grind ←] theorem keeps_late (e : Expr) {x : Script Value} (hx : Keeps K x) : Keeps K (late e x) := by
  unfold late
  split
  · exact .pure trivial
  · exact .bind hx fun v hv => .pure hv

@[grind ←] theorem keeps_siteOf (name : Described) (line : Nat) : Keeps K (siteOf name line) :=
  .bind (keeps_place line) fun _ _ => .pure trivial

@[grind ←] theorem keeps_callValues {f : Script Value} {args : Script (List Value)} (hf : Keeps K f)
    (hargs : Keeps K args) (name : Described) (line : Nat) : Keeps K (callValues f name args line) :=
  .bind hf fun _ hfv => .bind hargs fun _ hvs => .bind (keeps_siteOf name line) fun _ _ =>
    keeps_call hfv hvs _

theorem within_cons (hv : within K v) (hvs : within K vs) : within K (v :: vs) :=
  List.forall_mem_cons.mpr ⟨hv, hvs⟩

@[grind ←] theorem keeps_callMethod {object : Script Value} {args : Script (List Value)}
    (hobject : Keeps K object) (hargs : Keeps K args) (d : Described) (name : Bytes)
    (nameLine line : Nat) : Keeps K (callMethod object d name args nameLine line) := by
  refine .bind hobject fun v hv => .bind (keeps_place nameLine) fun o _ => ?_
  refine .bind (keeps_index hv (within_string _) d o) fun f hf => .bind hargs fun vs hvs => ?_
  exact .bind (keeps_siteOf _ line) fun _ _ => keeps_call hf (within_cons hv hvs) _

@[grind ←] theorem keeps_storeItems (t last : Nat) (h : within K vs) : Keeps K (storeItems t last vs) := by
  induction vs generalizing last with
  | nil => exact .pure trivial
  | cons v vs ih =>
    obtain ⟨hv, hvs⟩ := List.forall_mem_cons.mp h
    exact .bind (keeps_changeTable t fun _ ht => Table.within_setInt ht _ hv) fun _ _ => ih _ hvs

@[grind ←] theorem keeps_storeBatch (t last : Nat) (h : within K vs) : Keeps K (storeBatch t last vs) := by
  unfold storeBatch
  split
  · exact .pure h
  · exact .bind (keeps_storeItems t last h) fun _ _ => .pure (List.forall_mem_nil _)

theorem within_ofConstant (c : Constant) : within K (Value.ofConstant c) := by
  cases c <;> exact nofun

@[grind ←] theorem within_bool (b : Bool) : within K (Value.bool b) := nofun

mutual

theorem keeps_eval (e : Expr) : Keeps K (eval e) := by
  cases e with
  | const c => exact .pure (within_ofConstant c)
  | vararg => exact .read fun _ hs => within_headD hs.2.2.2 within_nil
  | var v => exact keeps_readVariable v
  | index e k line =>
    rw [eval]
    refine .bind (keeps_late e (keeps_eval e)) fun x hx => ?_
    refine .bind (keeps_late k (keeps_eval k)) fun y hy => .bind (keeps_get hy) fun key hkey => ?_
    exact .bind (keeps_get hx) fun v hv => .bind (keeps_place line) fun o _ => keeps_index hv hkey _ o
  | call f args line =>
    rw [eval]
    exact .bind (keeps_callValues (keeps_eval f) (keeps_evalList args) _ line) fun vs hvs =>
      .pure (within_headD hvs within_nil)
  | method e n args nameLine line =>
    rw [eval]
    exact .bind (keeps_callMethod (keeps_eval e) (keeps_evalList args) _ n nameLine line) fun vs hvs =>
      .pure (within_headD hvs within_nil)
  | function f => exact keeps_makeClosure f
  | not e =>
    rw [eval]
    exact .bind (keeps_eval e) fun _ _ => .pure (within_bool _)
  | length e line =>
    rw [eval]
    exact .bind (keeps_eval e) fun v hv => .bind (keeps_place line) fun o _ => keeps_length hv _ o
  | unary op e line =>
    rw [eval]
    exact .bind (keeps_eval e) fun v hv => .bind (keeps_place line) fun o _ => keeps_arith op hv hv _ _ o
  | arith op a b line =>
    rw [eval]
    refine .bind (keeps_late a (keeps_eval a)) fun x hx => ?_
    refine .bind (keeps_late b (keeps_eval b)) fun y hy => .bind (keeps_get hx) fun v hv => ?_
    exact .bind (keeps_get hy) fun w hw => .bind (keeps_place line) fun o _ => keeps_arith op hv hw _ _ o
  | compare op a b line =>
    rw [eval]
    refine .bind (keeps_late a (keeps_eval a)) fun x hx => ?_
    refine .bind (keeps_late b (keeps_eval b)) fun y hy => .bind (keeps_get hx) fun v hv => ?_
    refine .bind (keeps_get hy) fun w hw => .bind (keeps_place line) fun o _ => ?_
    exact .bind (keeps_compare op hv hw o) fun _ _ => .pure (within_bool _)
  | concat parts line =>
    rw [eval]
    exact .bind (keeps_evalParts parts) fun vs hvs => .bind (keeps_place line) fun o _ =>
      keeps_concat hvs o
  | and a b =>
    rw [eval]
    refine .bind (keeps_eval a) fun v hv => ?_
    split
    · exact keeps_eval b
    · exact .pure hv
  | or a b =>
    rw [eval]
    refine .bind (keeps_eval a) fun v hv => ?_
    split
    · exact .pure hv
    · exact keeps_eval b
  | paren e =>
    rw [eval]
    exact keeps_eval e
  | table fields =>
    rw [eval]
    refine .bind (keeps_newTable (Table.within_create _ _)) fun t ht => ?_
    split
    · exact .bind (keeps_evalFields _ 0 (List.forall_mem_nil _) fields) fun _ _ => .pure ht
    · exact .pure ht

theorem keeps_evalOpen (e : Expr) : Keeps K (evalOpen e) := by
  cases e with
  | vararg => exact .read fun _ hs => hs.2.2.2
  | call f args line =>
    rw [evalOpen]
    exact keeps_callValues (keeps_eval f) (keeps_evalList args) _ line
  | method e n args nameLine line =>
    rw [evalOpen]
    exact keeps_callMethod (keeps_eval e) (keeps_evalList args) _ n nameLine line
  | _ => exact .pure (List.forall_mem_nil _)

theorem keeps_evalList (es : List Expr) : Keeps K (evalList es) := by
  match es with
  | [] => exact .pure (List.forall_mem_nil _)
  | [e] =>
    rw [evalList]
    split
    · exact keeps_evalOpen e
    · exact .bind (keeps_eval e) fun v hv => .pure (within_cons hv (List.forall_mem_nil _))
  | e :: e' :: es =>
    rw [evalList]
    · exact .bind (keeps_eval e) fun v hv => .bind (keeps_evalList (e' :: es)) fun vs hvs =>
        .pure (within_cons hv hvs)
    · exact nofun

theorem keeps_evalParts (es : List Expr) : Keeps K (evalParts es) := by
  match es with
  | [] => exact .pure (List.forall_mem_nil _)
  | e :: es =>
    rw [evalParts]
    exact .bind (keeps_eval e) fun v hv => .bind (keeps_evalParts es) fun vs hvs =>
      .pure (List.forall_mem_cons.mpr ⟨⟨hv, fun _ _ => ⟨trivial, trivial⟩⟩, hvs⟩)

theorem keeps_evalFields (t count : Nat) {waiting : List Value} (h : within K waiting)
    (fields : List Field) : Keeps K (evalFields t count waiting fields) := by
  match fields with
  | [] =>
    rw [evalFields]
    exact keeps_storeItems t count h
  | [.item e] =>
    rw [evalFields]
    refine .bind (keeps_storeBatch t count h) fun waiting hwaiting => ?_
    -- the last item gives all its values, or the first one only
    extract_lets store
    have hstore (vs : List Value) (hvs : within K vs) : Keeps K (store vs) := by
      refine .bind (keeps_changeTable t fun _ ht => Table.within_reserve ht _) fun _ _ => ?_
      refine keeps_storeItems t _ fun v hv => ?_
      rcases List.mem_append.mp hv with hv | hv
      · exact hvs v (List.mem_reverse.mp hv)
      · exact hwaiting v hv
    split
    · exact .bind (keeps_evalOpen e) hstore
    · have hvalue : Keeps K (do return [← eval e] : Script (List Value)) :=
        .bind (keeps_eval e) fun v hv => .pure (within_cons hv (List.forall_mem_nil _))
      exact .bind hvalue hstore
  | .item e :: f :: r =>
    rw [evalFields]
    · refine .bind (keeps_storeBatch t count h) fun waiting hwaiting => ?_
      exact .bind (keeps_eval e) fun v hv =>
        keeps_evalFields t (count + 1) (within_cons hv hwaiting) (f :: r)
    · exact nofun
  | .pair k v line :: r =>
    rw [evalFields]
    refine .bind (keeps_storeBatch t count h) fun waiting hwaiting => ?_
    refine .bind (keeps_eval k) fun key hkey => .bind (keeps_eval v) fun value hvalue => ?_
    refine .bind (keeps_place line) fun o _ => .bind (keeps_rawSet t hkey hvalue o) fun _ _ => ?_
    exact keeps_evalFields t count hwaiting r

end

@[grind ←] theorem keeps_target (e : Expr) : Keeps K (target e) := by
  unfold target
  split
  · exact .pure trivial
  · rename_i e k line
    refine .bind (keeps_late e (keeps_eval e)) fun v hv => ?_
    exact .bind (keeps_late k (keeps_eval k)) fun w hw => .bind (keeps_place line) fun o _ => .pure ⟨hv, hw⟩
  · exact .pure trivial

@[grind ←] theorem keeps_settle {t : Target} (h : within K t) : Keeps K t.settle := by
  cases t with
  | entry v k d o =>
    exact .bind (keeps_get h.1) fun v hv => .bind (keeps_get h.2) fun k hk => .pure ⟨hv, hk⟩
  | _ => exact .pure h

@[grind ←] theorem keeps_assign {t : Target} (h : within K t) (hv : within K v) : Keeps K (t.assign v) := by
  cases t with
  | «variable» x => exact keeps_writeVariable x hv
  | entry object k d o =>
    exact .bind (keeps_get h.1) fun w hw => .bind (keeps_get h.2) fun k hk => keeps_setIndex hw hk hv d o
  | nowhere => exact .pure trivial

theorem keeps_targets (es : List Expr) : Keeps K (targets es) := by
  induction es with
  | nil => exact .pure (List.forall_mem_nil _)
  | cons e es ih =>
    refine .bind (keeps_target e) fun t ht => .bind (keeps_settle ht) fun t ht => ?_
    exact .bind ih fun ts hts => .pure (List.forall_mem_cons.mpr ⟨ht, hts⟩)

theorem keeps_assignAll {ts : List Target} (hts : within K ts) (hvs : within K vs) :
    Keeps K (assignAll ts vs) := by
  induction ts generalizing vs with
  | nil => exact .pure trivial
  | cons t ts ih =>
    obtain ⟨ht, hts⟩ := List.forall_mem_cons.mp hts
    exact .bind (ih hts (within_tail hvs)) fun _ _ => keeps_assign ht (within_headD hvs within_nil)

theorem keeps_runJob {j : Job} (h : within K j) : Keeps K (runJob j) := .run h

theorem keeps_runBlock (body : List Stat) : Keeps K (runBlock body) := keeps_runJob trivial

theorem keeps_chooseArm (otherwise : List Stat) (arms : List (Expr × List Stat)) :
    Keeps K (chooseArm otherwise arms) := by
  induction arms with
  | nil => exact keeps_runBlock otherwise
  | cons arm arms ih =>
    refine .bind (keeps_eval arm.1) fun v _ => ?_
    split
    · exact keeps_runBlock arm.2
    · exact ih

theorem keeps_closeValue {e : Value} (hv : within K v) (he : within K e) : Keeps K (closeValue v e) := by
  unfold closeValue
  split
  · refine .bind (keeps_metamethod v _) fun h hh => ?_
    exact .bind (keeps_call hh (within_cons hv (within_cons he (List.forall_mem_nil _))) _) fun _ _ =>
      .pure trivial
  · exact .pure trivial

theorem keeps_guarded (hv : within K v) {j : Job} (h : within K j) : Keeps K (guarded v j) := by
  refine .bind (.ask h nofun) fun r hr => ?_
  cases r with
  | ok flow => exact .bind (keeps_closeValue hv within_nil) fun _ _ => .pure (hr.2 flow rfl)
  | error e => exact .bind (keeps_closeValue hv (hr.1 e rfl)) fun _ _ => .reraise (hr.1 e rfl)

theorem keeps_checkClosable (v : Value) (name : Bytes) (o : Origin) :
    Keeps K (checkClosable v name o) := by
  unfold checkClosable
  refine .bind (keeps_metamethod v _) fun h _ => ?_
  split
  · exact keeps_failAt o _
  · exact .pure trivial

theorem keeps_forFailed {α : Type} [Confined α] (what : String) (v : Value) (o : Origin) :
    Keeps K (forFailed what v o : Script α) :=
  Keeps.bind (keeps_typeText v) fun _ _ => keeps_failAt o _

theorem keeps_forNumber (what : String) (v : Value) (o : Origin) : Keeps K (forNumber what v o) := by
  unfold forNumber
  split
  · exact .pure trivial
  · exact keeps_forFailed what v o

theorem keeps_forLimit (i step : Int64) (limit : Value) (o : Origin) :
    Keeps K (forLimit i step limit o) := by
  have hpure (l : Option Int64) : Keeps K (pure l : Script (Option Int64)) := .pure fun _ _ => trivial
  unfold forLimit
  dsimp only
  split
  · exact keeps_forFailed "limit" limit o
  · exact hpure _
  · split
    · split
      · exact hpure _
      · split <;> exact hpure _
    · split <;> exact hpure _

theorem keeps_countLoop (slot : Nat) {first limit step : Value} (body : List Stat) (o : Origin) :
    Keeps K (countLoop slot first limit step body o) := by
  unfold countLoop
  split
  · rename_i i k
    extract_lets count
    have hcount (u : Unit) : Keeps K (count u) := by
      refine .bind (keeps_forLimit i k limit o) fun l _ => ?_
      cases l with
      | none => exact .pure trivial
      | some l => exact keeps_runJob trivial
    exact .ite (.bind (keeps_failAt o _) fun u _ => hcount u) (hcount ())
  · refine .bind (keeps_forNumber "limit" limit o) fun l _ => ?_
    refine .bind (keeps_forNumber "step" step o) fun k _ => ?_
    refine .bind (keeps_forNumber "initial value" first o) fun x _ => ?_
    extract_lets count
    have hcount (u : Unit) : Keeps K (count u) := .ite (.pure trivial) (keeps_runJob trivial)
    exact .ite (.bind (keeps_failAt o _) fun u _ => hcount u) (hcount ())

theorem within_listGetD (h : within K vs) (hv : within K v) (i : Nat) : within K (vs.getD i v) := by
  rw [List.getD_eq_getElem?_getD]
  cases hget : vs[i]? with
  | none => exact hv
  | some w => exact h w (List.mem_of_getElem? hget)

theorem keeps_iterateLoop (slots : List Nat) (h : within K vs) (body : List Stat) (line : Nat) :
    Keeps K (iterateLoop slots vs body line) := by
  have hget (i : Nat) : within K (vs.getD i .nil) := within_listGetD h within_nil i
  have hjob : within K (Job.iterate slots (vs.headD .nil) (vs.getD 1 .nil) (vs.getD 2 .nil) body line) :=
    ⟨within_headD h within_nil, hget 1, hget 2⟩
  unfold iterateLoop
  dsimp only
  split
  · exact .bind (keeps_place line) fun o _ => .bind (keeps_checkClosable _ _ o) fun _ _ =>
      keeps_guarded (hget 3) hjob
  · exact keeps_runJob hjob

theorem keeps_tailCall {f : Value} {args : List Value} (hf : within K f) (hargs : within K args)
    (site : Site) : Keeps K (tailCall f args site) := by
  unfold tailCall
  split
  · exact .pure ⟨hf, hargs⟩
  · exact .bind (keeps_call hf hargs site) fun vs hvs => .pure hvs

theorem keeps_exec (x : Stat) : Keeps K (exec x) := by
  have hnext : Keeps K (pure .next : Script Flow) := .pure trivial
  unfold exec
  -- one case for each kind of statement, in the order of its constructors
  split
  · exact .bind (keeps_evalOpen _) fun _ _ => hnext
  · exact .bind (keeps_evalList _) fun vs hvs => .bind (keeps_declareSlots _ hvs) fun _ _ => hnext
  · exact .bind (keeps_evalList _) fun vs hvs => .bind (keeps_declareSlots _ hvs) fun _ _ => hnext
  · exact .bind (keeps_target _) fun t ht => .bind (keeps_eval _) fun v hv =>
      .bind (keeps_assign ht hv) fun _ _ => hnext
  · exact .bind (keeps_targets _) fun ts hts => .bind (keeps_evalList _) fun vs hvs =>
      .bind (keeps_assignAll hts hvs) fun _ _ => hnext
  · exact .bind (keeps_declareSlot _ within_nil) fun _ _ => .bind (keeps_makeClosure _) fun f hf =>
      .bind (keeps_writeSlot _ hf) fun _ _ => hnext
  · exact keeps_runBlock _
  · exact keeps_runJob trivial
  · exact keeps_runJob trivial
  · refine .bind (keeps_eval _) fun v _ => .pure ?_
    split <;> trivial
  · exact keeps_chooseArm _ _
  · refine .bind (keeps_eval _) fun i _ => .bind (keeps_eval _) fun l _ => ?_
    dsimp only
    split
    · exact .bind (keeps_eval _) fun k _ => .bind (keeps_place _) fun o _ => keeps_countLoop _ _ o
    · exact .bind (.pure (within_int _)) fun k _ => .bind (keeps_place _) fun o _ => keeps_countLoop _ _ o
  · exact .bind (keeps_evalList _) fun vs hvs => keeps_iterateLoop _ hvs _ _
  · exact .bind (keeps_evalList _) fun vs hvs => .pure hvs
  · exact .bind (keeps_eval _) fun f hf => .bind (keeps_evalList _) fun vs hvs =>
      .bind (keeps_siteOf _ _) fun _ _ => keeps_tailCall hf hvs _
  · refine .bind (keeps_eval _) fun v hv => .bind (keeps_place _) fun o _ => ?_
    refine .bind (keeps_index hv (within_string _) _ o) fun f hf => .bind (keeps_evalList _) fun vs hvs => ?_
    exact .bind (keeps_siteOf _ _) fun _ _ => keeps_tailCall hf (within_cons hv hvs) _
  · exact .bind (keeps_eval _) fun v hv => .pure (within_cons hv (List.forall_mem_nil _))
  · exact .pure trivial
  · exact .pure trivial
  · exact hnext

theorem keeps_execList (xs : List Stat) : Keeps K (execList xs) := by
  induction xs with
  | nil => exact .pure trivial
  | cons x rest ih =>
    unfold execList
    split
    · rename_i h
      cases h
    · refine .bind (keeps_evalList _) fun vs hvs => .bind (keeps_declareSlots _ hvs) fun _ _ => ?_
      refine .bind (keeps_readSlot _) fun v hv => .bind (keeps_place _) fun o _ => ?_
      exact .bind (keeps_checkClosable v _ o) fun _ _ => keeps_guarded hv trivial
    · rename_i h
      cases h
      refine .bind (keeps_exec _) fun flow hflow => ?_
      split
      · exact ih
      · exact .pure hflow

theorem within_afterTurn {flow : Flow} {goOn : Option Job} (hflow : within K flow)
    (h : within K goOn) : within K (afterTurn flow goOn) := by
  unfold afterTurn
  split
  · split
    · exact h _ rfl
    · trivial
  · trivial
  · exact hflow

/-- A turn of a job keeps to what the running function can reach. -/
theorem keeps_runTurn {j : Job} (h : within K j) : Keeps K (runTurn j) := by
  have hgoOn (body : List Stat) {goOn : Option Job} (hgoOn : within K goOn) :
      Keeps K (do return afterTurn (← runBlock body) goOn : Script Outcome) :=
    .bind (keeps_runBlock body) fun flow hflow => .pure (within_afterTurn hflow hgoOn)
  cases j with
  | block body rest =>
    refine .bind (keeps_execList rest) fun flow hflow => ?_
    split
    · split
      · exact .pure trivial
      · exact .pure trivial
    · exact .pure hflow
  | «while» cond body =>
    refine .bind (keeps_eval cond) fun v _ => ?_
    split
    · exact hgoOn body (within_some.mpr trivial)
    · exact .pure trivial
  | «repeat» body => exact hgoOn body (within_some.mpr trivial)
  | count slot i step left body =>
    refine .bind (keeps_declareSlot slot (within_int i)) fun _ _ => hgoOn body ?_
    split
    · exact within_none
    · exact within_some.mpr trivial
  | countFloat slot x limit step body =>
    have hmore (more : Bool) :
        within K (if more then some (Job.countFloat slot (x.add step) limit step body) else none) := by
      cases more with
      | true => exact within_some.mpr trivial
      | false => exact within_none
    exact .bind (keeps_declareSlot slot (within_float x)) fun _ _ => hgoOn body (hmore _)
  | iterate slots f state control body line =>
    obtain ⟨hf, hstate, hcontrol⟩ := h
    refine .bind (keeps_siteOf _ line) fun site _ => ?_
    refine .bind (keeps_call hf (within_cons hstate (within_cons hcontrol (List.forall_mem_nil _))) site)
      fun vs hvs => ?_
    -- the first value of a round is what the iterator gets in the next one
    have hfirst : within K (vs.headD .nil) := within_headD hvs within_nil
    dsimp only
    split
    · exact .pure trivial
    · exact .bind (keeps_declareSlots slots hvs) fun _ _ =>
        hgoOn body (within_some.mpr ⟨hf, hstate, hfirst⟩)

end Script

end LuaPages.Lua
