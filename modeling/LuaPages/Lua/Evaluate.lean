import LuaPages.Lua.Operation

namespace LuaPages.Lua

namespace Script

def isCaptured (slot : Nat) : Script Bool :=
  read fun s => s.active.code.info.captured.getD slot false

def readSlot (slot : Nat) : Script Value := read fun s =>
  let a := s.active
  if a.code.info.captured.getD slot false then s.cells.getD (a.cells.getD slot 0) .nil
  else a.slots.getD slot .nil

@[inline] def changeActive (f : Activation → Activation) : Script Unit :=
  change fun s => { s with active := f s.active }

def setCell (id : Nat) (v : Value) : Script Unit :=
  change fun s => { s with cells := s.cells.setIfInBounds id v }

def writeSlot (slot : Nat) (v : Value) : Script Unit := do
  if ← isCaptured slot then
    setCell (← read fun s => s.active.cells.getD slot 0) v
  else changeActive fun a => { a with slots := a.slots.setIfInBounds slot v }

/-- Starts a variable; one that inner functions refer to gets a new cell. -/
def declareSlot (slot : Nat) (v : Value) : Script Unit := do
  if ← isCaptured slot then
    let id ← newCell v
    changeActive fun a => { a with cells := a.cells.setIfInBounds slot id }
  else changeActive fun a => { a with slots := a.slots.setIfInBounds slot v }

def declareSlots : List Nat → List Value → Script Unit
  | [], _ => pure ()
  | slot :: slots, vs => do
    declareSlot slot (vs.headD .nil)
    declareSlots slots vs.tail

def readVariable : Variable → Script Value
  | .local slot _ => readSlot slot
  | .upvalue i _ => read fun s => s.cells.getD (s.active.upvalues.getD i 0) .nil

def writeVariable : Variable → Value → Script Unit
  | .local slot _, v => writeSlot slot v
  | .upvalue i _, v => do setCell (← read fun s => s.active.upvalues.getD i 0) v

def place (line : Nat) : Script Origin := read fun s => some ⟨s.active.code.info.chunk, line⟩

def makeClosure (f : Function) : Script Value := do
  let cells ← read fun s => f.info.upvalues.map fun u =>
    match u.2 with
    | .enclosingLocal slot => s.active.cells.getD slot 0
    | .enclosingUpvalue i => s.active.upvalues.getD i 0
  newClosure ⟨f, cells⟩

/-- An operand: its value, or a local variable that is read when the operation is carried out. -/
inductive Operand where
  | value (v : Value)
  | slot (i : Nat)

def Operand.get : Operand → Script Value
  | .value v => pure v
  | .slot i => readSlot i

def late (e : Expr) (x : Script Value) : Script Operand :=
  match e with
  | .var (.local slot _) => pure (.slot slot)
  | _ => do return .value (← x)

def siteOf (name : Described) (line : Nat) : Script Site := do
  return ⟨← place line, name, false, true⟩

def callValues (f : Script Value) (name : Described) (args : Script (List Value)) (line : Nat) :
    Script (List Value) := do
  let fv ← f
  let vs ← args
  call fv vs (← siteOf name line)

def callMethod (object : Script Value) (d : Described) (name : Bytes) (args : Script (List Value))
    (nameLine line : Nat) : Script (List Value) := do
  let v ← object
  let fv ← index v (.string name) d (← place nameLine)
  let vs ← args
  call fv (v :: vs) (← siteOf (some ("method", name)) line)

def itemCount : List Field → Nat
  | [] => 0
  | [.item e] => if e.isOpen then 0 else 1
  | .item _ :: r => itemCount r + 1
  | _ :: r => itemCount r

def pairCount (fields : List Field) : Nat :=
  fields.countP fun f => match f with | .pair .. => true | _ => false

def itemBatch : Nat := 50

/-- Stores items at consecutive places up to `last`; the latest item comes first. -/
def storeItems (t last : Nat) : List Value → Script Unit
  | [] => pure ()
  | v :: vs => do
    changeTable t (·.setInt last v)
    storeItems t (last - 1) vs

def storeBatch (t last : Nat) (waiting : List Value) : Script (List Value) := do
  if waiting.length < itemBatch then return waiting
  storeItems t last waiting
  return []

mutual

def eval : Expr → Script Value
  | .const c => pure (.ofConstant c)
  | .vararg => read fun s => s.active.varargs.headD .nil
  | .var v => readVariable v
  | .index e k line => do
    let v ← late e (eval e)
    let key ← late k (eval k)
    let key ← key.get
    index (← v.get) key e.describe (← place line)
  | .call f args line => do
    return (← callValues (eval f) f.describe (evalList args) line).headD .nil
  | .method e n args nameLine line => do
    return (← callMethod (eval e) e.describe n (evalList args) nameLine line).headD .nil
  | .function f => makeClosure f
  | .not e => do return .bool !(← eval e).truthy
  | .length e line => do
    let v ← eval e
    length v e.describe (← place line)
  | .unary op e line => do
    let v ← eval e
    arith op v v e.describe e.describe (← place line)
  | .arith op a b line => do
    let x ← late a (eval a)
    let y ← late b (eval b)
    let x ← x.get
    arith op x (← y.get) a.describe b.describe (← place line)
  | .compare op a b line => do
    let x ← late a (eval a)
    let y ← late b (eval b)
    let x ← x.get
    return .bool (← compare op x (← y.get) (← place line))
  | .concat parts line => do concat (← evalParts parts) (← place line)
  | .and a b => do
    let v ← eval a
    if v.truthy then eval b else return v
  | .or a b => do
    let v ← eval a
    if v.truthy then return v else eval b
  | .paren e => eval e
  | .table fields => do
    let t ← newTable (.create (itemCount fields) (pairCount fields))
    match t with
    | .table id =>
      evalFields id 0 [] fields
      return t
    | _ => return t

def evalOpen : Expr → Script (List Value)
  | .vararg => read fun s => s.active.varargs
  | .call f args line => callValues (eval f) f.describe (evalList args) line
  | .method e n args nameLine line =>
    callMethod (eval e) e.describe n (evalList args) nameLine line
  | _ => pure []

def evalList : List Expr → Script (List Value)
  | [] => pure []
  | [e] => if e.isOpen then evalOpen e else do return [← eval e]
  | e :: es => do
    let v ← eval e
    return v :: (← evalList es)

def evalParts : List Expr → Script (List (Value × Described))
  | [] => pure []
  | e :: es => do
    let v ← eval e
    return (v, e.describe) :: (← evalParts es)

/-- Fills a table. `count` items have been read, of which `waiting` are still to be stored. -/
def evalFields (t : Nat) : Nat → List Value → List Field → Script Unit
  | count, waiting, [] => storeItems t count waiting
  | count, waiting, [.item e] => do
    let waiting ← storeBatch t count waiting
    let vs ← if e.isOpen then evalOpen e else (do return [← eval e])
    changeTable t (·.reserve (count + vs.length))
    storeItems t (count + vs.length) (vs.reverse ++ waiting)
  | count, waiting, .item e :: r => do
    let waiting ← storeBatch t count waiting
    evalFields t (count + 1) ((← eval e) :: waiting) r
  | count, waiting, .pair k v line :: r => do
    let waiting ← storeBatch t count waiting
    let key ← eval k
    let value ← eval v
    rawSet t key value (← place line)
    evalFields t count waiting r

end

inductive Target where
  | variable (v : Variable)
  | entry (object key : Operand) (d : Described) (o : Origin)
  | nowhere

def target : Expr → Script Target
  | .var v => pure (.variable v)
  | .index e k line => do
    let v ← late e (eval e)
    let key ← late k (eval k)
    return .entry v key e.describe (← place line)
  | _ => pure .nowhere

def Target.settle : Target → Script Target
  | .entry v k d o => do
    let v ← v.get
    return .entry (.value v) (.value (← k.get)) d o
  | t => pure t

def Target.assign (value : Value) : Target → Script Unit
  | .variable v => writeVariable v value
  | .entry v k d o => do
    let v ← v.get
    setIndex v (← k.get) value d o
  | .nowhere => pure ()

def targets : List Expr → Script (List Target)
  | [] => pure []
  | e :: es => do
    let t ← (← target e).settle
    return t :: (← targets es)

def assignAll : List Target → List Value → Script Unit
  | [], _ => pure ()
  | t :: ts, vs => do
    assignAll ts vs.tail
    t.assign (vs.headD .nil)

def runJob (j : Job) : Script Flow := run (.job j)

def runBlock (body : List Stat) : Script Flow := runJob (.block body body)

def chooseArm (otherwise : List Stat) : List (Expr × List Stat) → Script Flow
  | [] => runBlock otherwise
  | (cond, body) :: arms => do
    if (← eval cond).truthy then runBlock body else chooseArm otherwise arms

def closeMethod (v : Value) : Script Value := metamethod v "__close"

def closeValue (v e : Value) : Script Unit := do
  if v.truthy then
    let h ← closeMethod v
    let _ ← call h [v, e] ⟨none, some ("metamethod", "close"), true, true⟩

/-- Runs a job and closes `v` however it ends. -/
def guarded (v : Value) (j : Job) : Script Flow := do
  match ← ask (.job j) .closing with
  | .ok flow =>
    closeValue v .nil
    return flow
  | .error e =>
    closeValue v e
    reraise e

/-- Fails unless a value can be closed; `nil` and `false` need no closing. -/
def checkClosable (v : Value) (name : Bytes) (o : Origin) : Script Unit := do
  if v.truthy && (← closeMethod v).isNil then
    failAt o (("variable '" : Bytes) ++ name ++ "' got a non-closable value")

def forFailed {α : Type} (what : String) (v : Value) (o : Origin) : Script α := do
  failAt o (("bad 'for' " : Bytes) ++ what ++ " (number expected, got " ++ (← typeText v) ++ ")")

def forNumber (what : String) (v : Value) (o : Origin) : Script Binary64 := do
  match v.toNumber? with
  | some n => return n.toBinary64
  | none => forFailed what v o

/-- The last integer that a loop from `i` may reach; `none` if it makes no turn. -/
def forLimit (i step : Int64) (limit : Value) (o : Origin) : Script (Option Int64) := do
  let within (l : Int64) : Option Int64 :=
    if (if 0 < step then i ≤ l else l ≤ i) then some l else none
  match limit.toNumber? with
  | none => forFailed "limit" limit o
  | some (.int l) => return within l
  | some (.float x) =>
    let whole := if step < 0 then x.ceilInt? else x.floorInt?
    match whole with
    | some l =>
      if l < Int64.minValue.toInt then
        return if 0 < step then none else within .minValue
      else if Int64.maxValue.toInt < l then
        return if step < 0 then none else within .maxValue
      else return within (.ofInt l)
    | none =>
      if Binary64.zero.lt x then return if step < 0 then none else within .maxValue
      else return if 0 < step then none else within .minValue

def countLoop (slot : Nat) (first limit step : Value) (body : List Stat) (o : Origin) :
    Script Flow := do
  match first, step with
  | .number (.int i), .number (.int k) =>
    if k = 0 then failAt o "'for' step is zero"
    match ← forLimit i k limit o with
    | none => return .next
    | some l =>
      let turns := ((l.toInt - i.toInt).natAbs) / k.toInt.natAbs
      runJob (.count slot i k turns body)
  | _, _ =>
    let l ← forNumber "limit" limit o
    let k ← forNumber "step" step o
    let x ← forNumber "initial value" first o
    if k.isZero then failAt o "'for' step is zero"
    if if Binary64.zero.lt k then l.lt x else x.lt l then return .next
    runJob (.countFloat slot x l k body)

def iterateLoop (slots : List Nat) (values : List Value) (body : List Stat) (line : Nat) :
    Script Flow := do
  let f := values.headD .nil
  let state := values.getD 1 .nil
  let closing := values.getD 3 .nil
  let job := Job.iterate slots f state (values.getD 2 .nil) body line
  if closing.truthy then
    checkClosable closing "(for state)" (← place line)
    guarded closing job
  else runJob job

/-- A call in place of the running function; only a closure takes its place. -/
def tailCall (f : Value) (args : List Value) (site : Site) : Script Flow := do
  match f with
  | .closure _ => return .tail f args site
  | _ => return .return (← call f args site)

def exec : Stat → Script Flow
  | .call e => do
    let _ ← evalOpen e
    return .next
  | .declare slots values => do
    declareSlots slots (← evalList values)
    return .next
  | .declareClose slots values _ _ _ => do
    declareSlots slots (← evalList values)
    return .next
  | .assign [t] [e] _ => do
    let t ← target t
    t.assign (← eval e)
    return .next
  | .assign ts es _ => do
    let ts ← targets ts
    assignAll ts (← evalList es)
    return .next
  | .localFunction slot f => do
    declareSlot slot .nil
    writeSlot slot (← makeClosure f)
    return .next
  | .block body => runBlock body
  | .while cond body => runJob (.while cond body)
  | .repeat body => runJob (.repeat body)
  | .until cond => do return if (← eval cond).truthy then .break else .next
  | .branch arms otherwise => chooseArm otherwise arms
  | .count slot first limit step body line => do
    let i ← eval first
    let l ← eval limit
    let k ← match step with
      | some e => eval e
      | none => pure (.int 1)
    countLoop slot i l k body (← place line)
  | .iterate slots values body line => do iterateLoop slots (← evalList values) body line
  | .return values => do return .return (← evalList values)
  | .tailCall (.call f args line) => do
    let fv ← eval f
    let vs ← evalList args
    tailCall fv vs (← siteOf f.describe line)
  | .tailCall (.method e n args nameLine line) => do
    let v ← eval e
    let fv ← index v (.string n) e.describe (← place nameLine)
    let vs ← evalList args
    tailCall fv (v :: vs) (← siteOf (some ("method", n)) line)
  | .tailCall e => do return .return [← eval e]
  | .break => pure .break
  | .goto l => pure (.goto l)
  | .label _ => pure .next

def execList : List Stat → Script Flow
  | [] => pure .next
  | .declareClose slots values slot name line :: rest => do
    declareSlots slots (← evalList values)
    let v ← readSlot slot
    checkClosable v name (← place line)
    guarded v (.block rest rest)
  | s :: rest => do
    match ← exec s with
    | .next => execList rest
    | flow => return flow

def afterLabel? (name : Bytes) : List Stat → Option (List Stat)
  | [] => none
  | .label n :: rest => if n == name then some rest else afterLabel? name rest
  | _ :: rest => afterLabel? name rest

def afterTurn (flow : Flow) (goOn : Option Job) : Outcome :=
  match flow with
  | .next => match goOn with
    | some j => .again (.job j)
    | none => .finish .next
  | .break => .finish .next
  | flow => .finish flow

def runTurn : Job → Script Outcome
  | .block body rest => do
    match ← execList rest with
    | .goto l =>
      match afterLabel? l body with
      | some rest => return .again (.job (.block body rest))
      | none => return .finish (.goto l)
    | flow => return .finish flow
  | .while cond body => do
    if (← eval cond).truthy then
      return afterTurn (← runBlock body) (some (.while cond body))
    else return .finish .next
  | .repeat body => do return afterTurn (← runBlock body) (some (.repeat body))
  | .count slot i step left body => do
    declareSlot slot (.int i)
    let more := if left = 0 then none else some (Job.count slot (i + step) step (left - 1) body)
    return afterTurn (← runBlock body) more
  | .countFloat slot x limit step body => do
    declareSlot slot (.float x)
    let y := x.add step
    let more := if Binary64.zero.lt step then y.le limit else limit.le y
    return afterTurn (← runBlock body) (if more then some (.countFloat slot y limit step body) else none)
  | .iterate slots f state control body line => do
    let name := ("for iterator", ("for iterator" : Bytes))
    let vs ← call f [state, control] (← siteOf (some name) line)
    let first := vs.headD .nil
    if first.isNil then return .finish .next
    declareSlots slots vs
    return afterTurn (← runBlock body) (some (.iterate slots f state first body line))

end Script

end LuaPages.Lua
