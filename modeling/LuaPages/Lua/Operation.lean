import LuaPages.Lua.Program
/-!
Operations on values: access to tables, arithmetic, comparison, concatenation and conversion to
text, with the metamethods that stand in for them. `at` is the place that an error is charged to.
-/
namespace LuaPages.Lua

def Origin.text : Origin → Bytes
  | some p => p.chunk ++ ":" ++ Bytes.ofNat p.line ++ ": "
  | none => .empty

abbrev Described := Option (String × Bytes)

def Described.text : Described → Bytes
  | some (kind, n) => (" (" : Bytes) ++ kind ++ " '" ++ n.beforeZero ++ "')"
  | none => .empty

namespace Script

variable {α : Type}

def failAt (o : Origin) (message : Bytes) : Script α := raise (.string (o.text ++ message))

/-- What `f` says of a table. Only the answer is kept, so that the table can be changed in place. -/
@[inline] def ofTable (id : Nat) (f : Table → α) : Script α := read fun s => f (s.tables.getD id default)

@[inline] def changeTable (id : Nat) (f : Table → Table) : Script Unit :=
  change fun s => { s with tables := s.tables.modify id f }

def newTable (t : Table) : Script Value :=
  update fun s => (.table s.tables.size, { s with tables := s.tables.push t })

def newCell (v : Value) : Script Nat :=
  update fun s => (s.cells.size, { s with cells := s.cells.push v })

def newClosure (c : Closure) : Script Value :=
  update fun s => (.closure s.closures.size, { s with closures := s.closures.push c })

def newFailure (text : Bytes) : Script Value :=
  update fun s => (.failure s.failures.size, { s with failures := s.failures.push text })

def metatable? : Value → Script (Option Nat)
  | .table id => ofTable id (·.metatable)
  | .string _ => read fun s => some s.stringMeta
  | _ => pure none

def metamethod (v : Value) (event : String) : Script Value := do
  match ← metatable? v with
  | some m => ofTable m (·.getText event)
  | none => return .nil

def typeText (v : Value) : Script Bytes := do
  match v with
  | .table _ =>
    match ← metamethod v "__name" with
    | .string s => return s
    | _ => return v.typeName
  | _ => return v.typeName

def typeError (o : Origin) (action : String) (v : Value) (d : Described) : Script α := do
  failAt o (("attempt to " : Bytes) ++ action ++ " a " ++ (← typeText v) ++ " value" ++ d.text)

def call (f : Value) (args : List Value) (site : Site) : Script (List Value) :=
  return (← run (.call f args site)).values

def callMeta (f : Value) (args : List Value) (o : Origin) (event : String) : Script Value := do
  let site : Site := ⟨o, o.map fun _ => ("metamethod", event), true, o.isSome⟩
  return (← call f args site).headD .nil

def chainLimit : Nat := 2000

def indexFrom (o : Origin) (key : Value) : Nat → Value → Described → Script Value
  | 0, _, _ => failAt o "'__index' chain too long; possibly a loop"
  | fuel + 1, v, d => do
    let through (h : Value) : Script Value :=
      if h.isFunction then callMeta h [v, key] o "index" else indexFrom o key fuel h none
    match v with
    | .table id =>
      let (found, m) ← ofTable id fun t => (t.get key, t.metatable)
      match found.isNil, m with
      | true, some m =>
        let h ← ofTable m (·.getText "__index")
        if h.isNil then return .nil else through h
      | _, _ => return found
    | _ =>
      let h ← metamethod v "__index"
      if h.isNil then typeError o "index" v d else through h

/-- The value at a key; `d` names the indexed value. -/
def index (v key : Value) (d : Described) (o : Origin) : Script Value :=
  indexFrom o key chainLimit v d

def rawSet (id : Nat) (key value : Value) (o : Origin) : Script Unit := do
  match key with
  | .nil => failAt o "table index is nil"
  | .number (.float x) =>
    if x.isNaN then failAt o "table index is NaN" else changeTable id (·.set key value)
  | _ => changeTable id (·.set key value)

def setIndexFrom (o : Origin) (key value : Value) : Nat → Value → Described → Script Unit
  | 0, _, _ => failAt o "'__newindex' chain too long; possibly a loop"
  | fuel + 1, v, d => do
    let through (h : Value) : Script Unit := do
      if h.isFunction then
        let _ ← callMeta h [v, key, value] o "newindex"
      else setIndexFrom o key value fuel h none
    match v with
    | .table id =>
      match ← ofTable id (·.metatable) with
      | some m =>
        if ← ofTable id fun t => (t.get key).isNil then
          let h ← ofTable m (·.getText "__newindex")
          if h.isNil then rawSet id key value o else through h
        else rawSet id key value o
      | none => rawSet id key value o
    | _ =>
      let h ← metamethod v "__newindex"
      if h.isNil then typeError o "index" v d else through h

def setIndex (v key value : Value) (d : Described) (o : Origin) : Script Unit :=
  setIndexFrom o key value chainLimit v d

end Script

namespace ArithOp

def event : ArithOp → String
  | add => "add" | sub => "sub" | mul => "mul" | mod => "mod" | pow => "pow" | div => "div"
  | floorDiv => "idiv" | band => "band" | bor => "bor" | bxor => "bxor" | shiftLeft => "shl"
  | shiftRight => "shr" | negate => "unm" | complement => "bnot"

def isBitwise : ArithOp → Bool
  | band | bor | bxor | shiftLeft | shiftRight | complement => true
  | _ => false

/-- A shift to the left, to the right by a negative amount; bits that leave the word are lost. -/
def shift (n by_ : Int64) : Int64 :=
  let k := by_.toInt
  if 64 ≤ k ∨ k ≤ -64 then 0
  else if 0 ≤ k then (n.toUInt64 <<< UInt64.ofNat k.toNat).toInt64
  else (n.toUInt64 >>> UInt64.ofNat (-k).toNat).toInt64

inductive Failure where
  | divideByZero
  | moduloZero
  | noInteger

def onInts (op : ArithOp) (a b : Int64) : Except Failure Number :=
  let float (f : Binary64 → Binary64 → Binary64) : Except Failure Number :=
    .ok (.float (f (.ofInt a.toInt) (.ofInt b.toInt)))
  match op with
  | add => .ok (.int (a + b))
  | sub => .ok (.int (a - b))
  | mul => .ok (.int (a * b))
  | mod => if b = 0 then .error .moduloZero else .ok (.int (.ofInt (Int.fmod a.toInt b.toInt)))
  | pow => float Binary64.pow
  | div => float Binary64.div
  | floorDiv => if b = 0 then .error .divideByZero else .ok (.int (.ofInt (Int.fdiv a.toInt b.toInt)))
  | band => .ok (.int (a &&& b))
  | bor => .ok (.int (a ||| b))
  | bxor => .ok (.int (a ^^^ b))
  | shiftLeft => .ok (.int (shift a b))
  | shiftRight => .ok (.int (shift a (if b = Int64.minValue then Int64.maxValue else -b)))
  | negate => .ok (.int (-a))
  | complement => .ok (.int (~~~a))

def onFloats (op : ArithOp) (x y : Binary64) : Binary64 :=
  match op with
  | add => x.add y
  | sub => x.sub y
  | mul => x.mul y
  | mod => x.flooredRemainder y
  | pow => x.pow y
  | div => x.div y
  | floorDiv => (x.div y).floor
  | negate => x.neg
  | _ => x

/-- Two integers give an integer, except in division and powers; bitwise operations need integers. -/
def onNumbers (op : ArithOp) (a b : Number) : Except Failure Number :=
  if op.isBitwise then
    match a.toInt?, b.toInt? with
    | some m, some n => onInts op m n
    | _, _ => .error .noInteger
  else
    match a, b with
    | .int m, .int n => onInts op m n
    | a, b => .ok (.float (onFloats op a.toBinary64 b.toBinary64))

end ArithOp

def Number.lt : Number → Number → Bool
  | .int m, .int n => m < n
  | .float x, .float y => x.lt y
  | .int m, .float y => Binary64.compareInt m.toInt y == some .lt
  | .float x, .int n => Binary64.compareInt n.toInt x == some .gt

def Number.le : Number → Number → Bool
  | .int m, .int n => m ≤ n
  | .float x, .float y => x.le y
  | .int m, .float y =>
    match Binary64.compareInt m.toInt y with
    | some .lt | some .eq => true
    | _ => false
  | .float x, .int n =>
    match Binary64.compareInt n.toInt x with
    | some .gt | some .eq => true
    | _ => false

namespace Script

variable {α : Type}

def arithFailed (f : ArithOp.Failure) (o : Origin) : Script α :=
  failAt o (match f with
    | .divideByZero => "attempt to perform 'n//0'"
    | .moduloZero => "attempt to perform 'n%0'"
    | .noInteger => "number has no integer representation")

def binaryMeta (a b : Value) (event : String) : Script Value := do
  let h ← metamethod a event
  if h.isNil then metamethod b event else return h

def arithRefused (op : ArithOp) (a b : Value) (da db : Described) (o : Origin) : Script α := do
  let isNumber : Value → Bool := fun v => match v with | .number _ => true | _ => false
  let blame (action : String) : Script α :=
    if isNumber a then typeError o action b db else typeError o action a da
  if op.isBitwise then
    match a, b with
    | .number m, .number _ =>
      let d := if m.toInt?.isSome then db else da
      failAt o (("number" : Bytes) ++ d.text ++ " has no integer representation")
    | _, _ => blame "perform bitwise operation on"
  else blame "perform arithmetic on"

def arith (op : ArithOp) (a b : Value) (da db : Described) (o : Origin) : Script Value := do
  let other : Script Value := do
    let h ← binaryMeta a b ("__" ++ op.event)
    if h.isNil then arithRefused op a b da db o else callMeta h [a, b] o op.event
  match a, b with
  | .number m, .number n =>
    match op.onNumbers m n with
    | .ok r => return .number r
    | .error .noInteger => other
    | .error f => arithFailed f o
  | _, _ => other

def isEqual (a b : Value) (o : Origin) : Script Bool := do
  match a, b with
  | .table i, .table j =>
    if i = j then return true
    let h ← binaryMeta a b "__eq"
    if h.isNil then return false else return (← callMeta h [a, b] o "eq").truthy
  | _, _ => return a.rawEqual b

def ordered (strict : Bool) (a b : Value) (o : Origin) : Script Bool := do
  match a, b with
  | .number m, .number n => return if strict then m.lt n else m.le n
  | .string s, .string t => return if strict then Bytes.lt s t else !Bytes.lt t s
  | _, _ =>
    let event := if strict then "lt" else "le"
    let h ← binaryMeta a b ("__" ++ event)
    if h.isNil then
      let s ← typeText a
      let t ← typeText b
      if s == t then failAt o (("attempt to compare two " : Bytes) ++ s ++ " values")
      else failAt o (("attempt to compare " : Bytes) ++ s ++ " with " ++ t)
    else return (← callMeta h [a, b] o event).truthy

def compare (op : CompareOp) (a b : Value) (o : Origin) : Script Bool := do
  match op with
  | .eq => isEqual a b o
  | .ne => return !(← isEqual a b o)
  | .lt => ordered true a b o
  | .le => ordered false a b o
  | .gt => ordered true b a o
  | .ge => ordered false b a o

end Script

def Value.joinText? : Value → Option Bytes
  | .string s => some s
  | .number n => some n.toText
  | _ => none

namespace Script

variable {α : Type}

def concatPair (a b : Value) (da db : Described) (o : Origin) : Script Value := do
  match a.joinText?, b.joinText? with
  | some s, some t => return .string (s ++ t)
  | sa, _ =>
    let h ← binaryMeta a b "__concat"
    if h.isNil then
      if sa.isSome then typeError o "concatenate" b db else typeError o "concatenate" a da
    else callMeta h [a, b] o "concat"

/-- Texts next to one another are joined at once. `acc` is what the operands after have given, and
`texts` are texts to go before it. -/
def concatFrom (o : Origin) : List (Value × Described) → Value × Described → List Bytes → Script Value
  | [], (acc, _), texts => joined acc texts
  | (v, dv) :: rest, (acc, d), texts =>
    match v.joinText?, acc.joinText? with
    | some s, some _ => concatFrom o rest (acc, d) (s :: texts)
    | _, _ => do
      let right ← joined acc texts
      let value ← concatPair v right dv (if texts.isEmpty then d else none) o
      concatFrom o rest (value, none) []
where
  joined (acc : Value) (texts : List Bytes) : Script Value :=
    match texts, acc.joinText? with
    | [], _ => pure acc
    | _, some t => pure (.string ((texts.foldl (· ++ ·) .empty) ++ t))
    | _, none => pure acc

def concat (parts : List (Value × Described)) (o : Origin) : Script Value :=
  match parts.reverse with
  | [] => pure (.string .empty)
  | last :: rest => concatFrom o rest last []

def length (v : Value) (d : Described) (o : Origin) : Script Value := do
  match v with
  | .string s => return .ofNat s.size
  | .table id =>
    let h ← metamethod v "__len"
    if h.isNil then ofTable id (.ofNat ·.length) else callMeta h [v] o "len"
  | _ =>
    let h ← metamethod v "__len"
    if h.isNil then typeError o "get length of" v d else callMeta h [v] o "len"

def caller : Script Origin := read fun s => s.active.trace.headD none

def failCaller (message : Bytes) : Script α := do failAt (← caller) message

def address (kind : Bytes) (id : Nat) : Bytes :=
  kind ++ ": 0x" ++ Number.padLeft 14 (Number.hexDigits (0x55a4c0de2a0 + 32 * id))

def display (v : Value) : Script Bytes := do
  let h ← metamethod v "__tostring"
  if h.isNil then
    match v with
    | .nil => return "nil"
    | .bool b => return (if b then "true" else "false" : String)
    | .number n => return n.toText
    | .string s => return s
    | .table id => return address (← typeText v) (3 * id)
    | .closure id => return address "function" (3 * id + 1)
    | .builtin f => return address "function" (hash (reprStr f)).toNat
    | .thread id => return address "thread" (3 * id + 2)
    | .failure id => read fun s => s.failures.getD id .empty
  else
    match ← callMeta h [v] none "tostring" with
    | .string s => return s
    | .number n => return n.toText
    | _ => failCaller "'__tostring' must return a string"

end Script

end LuaPages.Lua
