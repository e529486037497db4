import LuaPages.Lua.Library.Arguments

namespace LuaPages.Lua.Sequence

open Script

/-- Fails unless an argument is a table, or has the metamethods that can stand in for one. -/
def check (args : Arguments) (i : Nat) (events : List String) : Script Value := do
  match args.get i with
  | .table id => return .table id
  | v =>
    let m ← metatable? v
    let hs ← events.mapM fun e => metamethod v e
    if m.isSome && hs.all (!·.isNil) then return v else args.refuseType i "table"

def reads : List String := ["__index"]
def writes : List String := ["__newindex"]
def measures : List String := ["__len"]

def lengthOf (v : Value) : Script Int64 := do
  match ← length v none none with
  | .number n =>
    match n.toInt? with
    | some k => return k
    | none => failCaller "object length is not an integer"
  | v =>
    match v.toInt? with
    | some k => return k
    | none => failCaller "object length is not an integer"

def getAt (v : Value) (i : Int64) : Script Value := index v (.int i) none none

def setAt (v : Value) (i : Int64) (x : Value) : Script Unit := setIndex v (.int i) x none none

/-- Whether `i` is one of `1 … n`, with one more position if `open_`. -/
def inBounds (i n : Int64) : Bool := (i - 1).toUInt64 < n.toUInt64

def textsFrom (v : Value) : Nat → Int64 → List Bytes → Script (List Bytes)
  | 0, _, acc => pure acc
  | n + 1, i, acc => do
    let x ← getAt v i
    match x.joinText? with
    | some s => textsFrom v n (i + 1) (s :: acc)
    | none =>
      failCaller (("invalid value (" : Bytes) ++ x.typeName ++ ") at index " ++ Bytes.ofInt i.toInt ++
        " in table for 'concat'")

def concat (args : Arguments) : Script (List Value) := do
  let v ← check args 1 (reads ++ measures)
  let size ← lengthOf v
  let sep ← args.bytesD 2 .empty
  let i ← args.intD 3 1
  let last ← args.intD 4 size
  if last < i then return [.string .empty]
  let texts ← textsFrom v ((last.toInt - i.toInt).toNat + 1) i []
  return [.string (Bytes.join sep texts.reverse)]

def shiftUp (v : Value) : Nat → Int64 → Script Unit
  | 0, _ => pure ()
  | n + 1, i => do
    setAt v (i + 1) (← getAt v i)
    shiftUp v n (i - 1)

def shiftDown (v : Value) : Nat → Int64 → Script Unit
  | 0, _ => pure ()
  | n + 1, i => do
    setAt v i (← getAt v (i + 1))
    shiftDown v n (i + 1)

def insert (args : Arguments) : Script (List Value) := do
  let v ← check args 1 (reads ++ writes ++ measures)
  let e := (← lengthOf v) + 1
  match args.length with
  | 2 =>
    setAt v e (args.get 2)
    return []
  | 3 =>
    let pos ← args.int 2
    Arguments.require (inBounds pos e) 2 "position out of bounds"
    shiftUp v (e.toInt - pos.toInt).toNat (e - 1)
    setAt v pos (args.get 3)
    return []
  | _ => failCaller "wrong number of arguments to 'insert'"

def remove (args : Arguments) : Script (List Value) := do
  let v ← check args 1 (reads ++ writes ++ measures)
  let size ← lengthOf v
  let pos ← args.intD 2 size
  if 2 ≤ args.length then
    Arguments.require (pos = size || inBounds pos (size + 1)) 2 "position out of bounds"
  let x ← getAt v pos
  let n := (size.toInt - pos.toInt).toNat
  shiftDown v n pos
  setAt v (pos + .ofNat n) .nil
  return [x]

def copy (source target : Value) (step : Int64) : Nat → Int64 → Int64 → Script Unit
  | 0, _, _ => pure ()
  | n + 1, i, j => do
    setAt target j (← getAt source i)
    copy source target step n (i + step) (j + step)

def move (args : Arguments) : Script (List Value) := do
  let first ← args.int 2
  let last ← args.int 3
  let destination ← args.int 4
  let target := if args.isAbsent 5 then 1 else 5
  let source ← check args 1 reads
  let goal ← check args target writes
  if first ≤ last then
    Arguments.require (0 < first || last < Int64.maxValue + first) 3 "too many elements to move"
    let n := last - first + 1
    Arguments.require (destination ≤ Int64.maxValue - n + 1) 4 "destination wrap around"
    let same := target = 1 || source.rawEqual goal
    let count := n.toInt.toNat
    if last < destination || destination ≤ first || !same then copy source goal 1 count first destination
    else copy source goal (-1) count last (destination + n - 1)
  return [goal]

def pack (args : Arguments) : Script (List Value) := do
  let n := args.length
  let t := Table.create n 1
  let filled := { t with array := args.toArray }
  return [← newTable (filled.setText "n" (.ofNat n))]

def resultLimit : Nat := 999900

def valuesFrom (v : Value) : Nat → Int64 → List Value → Script (List Value)
  | 0, _, acc => pure acc.reverse
  | n + 1, i, acc => do
    let x ← getAt v i
    valuesFrom v n (i + 1) (x :: acc)

def unpack (args : Arguments) : Script (List Value) := do
  let i ← args.intD 2 1
  let last ← if args.isAbsent 3 then lengthOf (args.get 1) else args.int 3
  if last < i then return []
  let n := (last.toInt - i.toInt).toNat + 1
  if resultLimit < n then failCaller "too many results to unpack"
  valuesFrom (args.get 1) n i []

section Sorting

variable (v : Value) (order : Option Value)

def before (a b : Value) : Script Bool := do
  match order with
  | none => ordered true a b none
  | some f => return ((← call f [a, b] .library).headD .nil).truthy

def swap (i j : Int64) (x y : Value) : Script Unit := do
  setAt v i y
  setAt v j x

def invalidOrder {α : Type} : Script α := failCaller "invalid order function for sorting"

def scanUp (pivot : Value) (last : Int64) : Nat → Int64 → Script (Int64 × Value)
  | 0, _ => invalidOrder
  | n + 1, i => do
    let i := i + 1
    let x ← getAt v i
    if ← before order x pivot then
      if i = last then invalidOrder else scanUp pivot last n i
    else return (i, x)

def scanDown (pivot : Value) (least : Int64) : Nat → Int64 → Script (Int64 × Value)
  | 0, _ => invalidOrder
  | n + 1, j => do
    let j := j - 1
    let x ← getAt v j
    if ← before order pivot x then
      if j < least then invalidOrder else scanDown pivot least n j
    else return (j, x)

/-- Splits the items between `lo` and `up` around the pivot, which is the item at `up - 1`. -/
def partition (pivot : Value) (lo up : Int64) : Nat → Int64 → Int64 → Script Int64
  | 0, _, _ => invalidOrder
  | n + 1, i, j => do
    let span := (up.toInt - lo.toInt).toNat + 2
    let (i, x) ← scanUp v order pivot (up - 1) span i
    let (j, y) ← scanDown v order pivot i span j
    if j < i then
      swap v (up - 1) i pivot x
      return i
    else
      swap v i j x y
      partition pivot lo up n i j

def orderPair (i j : Int64) : Script Unit := do
  let a ← getAt v i
  let b ← getAt v j
  if ← before order b a then swap v i j a b

/-- Sorts the items from `lo` to `up`: the middle one of three is the pivot, and the smaller part is
sorted before the larger one. -/
def sortBetween : Nat → Int64 → Int64 → Script Unit
  | 0, _, _ => pure ()
  | fuel + 1, lo, up => do
    if lo < up then
      orderPair v order lo up
      if up - lo = 1 then return ()
      let p := lo + (up - lo) / 2
      let x ← getAt v p
      let a ← getAt v lo
      if ← before order x a then swap v p lo x a
      else
        let b ← getAt v up
        if ← before order b x then swap v p up x b
      if up - lo = 2 then return ()
      let pivot ← getAt v p
      let y ← getAt v (up - 1)
      swap v p (up - 1) pivot y
      let span := (up.toInt - lo.toInt).toNat + 2
      let p ← partition v order pivot lo up span lo (up - 1)
      if p - lo < up - p then
        sortBetween fuel lo (p - 1)
        sortBetween fuel (p + 1) up
      else
        sortBetween fuel (p + 1) up
        sortBetween fuel lo (p - 1)

end Sorting

def sort (args : Arguments) : Script (List Value) := do
  let v ← check args 1 (reads ++ writes ++ measures)
  let n ← lengthOf v
  if 1 < n then
    Arguments.require (n < 2147483647) 1 "array too big"
    let order ← if args.isAbsent 2 then pure none else some <$> args.function 2
    sortBetween v order n.toInt.toNat 1 n
  return []

def run (f : TableFunction) (args : Arguments) : Script (List Value) :=
  match f with
  | .concat => concat args
  | .insert => insert args
  | .move => move args
  | .pack => pack args
  | .remove => remove args
  | .sort => sort args
  | .unpack => unpack args

end LuaPages.Lua.Sequence
