import LuaPages.Lua.Library.Arguments

namespace LuaPages.Lua.Arithmetic

open Script

def pi : Binary64 := ⟨0x400921FB54442D18⟩

def ofReal (x : Binary64) : List Value := [.float x]

/-- The integer nearest to a float in a direction, or the float if it is not within 64 bits. -/
def wholeOr (whole : Binary64 → Option Int) (x : Binary64) : Value :=
  match whole x with
  | some i =>
    if Int64.minValue.toInt ≤ i ∧ i ≤ Int64.maxValue.toInt then .ofInt i
    else .float (.ofInt i)
  | none => .float x

def rounded (args : Arguments) (whole : Binary64 → Option Int) : Script (List Value) := do
  match args.get 1 with
  | .number (.int n) => return [.int n]
  | _ => return [wholeOr whole (← args.real 1)]

def unary (args : Arguments) (f : Float → Float) : Script (List Value) := do
  return ofReal (Binary64.lift f (← args.real 1))

def abs (args : Arguments) : Script (List Value) := do
  match args.get 1 with
  | .number (.int n) => return [.int (if n < 0 then -n else n)]
  | _ => return ofReal (← args.real 1).abs

def atan (args : Arguments) : Script (List Value) := do
  let y ← args.real 1
  let x ← if args.isAbsent 2 then pure (.ofInt 1) else args.real 2
  return ofReal (Binary64.lift₂ Float.atan2 y x)

def fmod (args : Arguments) : Script (List Value) := do
  match args.get 1, args.get 2 with
  | .number (.int m), .number (.int n) =>
    Arguments.require (n ≠ 0) 2 "zero"
    return [.ofInt (Int.tmod m.toInt n.toInt)]
  | _, _ =>
    let y ← args.real 2
    return ofReal ((← args.real 1).truncatedRemainder y)

def log (args : Arguments) : Script (List Value) := do
  let x ← args.real 1
  if args.isAbsent 2 then return ofReal (Binary64.lift Float.log x)
  else
    let base ← args.real 2
    if base.eq (.ofInt 2) then return ofReal (Binary64.lift Float.log2 x)
    else if base.eq (.ofInt 10) then return ofReal (Binary64.lift Float.log10 x)
    else return ofReal ((Binary64.lift Float.log x).div (Binary64.lift Float.log base))

/-- The value that no later one is better than; the first of equal ones. -/
def best (better : Value → Value → Script Bool) : List Value → Value → Script Value
  | [], m => pure m
  | v :: vs, m => do
    if ← better v m then best better vs v else best better vs m

def extreme (args : Arguments) (better : Value → Value → Script Bool) : Script (List Value) := do
  let first ← args.any 1
  return [← best better (args.drop 1) first]

def modf (args : Arguments) : Script (List Value) := do
  match args.get 1 with
  | .number (.int n) => return [.int n, .float .zero]
  | _ =>
    let x ← args.real 1
    let whole := if x.isNegative then x.ceil else x.floor
    return [.float whole, .float (if x.eq whole then .zero else x.sub whole)]

def unitFloat (x : UInt64) : Binary64 := .ofDyadic false (x >>> 11).toNat (-53)

def random (args : Arguments) : Script (List Value) := do
  let x ← update fun s =>
    let (x, r) := s.random.next
    (x, { s with random := r })
  let between (low up : Int64) : Script (List Value) := do
    Arguments.require (low ≤ up) 1 "interval is empty"
    let n ← update fun s =>
      let (n, r) := Random.upTo (up - low).toUInt64 10000 x s.random
      (n, { s with random := r })
    return [.int (low + n.toInt64)]
  match args.length with
  | 0 => return ofReal (unitFloat x)
  | 1 =>
    let up ← args.int 1
    if up = 0 then return [.int x.toInt64] else between 1 up
  | 2 =>
    let low ← args.int 1
    between low (← args.int 2)
  | _ => failCaller "wrong number of arguments"

def randomseed (args : Arguments) : Script (List Value) := do
  let (x, y) ← if args.isEmpty then
      update fun s =>
        let (x, r) := s.random.next
        let (y, r) := r.next
        ((x.toInt64, y.toInt64), { s with random := r })
    else do
      let n ← args.number 1
      let x := match n.toInt? with
        | some i => i
        | none => n.toBinary64.bits.toInt64
      pure (x, ← args.intD 2 0)
  change fun s => { s with random := .ofSeeds x.toUInt64 y.toUInt64 }
  return [.int x, .int y]

def tointeger (args : Arguments) : Script (List Value) := do
  match args.get 1 with
  | .number n => return [match n.toInt? with | some i => .int i | none => .nil]
  | .string s =>
    return [match (Numeral.ofBytes? s).bind Number.toInt? with | some i => .int i | none => .nil]
  | _ =>
    let _ ← args.any 1
    return [.nil]

def type (args : Arguments) : Script (List Value) := do
  match args.get 1 with
  | .number (.int _) => return [.text "integer"]
  | .number (.float _) => return [.text "float"]
  | _ =>
    let _ ← args.any 1
    return [.nil]

def run (f : MathFunction) (args : Arguments) : Script (List Value) :=
  match f with
  | .abs => abs args
  | .acos => unary args Float.acos
  | .asin => unary args Float.asin
  | .atan => atan args
  | .ceil => rounded args Binary64.ceilInt?
  | .cos => unary args Float.cos
  | .deg => do return ofReal ((← args.real 1).mul ((Binary64.ofInt 180).div pi))
  | .exp => unary args Float.exp
  | .floor => rounded args Binary64.floorInt?
  | .fmod => fmod args
  | .log => log args
  | .max => extreme args fun v m => ordered true m v none
  | .min => extreme args fun v m => ordered true v m none
  | .modf => modf args
  | .rad => do return ofReal ((← args.real 1).mul (pi.div (.ofInt 180)))
  | .random => random args
  | .randomseed => randomseed args
  | .sin => unary args Float.sin
  | .sqrt => unary args Float.sqrt
  | .tan => unary args Float.tan
  | .tointeger => tointeger args
  | .type => type args
  | .ult => do
    let m ← args.int 1
    return [.bool (m.toUInt64 < (← args.int 2).toUInt64)]

end LuaPages.Lua.Arithmetic
