import LuaPages.Text.Bytes
/-!
IEEE 754 binary64 numbers as bit patterns. Reading a ratio and taking a number apart are exact;
arithmetic is the machine's, with the sign of a result that is not a number made explicit.
-/
namespace LuaPages

def tenTo (k : Nat) : Nat := Nat.pow 10 k

/-- The quotient `n / d` rounded to the nearest natural number, a half to the even neighbour. -/
def roundDiv (n d : Nat) : Nat :=
  let q := n / d
  let r := n % d
  if 2 * r < d then q
  else if d < 2 * r then q + 1
  else q + q % 2

structure Binary64 where
  bits : UInt64
  deriving DecidableEq, Hashable, Repr, Inhabited

namespace Binary64

def isNegative (x : Binary64) : Bool := x.bits >>> 63 == 1

def exponentBits (x : Binary64) : Nat := ((x.bits >>> 52) &&& 0x7FF).toNat

def fractionBits (x : Binary64) : Nat := (x.bits &&& 0xFFFFFFFFFFFFF).toNat

def isFinite (x : Binary64) : Bool := x.exponentBits != 0x7FF

def isNaN (x : Binary64) : Bool := x.exponentBits == 0x7FF && x.fractionBits != 0

def isInfinite (x : Binary64) : Bool := x.exponentBits == 0x7FF && x.fractionBits == 0

def isZero (x : Binary64) : Bool := x.bits <<< 1 == 0

def zero : Binary64 := ⟨0⟩

def infinity (negative : Bool) : Binary64 :=
  ⟨if negative then 0xFFF0000000000000 else 0x7FF0000000000000⟩

/-- What an invalid operation gives: a quiet pattern with the sign bit set. -/
def invalid : Binary64 := ⟨0xFFF8000000000000⟩

def neg (x : Binary64) : Binary64 := ⟨x.bits ^^^ 0x8000000000000000⟩

def abs (x : Binary64) : Binary64 := ⟨x.bits &&& 0x7FFFFFFFFFFFFFFF⟩

def leadingBit : Nat := 0x10000000000000

def magnitude (x : Binary64) : Nat × Int :=
  if x.exponentBits = 0 then (x.fractionBits, -1074)
  else (x.fractionBits + leadingBit, (x.exponentBits : Int) - 1075)

def ratio (x : Binary64) : Nat × Nat :=
  let (m, q) := x.magnitude
  if 0 ≤ q then (m <<< q.toNat, 1) else (m, 1 <<< (-q).toNat)

def floorLog2 (n d : Nat) : Int :=
  let e : Int := (n.log2 : Int) - d.log2
  let fits := if 0 ≤ e then d <<< e.toNat ≤ n else d ≤ n <<< (-e).toNat
  if fits then e else e - 1

/-- The number nearest to `n / d`, a tie to the even significand; infinite from halfway past the
largest finite number on. -/
def ofRatio (negative : Bool) (n d : Nat) : Binary64 :=
  let sign : UInt64 := if negative then 0x8000000000000000 else 0
  if n = 0 then ⟨sign⟩
  else
    let q := max (floorLog2 n d - 52) (-1074)
    let m := if 0 ≤ q then roundDiv n (d <<< q.toNat) else roundDiv (n <<< (-q).toNat) d
    let (m, q) := if m = 2 * leadingBit then (leadingBit, q + 1) else (m, q)
    if 971 < q then infinity negative
    else if m < leadingBit then ⟨sign ||| UInt64.ofNat m⟩
    else ⟨sign ||| UInt64.ofNat ((q + 1075).toNat * leadingBit + (m - leadingBit))⟩

def ofDecimal (negative : Bool) (c : Nat) (e : Int) : Binary64 :=
  let size : Int := (toString c).length + e
  if c = 0 then ofRatio negative 0 1
  else if 400 < size then infinity negative
  else if size < -400 then ofRatio negative 0 1
  else if 0 ≤ e then ofRatio negative (c * tenTo e.toNat) 1
  else ofRatio negative c (tenTo (-e).toNat)

def ofDyadic (negative : Bool) (c : Nat) (e : Int) : Binary64 :=
  let size : Int := (c.log2 : Int) + e
  if c = 0 then ofRatio negative 0 1
  else if 1100 < size then infinity negative
  else if size < -1200 then ofRatio negative 0 1
  else if 0 ≤ e then ofRatio negative (c <<< e.toNat) 1
  else ofRatio negative c (1 <<< (-e).toNat)

def ofInt (i : Int) : Binary64 := ofRatio (i < 0) i.natAbs 1

def floorInt? (x : Binary64) : Option Int :=
  if !x.isFinite then none
  else
    let (n, d) := x.ratio
    some (if x.isNegative then -((n + d - 1) / d : Nat) else (n / d : Nat))

def ceilInt? (x : Binary64) : Option Int := x.neg.floorInt?.map (- ·)

def exactInt? (x : Binary64) : Option Int := do
  let f ← x.floorInt?
  let c ← x.ceilInt?
  if f = c then some f else none

def compareInt (i : Int) (x : Binary64) : Option Ordering :=
  if x.isNaN then none
  else if x.isInfinite then some (if x.isNegative then .gt else .lt)
  else
    let (n, d) := x.ratio
    some (compare (i * d) (if x.isNegative then -(n : Int) else n))

def toFloat (x : Binary64) : Float := Float.ofBits x.bits

def ofFloat (x : Float) : Binary64 := if x.isNaN then invalid else ⟨x.toBits⟩

/-- An operand that is not a number is the result, the first one if both are. -/
def lift₂ (f : Float → Float → Float) (x y : Binary64) : Binary64 :=
  if x.isNaN then x else if y.isNaN then y else ofFloat (f x.toFloat y.toFloat)

def lift (f : Float → Float) (x : Binary64) : Binary64 :=
  if x.isNaN then x else ofFloat (f x.toFloat)

def add : Binary64 → Binary64 → Binary64 := lift₂ (· + ·)
def sub : Binary64 → Binary64 → Binary64 := lift₂ (· - ·)
def mul : Binary64 → Binary64 → Binary64 := lift₂ (· * ·)
def div : Binary64 → Binary64 → Binary64 := lift₂ (· / ·)

def eq (x y : Binary64) : Bool :=
  !x.isNaN && !y.isNaN && (x.bits == y.bits || (x.isZero && y.isZero))

def lt (x y : Binary64) : Bool := x.toFloat < y.toFloat

def le (x y : Binary64) : Bool := x.toFloat ≤ y.toFloat

def pow (x y : Binary64) : Binary64 :=
  let one : Binary64 := ⟨0x3FF0000000000000⟩
  if x.bits == one.bits || y.isZero then one else lift₂ Float.pow x y

def floor : Binary64 → Binary64 := lift Float.floor

def ceil : Binary64 → Binary64 := lift Float.ceil

def truncatedRemainder (x y : Binary64) : Binary64 :=
  if x.isNaN then x else if y.isNaN then y
  else if x.isInfinite || y.isZero then invalid
  else if y.isInfinite || x.isZero then x
  else
    let (a, b) := x.ratio
    let (c, d) := y.ratio
    ofRatio x.isNegative (a * d % (c * b)) (b * d)

def flooredRemainder (x y : Binary64) : Binary64 :=
  let m := truncatedRemainder x y
  if m.isNaN || m.isZero then m
  else if m.isNegative != y.isNegative then add m y
  else m

/-- The fraction in `[1/2, 1)` and the exponent of two that a finite nonzero number is made of. -/
def split (x : Binary64) : Binary64 × Int :=
  if !x.isFinite || x.isZero then (x, 0)
  else
    let (m, q) := x.magnitude
    let e : Int := m.log2 + 1
    (ofDyadic x.isNegative m (-e), q + e)

end Binary64

end LuaPages
