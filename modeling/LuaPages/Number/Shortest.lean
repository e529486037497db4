import LuaPages.Number.Binary64

namespace LuaPages

structure Decimal where
  digits : Nat
  exponent : Int
  deriving DecidableEq, Repr

namespace Decimal

def digitCount (n : Nat) : Nat := (toString n).length

def scale (n d : Nat) (e : Int) : Nat × Nat :=
  if 0 ≤ e then (n, d * tenTo e.toNat) else (n * tenTo (-e).toNat, d)

def floorLog10 (n d : Nat) : Int :=
  let e : Int := (digitCount n : Int) - digitCount d
  let (a, b) := scale n d e
  if b ≤ a then e else e - 1

/-- `n / d` rounded to `count` significant digits, a tie to the even digit. -/
def significant (count n d : Nat) : Decimal :=
  if n = 0 then ⟨0, 0⟩
  else
    let e := floorLog10 n d - ((count : Int) - 1)
    let (a, b) := scale n d e
    let c := roundDiv a b
    if c = tenTo count then ⟨tenTo (count - 1), e + 1⟩ else ⟨c, e⟩

def rounded (places n d : Nat) : Nat := roundDiv (n * tenTo places) d

/-- The reals that round to `m * 2 ^ q`, as `low / (4 * unit)` and `high / (4 * unit)` around the
value `mid / (4 * unit)`; the ends belong to them iff `m` is even. -/
structure Neighbourhood where
  low : Nat
  mid : Nat
  high : Nat
  unit : Nat
  closed : Bool

def Neighbourhood.of (x : Binary64) : Neighbourhood :=
  let (m, q) := x.magnitude
  let below := if m = Binary64.leadingBit ∧ -1074 < q then 1 else 2
  let (f, u) : Nat × Nat := if 0 ≤ q then (1 <<< q.toNat, 4) else (1, 4 <<< (-q).toNat)
  ⟨(4 * m - below) * f, 4 * m * f, (4 * m + 2) * f, u, m % 2 = 0⟩

def Neighbourhood.contains (s : Neighbourhood) (c : Nat) (e : Int) : Bool :=
  let (v, w) : Nat × Nat := if 0 ≤ e then (c * tenTo e.toNat * s.unit, 1) else (c * s.unit, tenTo (-e).toNat)
  if s.closed then s.low * w ≤ v && v ≤ s.high * w else s.low * w < v && v < s.high * w

def Neighbourhood.onGrid? (s : Neighbourhood) (e : Int) : Option Decimal :=
  let (a, b) := scale s.mid s.unit e
  let c := a / b
  let lower := s.contains c e
  let upper := s.contains (c + 1) e
  if lower && (!upper || 2 * (a % b) < b) then some ⟨c, e⟩
  else if upper then some ⟨c + 1, e⟩
  else none

/-- The fewest digits that read back as `x`, and of those the nearest to it; for finite nonzero
`x`. -/
def shortest (x : Binary64) : Decimal :=
  let s := Neighbourhood.of x
  let top := floorLog10 s.mid s.unit
  let rec search : Nat → Int → Decimal
    | 0, e => (s.onGrid? e).getD (significant 17 s.mid s.unit)
    | n + 1, e => (s.onGrid? e).getD (search n (e - 1))
  search 17 (top + 1)

def trim (x : Decimal) : Decimal :=
  let rec go : Nat → Nat → Int → Decimal
    | 0, c, e => ⟨c, e⟩
    | n + 1, c, e => if c ≠ 0 ∧ c % 10 = 0 then go n (c / 10) (e + 1) else ⟨c, e⟩
  go (digitCount x.digits) x.digits x.exponent

def positional (x : Decimal) : String :=
  let s := toString x.digits
  let n := s.length
  if 0 ≤ x.exponent then s ++ String.ofList (List.replicate x.exponent.toNat '0')
  else
    let k := (-x.exponent).toNat
    let cs := s.toList
    if k < n then String.ofList (cs.take (n - k)) ++ "." ++ String.ofList (cs.drop (n - k))
    else "0." ++ String.ofList (List.replicate (k - n) '0') ++ s

end Decimal

/-- The text of a number where no exponent is ever written: the fewest digits that read back. -/
def Binary64.plain (x : Binary64) : String :=
  let sign := if x.isNegative then "-" else ""
  if x.isNaN then "NaN"
  else if x.isInfinite then sign ++ "inf"
  else if x.isZero then sign ++ "0"
  else sign ++ (Decimal.shortest x).trim.positional

end LuaPages
