import LuaPages.Number.Format

namespace LuaPages.Lua

namespace Ascii

def isSpace (b : UInt8) : Bool := b == 32 || (9 ≤ b && b ≤ 13)
def isDigit (b : UInt8) : Bool := 48 ≤ b && b ≤ 57
def isUpper (b : UInt8) : Bool := 65 ≤ b && b ≤ 90
def isLower (b : UInt8) : Bool := 97 ≤ b && b ≤ 122
def isAlpha (b : UInt8) : Bool := isUpper b || isLower b
def isAlnum (b : UInt8) : Bool := isAlpha b || isDigit b
def isHexDigit (b : UInt8) : Bool := isDigit b || (65 ≤ b && b ≤ 70) || (97 ≤ b && b ≤ 102)
def isControl (b : UInt8) : Bool := b < 32 || b == 127
def isPrintable (b : UInt8) : Bool := 32 ≤ b && b ≤ 126
def isPunctuation (b : UInt8) : Bool := isPrintable b && b != 32 && !isAlnum b
def toLower (b : UInt8) : UInt8 := if isUpper b then b + 32 else b
def toUpper (b : UInt8) : UInt8 := if isLower b then b - 32 else b

def digitValue (b : UInt8) : Nat :=
  if isDigit b then b.toNat - 48 else (toLower b).toNat - 87

end Ascii

inductive Number where
  | int (n : Int64)
  | float (x : Binary64)
  deriving DecidableEq, Repr

namespace Number

def toBinary64 : Number → Binary64
  | .int n => .ofInt n.toInt
  | .float x => x

def wholeFloat? (x : Binary64) : Option Int64 := do
  let i ← x.exactInt?
  if Int64.minValue.toInt ≤ i ∧ i ≤ Int64.maxValue.toInt then some (.ofInt i) else none

def toInt? : Number → Option Int64
  | .int n => some n
  | .float x => wholeFloat? x

/-- Fourteen significant digits; a text that would read as an integer gets `.0`. -/
def floatText (x : Binary64) : String :=
  let d := { Number.Directive.plain with precision := some 14 }
  let s := Number.formatReal d 'g' x
  if s.toList.all (fun c => c.isDigit || c = '-') then s ++ ".0" else s

def toText : Number → String
  | .int n => toString n.toInt
  | .float x => floatText x

end Number

namespace Numeral

def skipSpaces (s : List UInt8) : List UInt8 := s.dropWhile Ascii.isSpace

def takeSign : List UInt8 → Bool × List UInt8
  | 45 :: r => (true, r)
  | 43 :: r => (false, r)
  | r => (false, r)

def digits (base : Nat) (isDigit : UInt8 → Bool) : List UInt8 → Nat → Nat → Nat × Nat × List UInt8
  | [], acc, n => (acc, n, [])
  | b :: r, acc, n =>
    if isDigit b then digits base isDigit r (acc * base + Ascii.digitValue b) (n + 1)
    else (acc, n, b :: r)

def isHexMark : List UInt8 → Bool
  | 48 :: 120 :: _ | 48 :: 88 :: _ => true
  | _ => false

def signBit : Nat := 0x8000000000000000

/-- Decimal integers must fit in 64 bits; hexadecimal ones wrap around. -/
def integer? (s : List UInt8) : Option Int64 :=
  let (negative, r) := takeSign (skipSpaces s)
  let hex := isHexMark r
  let (v, n, r) := if hex then digits 16 Ascii.isHexDigit (r.drop 2) 0 0 else digits 10 Ascii.isDigit r 0 0
  let fits := hex || v < signBit || (negative && v = signBit)
  if n = 0 || !fits || !(skipSpaces r).isEmpty then none
  else some (.ofInt (if negative then -(v : Int) else v))

def exponent (marks : List UInt8) (s : List UInt8) : Int × List UInt8 :=
  match s with
  | m :: r =>
    if marks.contains m then
      let (negative, r) := takeSign r
      let (v, n, r) := digits 10 Ascii.isDigit r 0 0
      if n = 0 then (0, s) else (if negative then -(v : Int) else v, r)
    else (0, s)
  | [] => (0, [])

def real? (s : List UInt8) : Option Binary64 :=
  let (negative, r) := takeSign (skipSpaces s)
  let hex := isHexMark r
  let base := if hex then 16 else 10
  let isDigit := if hex then Ascii.isHexDigit else Ascii.isDigit
  let (v, n, r) := digits base isDigit (if hex then r.drop 2 else r) 0 0
  let (v, whole, n, r) :=
    match r with
    | 46 :: r =>
      let (w, k, r) := digits base isDigit r v 0
      (w, k, n + k, r)
    | r => (v, 0, n, r)
  if n = 0 then none
  else
    let (e, r) := exponent (if hex then [112, 80] else [101, 69]) r
    if !(skipSpaces r).isEmpty then none
    else if hex then some (.ofDyadic negative v (e - 4 * whole))
    else some (.ofDecimal negative v (e - whole))

def number? (s : List UInt8) : Option Number :=
  match integer? s with
  | some n => some (.int n)
  | none => (real? s).map .float

def ofBytes? (s : Bytes) : Option Number := number? s.data.toList

end Numeral

end LuaPages.Lua
