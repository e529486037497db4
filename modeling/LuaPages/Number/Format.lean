import LuaPages.Number.Shortest

namespace LuaPages.Number

structure Directive where
  leftAlign : Bool
  plusSign : Bool
  spaceSign : Bool
  alternate : Bool
  zeroPad : Bool
  width : Nat
  precision : Option Nat
  deriving Repr

def Directive.plain : Directive := ⟨false, false, false, false, false, 0, none⟩

def zeros (n : Nat) : String := String.ofList (List.replicate n '0')

def padLeft (n : Nat) (s : String) : String := zeros (n - s.length) ++ s

def sign (d : Directive) (negative : Bool) : String :=
  if negative then "-" else if d.plusSign then "+" else if d.spaceSign then " " else ""

def Directive.pad (d : Directive) (zeroPad : Bool) (lead body : String) : String :=
  let fill := d.width - (lead.length + body.length)
  let blanks := String.ofList (List.replicate fill ' ')
  if d.leftAlign then lead ++ body ++ blanks
  else if zeroPad then lead ++ zeros fill ++ body
  else blanks ++ lead ++ body

def point (places : Nat) (alternate : Bool) (c : Nat) : String :=
  let s := padLeft (places + 1) (toString c)
  let cs := s.toList
  let k := s.length - places
  String.ofList (cs.take k) ++ (if places = 0 && !alternate then "" else ".") ++ String.ofList (cs.drop k)

def exponentText (e : Int) : String :=
  (if e < 0 then "-" else "+") ++ padLeft 2 (toString e.natAbs)

def fixedBody (d : Directive) (places : Nat) (x : Binary64) : String :=
  let (n, m) := x.ratio
  point places d.alternate (Decimal.rounded places n m)

def exponentBody (d : Directive) (places : Nat) (x : Binary64) : String :=
  let (n, m) := x.ratio
  let r := Decimal.significant (places + 1) n m
  let e := if r.digits = 0 then 0 else r.exponent + places
  point places d.alternate r.digits ++ "e" ++ exponentText e

/-- Without zeros at the end of the fraction, and without a bare point. -/
def trimFraction (s : String) : String :=
  if s.toList.contains '.' then
    let r := s.toList.reverse.dropWhile (· == '0')
    String.ofList (match r with | '.' :: r => r.reverse | r => r.reverse)
  else s

/-- At most `p` significant digits; positional if the exponent is at least -4 and below `p`. -/
def generalBody (d : Directive) (p : Nat) (x : Binary64) : String :=
  let p := max p 1
  let (n, m) := x.ratio
  let r := Decimal.significant p n m
  let e := if r.digits = 0 then 0 else r.exponent + p - 1
  if e < -4 ∨ (p : Int) ≤ e then
    let mantissa := point (p - 1) d.alternate r.digits
    (if d.alternate then mantissa else trimFraction mantissa) ++ "e" ++ exponentText e
  else
    let body := fixedBody d ((p : Int) - 1 - e).toNat x
    if d.alternate then body else trimFraction body

def hexDigits (n : Nat) : String := String.ofList (Nat.toDigits 16 n)

/-- One hexadecimal digit before the point, of a significand in `[1, 2)`. -/
def hexBody (d : Directive) (x : Binary64) : String :=
  let (m, q) := x.magnitude
  if m = 0 then
    "0" ++ (match d.precision with | some (n + 1) => "." ++ zeros (n + 1) | _ => if d.alternate then "." else "") ++ "p+0"
  else
    let e := q + 52
    let places := d.precision.getD 13
    let c := if places < 13 then roundDiv m (1 <<< (4 * (13 - places))) else m <<< (4 * (places - 13))
    let lead := c >>> (4 * places)
    let fraction := padLeft places (hexDigits (c % (1 <<< (4 * places))))
    let fraction := if places = 0 then "" else fraction
    let fraction := if d.precision.isNone then
      String.ofList (fraction.toList.reverse.dropWhile (· == '0')).reverse else fraction
    toString lead ++ (if fraction.isEmpty && !d.alternate then "" else ".") ++ fraction ++ "p" ++
      (if e < 0 then "-" else "+") ++ toString e.natAbs

def formatReal (d : Directive) (letter : Char) (x : Binary64) : String :=
  let lead := sign d x.isNegative
  let text :=
    if x.isNaN then d.pad false lead "nan"
    else if x.isInfinite then d.pad false lead "inf"
    else
      let zero := d.zeroPad && !d.leftAlign
      match letter.toLower with
      | 'f' => d.pad zero lead (fixedBody d (d.precision.getD 6) x)
      | 'e' => d.pad zero lead (exponentBody d (d.precision.getD 6) x)
      | 'g' => d.pad zero lead (generalBody d (d.precision.getD 6) x)
      | _ => d.pad zero (lead ++ "0x") (hexBody d x)
  if letter.isUpper then text.map Char.toUpper else text

def formatInteger (d : Directive) (letter : Char) (i : Int) : String :=
  let unsigned := (i % UInt64.size).toNat
  let (lead, body) : String × String :=
    match letter with
    | 'o' => ("", String.ofList (Nat.toDigits 8 unsigned))
    | 'u' => ("", toString unsigned)
    | 'x' => (if d.alternate && unsigned ≠ 0 then "0x" else "", hexDigits unsigned)
    | 'X' => (if d.alternate && unsigned ≠ 0 then "0X" else "", (hexDigits unsigned).map Char.toUpper)
    | _ => (sign d (i < 0), toString i.natAbs)
  let body := match d.precision with
    | some 0 => if i = 0 then "" else body
    | some p => padLeft p body
    | none => body
  let body := if letter = 'o' && d.alternate && !body.startsWith "0" then "0" ++ body else body
  d.pad (d.zeroPad && !d.leftAlign && d.precision.isNone) lead body

end LuaPages.Number
