import LuaPages.Number.Binary64

namespace LuaPages.RealText

def readSign : List Char → Bool × List Char
  | '-' :: r => (true, r)
  | '+' :: r => (false, r)
  | r => (false, r)

def digitsValue (ds : List Char) : Nat := ds.foldl (fun n d => 10 * n + (d.toNat - 48)) 0

structure Numeral where
  digits : Nat
  exponent : Int
  deriving DecidableEq, Repr

/-- An exponent fills the rest of the text; without one it is zero. -/
def readExponent? : List Char → Option Int
  | [] => some 0
  | e :: r =>
    if e = 'e' ∨ e = 'E' then
      let (negative, ds) := readSign r
      if ds.isEmpty || !ds.all Char.isDigit then none
      else some (if negative then -(digitsValue ds : Int) else digitsValue ds)
    else none

/-- At least one digit stands before or after the point. -/
def readNumeral? (l : List Char) : Option Numeral :=
  let whole := l.takeWhile Char.isDigit
  let (fraction, rest) :=
    match l.dropWhile Char.isDigit with
    | '.' :: r => (r.takeWhile Char.isDigit, r.dropWhile Char.isDigit)
    | r => ([], r)
  if whole.isEmpty && fraction.isEmpty then none
  else (readExponent? rest).map fun e => ⟨digitsValue (whole ++ fraction), e - fraction.length⟩

def read? (l : List Char) : Option Binary64 :=
  let (negative, r) := readSign l
  let word := String.ofList (r.map Char.toLower)
  if word = "inf" ∨ word = "infinity" then some (.infinity negative)
  else if word = "nan" then some .invalid
  else (readNumeral? r).map fun n => .ofDecimal negative n.digits n.exponent

end LuaPages.RealText
