import LuaPages.Lua.Library.Arguments

namespace LuaPages.Lua.Formatting

open Script

def flagBytes : List UInt8 := "-+ #0".toUTF8.data.toList

def isModifier (b : UInt8) : Bool := flagBytes.contains b || Ascii.isDigit b || b == 46

def modifierLimit : Nat := 21

def invalid {α : Type} (spec : List UInt8) : Script α :=
  failCaller (("invalid conversion '%" : Bytes) ++ .ofList spec ++ "' to 'format'")

def twoDigits (s : List UInt8) : Option Nat × List UInt8 :=
  let ds := (s.take 2).takeWhile Ascii.isDigit
  let n := ds.foldl (fun acc d => acc * 10 + Ascii.digitValue d) 0
  (if ds.isEmpty then none else some n, s.drop ds.length)

/-- Reads the modifiers of a conversion that allows `flags`, and a precision if `dotted`. -/
def modifiers (flags : String) (dotted : Bool) (spec : List UInt8) : Option Number.Directive :=
  let allowed := flags.toUTF8.data.toList
  let fs := spec.takeWhile allowed.contains
  let rest := spec.drop fs.length
  let has (c : UInt8) : Bool := fs.contains c
  let make (width : Nat) (precision : Option Nat) : Number.Directive :=
    ⟨has 45, has 43, has 32, has 35, has 48, width, precision⟩
  match rest with
  | 48 :: _ => none
  | _ =>
    let (width, rest) := twoDigits rest
    match rest with
    | 46 :: r =>
      if dotted then
        let (precision, r) := twoDigits r
        if r.length = 1 then some (make (width.getD 0) (some (precision.getD 0))) else none
      else none
    | [_] => some (make (width.getD 0) none)
    | _ => none

def directive (flags : String) (dotted : Bool) (spec : List UInt8) : Script Number.Directive :=
  match modifiers flags dotted spec with
  | some d => pure d
  | none => invalid spec

def padText (d : Number.Directive) (s : Bytes) : Bytes :=
  let blanks := Bytes.replicate (d.width - s.size) 32
  if d.leftAlign then s ++ blanks else blanks ++ s

def quote : List UInt8 → List UInt8
  | [] => []
  | c :: r =>
    if c == 34 || c == 92 || c == 10 then 92 :: c :: quote r
    else if Ascii.isControl c then
      let digits := toString c.toNat
      let wide := (r.head?.map Ascii.isDigit).getD false
      (92 :: (if wide then Number.padLeft 3 digits else digits).toUTF8.data.toList) ++ quote r
    else c :: quote r

def literal (i : Nat) (v : Value) : Script Bytes :=
  match v with
  | .string s => pure (.ofList (34 :: quote s.data.toList ++ [34]))
  | .number (.int n) =>
    pure (if n = Int64.minValue then "0x8000000000000000" else toString n.toInt : String)
  | .number (.float x) =>
    pure (if x.isNaN then "(0/0)"
      else if x.isInfinite then (if x.isNegative then "-1e9999" else "1e9999")
      else Number.formatReal .plain 'a' x : String)
  | .nil | .bool _ => display v
  | _ => Arguments.refuse i "value has no literal form"

def text (args : Arguments) (i : Nat) (spec : List UInt8) : Script Bytes := do
  let s ← display (args.get i)
  if spec.length = 1 then return s
  Arguments.require (!s.data.contains 0) i "string contains zeros"
  let d ← directive "-" true spec
  if d.precision.isNone && 100 ≤ s.size then return s
  return padText d (match d.precision with | some p => s.extract 0 p | none => s)

def pointer (args : Arguments) (i : Nat) (spec : List UInt8) : Script Bytes := do
  let d ← directive "-" false spec
  match args.get i with
  | .nil | .bool _ | .number _ => return padText d "(null)"
  | .string s => return padText d ((address "" (hash s).toNat).extract 2 18)
  | v =>
    let t ← display v
    match t.find? ": " 0 with
    | some k => return padText d (t.extract (k + 2) t.size)
    | none => return padText d t

def convert (args : Arguments) (i : Nat) (spec : List UInt8) : Script Bytes := do
  let letter := Char.ofNat ((spec.getLast?.getD 0).toNat)
  match letter with
  | 'c' =>
    let n ← args.int i
    let d ← directive "-" false spec
    return padText d (.singleton (UInt8.ofNat (n.toInt % 256).toNat))
  | 'd' | 'i' =>
    let n ← args.int i
    return (Number.formatInteger (← directive "-+0 " true spec) letter n.toInt).toUTF8
  | 'u' =>
    let n ← args.int i
    return (Number.formatInteger (← directive "-0" true spec) letter n.toInt).toUTF8
  | 'o' | 'x' | 'X' =>
    let n ← args.int i
    return (Number.formatInteger (← directive "-#0" true spec) letter n.toInt).toUTF8
  | 'a' | 'A' =>
    let d ← directive "-+#0 " true spec
    return (Number.formatReal d letter (← args.real i)).toUTF8
  | 'e' | 'E' | 'f' | 'g' | 'G' =>
    let x ← args.real i
    return (Number.formatReal (← directive "-+#0 " true spec) letter x).toUTF8
  | 'p' => pointer args i spec
  | 'q' =>
    if spec.length ≠ 1 then failCaller "specifier '%q' cannot have modifiers"
    literal i (args.get i)
  | 's' => text args i spec
  | _ => invalid (spec.filter (· != 0))

/-- The text of a format from here on; `i` is the argument used last. -/
def expand (args : Arguments) : Nat → Nat → List UInt8 → Bytes → Script Bytes
  | 0, _, _, acc => pure acc
  | _, _, [], acc => pure acc
  | fuel + 1, i, 37 :: 37 :: r, acc => expand args fuel i r (acc.push 37)
  | fuel + 1, i, 37 :: r, acc => do
    if args.length < i + 1 then Arguments.refuse (i + 1) "no value"
    let ms := r.takeWhile isModifier
    if modifierLimit ≤ ms.length then failCaller "invalid format string to 'format'"
    let rest := r.drop ms.length
    let piece ← convert args (i + 1) (ms ++ [rest.headD 0])
    expand args fuel (i + 1) (rest.drop 1) (acc ++ piece)
  | fuel + 1, i, c :: r, acc => expand args fuel i r (acc.push c)

def format (args : Arguments) : Script (List Value) := do
  let s ← args.bytes 1
  return [.string (← expand args (s.size + 1) 1 s.data.toList .empty)]

end LuaPages.Lua.Formatting
