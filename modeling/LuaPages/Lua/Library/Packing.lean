import LuaPages.Lua.Library.Arguments

namespace LuaPages.Lua.Packing

open Script

inductive Item where
  | signed (size : Nat)
  | unsigned (size : Nat)
  | float
  | double
  | fixed (size : Nat)
  | counted (size : Nat)
  | zeroEnded
  | padding
  | aligned
  | nothing

/-- The byte order and the largest alignment, as options set them. -/
structure Layout where
  little : Bool
  maxAlign : Nat

def sizeLimit : Nat := 0x7FFFFFFF

def digits : List UInt8 → Nat → Nat × List UInt8
  | [], n => (n, [])
  | c :: r, n =>
    if Ascii.isDigit c && n ≤ (sizeLimit - 9) / 10 then digits r (n * 10 + Ascii.digitValue c)
    else (n, c :: r)

def number? (s : List UInt8) : Option Nat × List UInt8 :=
  match s with
  | c :: _ => if Ascii.isDigit c then
      let (n, r) := digits s 0
      (some n, r)
    else (none, s)
  | [] => (none, [])

def intSize (default : Nat) (r : List UInt8) : Script (Nat × List UInt8) := do
  let (n?, r) := number? r
  let n := n?.getD default
  if n = 0 || 16 < n then
    failCaller (("integral size (" : Bytes) ++ Bytes.ofNat n ++ ") out of limits [1,16]")
  return (n, r)

def option (l : Layout) (c : UInt8) (r : List UInt8) : Script (Item × Layout × List UInt8) := do
  let plain (i : Item) : Script (Item × Layout × List UInt8) := return (i, l, r)
  let sized (make : Nat → Item) (d : Nat) : Script (Item × Layout × List UInt8) := do
    let (n, r) ← intSize d r
    return (make n, l, r)
  match Char.ofNat c.toNat with
  | 'b' => plain (.signed 1) | 'B' => plain (.unsigned 1)
  | 'h' => plain (.signed 2) | 'H' => plain (.unsigned 2)
  | 'i' => sized .signed 4 | 'I' => sized .unsigned 4
  | 'l' | 'j' => plain (.signed 8) | 'L' | 'J' | 'T' => plain (.unsigned 8)
  | 'f' => plain .float | 'n' | 'd' => plain .double
  | 's' => sized .counted 8
  | 'c' =>
    match number? r with
    | (some n, r) => return (.fixed n, l, r)
    | (none, _) => failCaller "missing size for format option 'c'"
  | 'z' => plain .zeroEnded | 'x' => plain .padding | 'X' => plain .aligned | ' ' => plain .nothing
  | '<' | '=' => return (.nothing, { l with little := true }, r)
  | '>' => return (.nothing, { l with little := false }, r)
  | '!' =>
    let (n, r) ← intSize 8 r
    return (.nothing, { l with maxAlign := n }, r)
  | _ => failCaller (("invalid format option '" : Bytes) ++ .singleton c ++ "'")

/-- The size of an item by itself, and the size it is aligned to. -/
def Item.sizes : Item → Nat × Nat
  | .signed n | .unsigned n => (n, n)
  | .float => (4, 4)
  | .double => (8, 8)
  | .fixed n => (n, 0)
  | .counted n => (n, n)
  | .padding => (1, 0)
  | _ => (0, 0)

/-- An option with its layout, what comes after it, its size and the padding before it. -/
structure Step where
  item : Item
  layout : Layout
  rest : List UInt8
  size : Nat
  before : Nat

def step (l : Layout) (total : Nat) (c : UInt8) (r : List UInt8) : Script Step := do
  let (item, l, rest) ← option l c r
  let (align, rest) ← match item with
    | .aligned =>
      match rest with
      | [] => Arguments.refuse 1 "invalid next option for option 'X'"
      | c :: r =>
        let (next, _, r) ← option l c r
        match next with
        | .fixed _ => Arguments.refuse 1 "invalid next option for option 'X'"
        | _ =>
          if next.sizes.2 = 0 then Arguments.refuse 1 "invalid next option for option 'X'"
          else pure (next.sizes.2, r)
    | i => pure (i.sizes.2, rest)
  let size := match item with | .aligned => 0 | i => i.sizes.1
  if align ≤ 1 then return ⟨item, l, rest, size, 0⟩
  let align := min align l.maxAlign
  if align &&& (align - 1) ≠ 0 then Arguments.refuse 1 "format asks for alignment not power of 2"
  return ⟨item, l, rest, size, (align - total % align) % align⟩

def encodeInt (l : Layout) (size : Nat) (n : Int) : List UInt8 :=
  let bytes := (List.range size).map fun i => UInt8.ofNat ((n.fdiv (1 <<< (8 * i) : Nat)).fmod 256).toNat
  if l.little then bytes else bytes.reverse

def decodeInt (l : Layout) (b : List UInt8) : Nat :=
  (if l.little then b.reverse else b).foldl (fun acc c => acc * 256 + c.toNat) 0

def packItem (args : Arguments) (i : Nat) (s : Step) : Script (List UInt8 × Nat) := do
  match s.item with
  | .signed size =>
    let n := (← args.int i).toInt
    if size < 8 then
      let lim : Int := (1 <<< (size * 8 - 1) : Nat)
      Arguments.require (-lim ≤ n && n < lim) i "integer overflow"
    return (encodeInt s.layout size n, i + 1)
  | .unsigned size =>
    let n := (← args.int i)
    if size < 8 then Arguments.require (n.toUInt64.toNat < 1 <<< (size * 8)) i "unsigned overflow"
    return (encodeInt s.layout size n.toInt, i + 1)
  | .float =>
    let x ← args.real i
    return (encodeInt s.layout 4 x.toFloat.toFloat32.toBits.toNat, i + 1)
  | .double =>
    let x ← args.real i
    return (encodeInt s.layout 8 x.bits.toNat, i + 1)
  | .fixed size =>
    let b ← args.bytes i
    Arguments.require (b.size ≤ size) i "string longer than given size"
    return (b.data.toList ++ List.replicate (size - b.size) 0, i + 1)
  | .counted size =>
    let b ← args.bytes i
    Arguments.require (8 ≤ size || b.size < 1 <<< (size * 8)) i "string length does not fit in given size"
    return (encodeInt s.layout size b.size ++ b.data.toList, i + 1)
  | .zeroEnded =>
    let b ← args.bytes i
    Arguments.require (!b.data.contains 0) i "string contains zeros"
    return (b.data.toList ++ [0], i + 1)
  | .padding => return ([0], i)
  | .aligned | .nothing => return ([], i)

def packFrom (args : Arguments) : Nat → Layout → List UInt8 → Nat → Bytes → Script Bytes
  | 0, _, _, _, acc => pure acc
  | _, _, [], _, acc => pure acc
  | fuel + 1, l, c :: r, i, acc => do
    let s ← step l acc.size c r
    let acc := acc ++ Bytes.replicate s.before 0
    let (b, i) ← packItem args i s
    packFrom args fuel s.layout s.rest i (acc ++ .ofList b)

def startLayout : Layout := ⟨true, 1⟩

def pack (args : Arguments) : Script (List Value) := do
  let f ← args.bytes 1
  return [.string (← packFrom args (f.size + 1) startLayout f.data.toList 2 .empty)]

def packsizeFrom : Nat → Layout → List UInt8 → Nat → Script Nat
  | 0, _, _, total => pure total
  | _, _, [], total => pure total
  | fuel + 1, l, c :: r, total => do
    let s ← step l total c r
    match s.item with
    | .counted _ | .zeroEnded => Arguments.refuse 1 "variable-length format"
    | _ =>
      let total := total + s.before + s.size
      Arguments.require (total ≤ sizeLimit) 1 "format result too large"
      packsizeFrom fuel s.layout s.rest total

def packsize (args : Arguments) : Script (List Value) := do
  let f ← args.bytes 1
  return [.ofNat (← packsizeFrom (f.size + 1) startLayout f.data.toList 0)]

/-- An integer of any size; bytes beyond the eighth have to repeat its sign. -/
def unpackInt (l : Layout) (signed : Bool) (b : List UInt8) : Script Int64 := do
  let n := decodeInt l b
  let size := b.length
  let low : Nat := n % UInt64.size
  let value : Int :=
    if signed && size < 8 && 1 <<< (size * 8 - 1) ≤ n then (n : Int) - (1 <<< (size * 8) : Nat) else (low : Int)
  if 8 < size then
    let high := n / UInt64.size
    let ones := 1 <<< ((size - 8) * 8) - 1
    if high ≠ 0 && !(signed && high = ones && Numeral.signBit ≤ low) then
      failCaller (Bytes.ofNat size ++ "-byte integer does not fit into Lua Integer")
  return .ofInt value

def unpackItem (data : Bytes) (pos : Nat) (s : Step) : Script (List Value × Nat) := do
  let part (n : Nat) : List UInt8 := (data.extract pos (pos + n)).data.toList
  match s.item with
  | .signed n => return ([.int (← unpackInt s.layout true (part n))], pos + n)
  | .unsigned n => return ([.int (← unpackInt s.layout false (part n))], pos + n)
  | .float =>
    let x := (Float32.ofBits (UInt32.ofNat (decodeInt s.layout (part 4)))).toFloat
    return ([.float (.ofFloat x)], pos + 4)
  | .double => return ([.float ⟨UInt64.ofNat (decodeInt s.layout (part 8))⟩], pos + 8)
  | .fixed n => return ([.string (.ofList (part n))], pos + n)
  | .counted n =>
    let len := decodeInt s.layout (part n)
    Arguments.require (len ≤ data.size - pos - n) 2 "data string too short"
    return ([.string (data.extract (pos + n) (pos + n + len))], pos + n + len)
  | .zeroEnded =>
    match (data.extract pos data.size).data.toList.findIdx? (· == 0) with
    | some k => return ([.string (data.extract pos (pos + k))], pos + k + 1)
    | none => Arguments.refuse 2 "unfinished string for format 'z'"
  | .padding => return ([], pos + 1)
  | .aligned | .nothing => return ([], pos)

def unpackFrom (data : Bytes) : Nat → Layout → List UInt8 → Nat → List Value → Script (List Value)
  | 0, _, _, pos, acc => pure (acc ++ [.ofNat (pos + 1)])
  | _, _, [], pos, acc => pure (acc ++ [.ofNat (pos + 1)])
  | fuel + 1, l, c :: r, pos, acc => do
    let s ← step l pos c r
    Arguments.require (s.before + s.size ≤ data.size - pos) 2 "data string too short"
    let (vs, pos) ← unpackItem data (pos + s.before) s
    unpackFrom data fuel s.layout s.rest pos (acc ++ vs)

def unpack (args : Arguments) : Script (List Value) := do
  let f ← args.bytes 1
  let data ← args.bytes 2
  let i := (← args.intD 3 1).toInt
  let pos : Int := if 0 < i then i else if i = 0 then 1
    else if i < -(data.size : Int) then 1 else data.size + i + 1
  Arguments.require (pos - 1 ≤ data.size) 3 "initial position out of string"
  unpackFrom data (f.size + 1) startLayout f.data.toList (pos.toNat - 1) []

end LuaPages.Lua.Packing
