import LuaPages.Lua.Library.Arguments
import LuaPages.Text.Utf8

namespace LuaPages.Lua.Utf8Text

open Script

open Bytes (byteAt)

def isContinuation (b : UInt8) : Bool := b &&& 0xC0 == 0x80

def tailLength (b : UInt8) : Nat :=
  if b < 0xC0 then 0 else if b < 0xE0 then 1 else if b < 0xF0 then 2 else if b < 0xF8 then 3
  else if b < 0xFC then 4 else 5

def smallest : Nat → Nat
  | 0 => 0 | 1 => 0x80 | 2 => 0x800 | 3 => 0x10000 | 4 => 0x200000 | _ => 0x4000000

def decode? (s : Bytes) (strict : Bool) (i : Nat) : Option (Nat × Nat) :=
  let b := byteAt s i
  if s.size ≤ i then none
  else if b < 0x80 then some (b.toNat, i + 1)
  else if b < 0xC0 || 0xFE ≤ b then none
  else
    let n := tailLength b
    let tail := (List.range n).map fun k => byteAt s (i + 1 + k)
    if s.size < i + 1 + n || !tail.all isContinuation then none
    else
      let lead := b.toNat % (1 <<< (6 - n))
      let c := tail.foldl (fun acc t => acc * 64 + t.toNat % 64) lead
      if c < smallest n then none
      else if strict && (0x10FFFF < c || (0xD800 ≤ c && c ≤ 0xDFFF)) then none
      else some (c, i + 1 + n)

/-- A position as scripts give it: from the end if it is negative, 0 if it is before the start. -/
def position (i : Int) (size : Nat) : Int :=
  if 0 ≤ i then i else if (size : Int) < -i then 0 else size + i + 1

def char (args : Arguments) : Script (List Value) := do
  let encode (i : Nat) : Script (List UInt8) := do
    let c := (← args.int i).toInt
    Arguments.require (0 ≤ c && c ≤ 0x7FFFFFFF) i "value out of range"
    return Utf8.encodeWide c.toNat
  let parts ← (List.range args.length).mapM fun i => encode (i + 1)
  return [.string (.ofList parts.flatten)]

def codesFrom (s : Bytes) (strict : Bool) (last : Nat) : Nat → Nat → Option (List Nat)
  | 0, _ => some []
  | fuel + 1, i =>
    if last ≤ i then some []
    else match decode? s strict i with
      | none => none
      | some (c, j) => (codesFrom s strict last fuel j).map (c :: ·)

def codepoint (args : Arguments) : Script (List Value) := do
  let s ← args.bytes 1
  let i := position (← args.intD 2 1).toInt s.size
  let j := position (← args.intD 3 (.ofInt i)).toInt s.size
  let lax := (args.get 4).truthy
  Arguments.require (1 ≤ i) 2 "out of bounds"
  Arguments.require (j ≤ s.size) 3 "out of bounds"
  if j < i then return []
  match codesFrom s (!lax) j.toNat (s.size + 1) (i.toNat - 1) with
  | none => failCaller "invalid UTF-8 code"
  | some cs => return cs.map Value.ofNat

/-- The number of codes that start from `i` up to `last`, or the position of the first fault. -/
def countFrom (s : Bytes) (strict : Bool) (last : Int) : Nat → Nat → Nat → Except Nat Nat
  | 0, _, n => .ok n
  | fuel + 1, i, n =>
    if last < i then .ok n
    else match decode? s strict i with
      | none => .error (i + 1)
      | some (_, j) => countFrom s strict last fuel j (n + 1)

def len (args : Arguments) : Script (List Value) := do
  let s ← args.bytes 1
  let i := position (← args.intD 2 1).toInt s.size
  let j := position (← args.intD 3 (-1)).toInt s.size
  let lax := (args.get 4).truthy
  Arguments.require (1 ≤ i && i - 1 ≤ s.size) 2 "initial position out of bounds"
  Arguments.require (j - 1 < s.size) 3 "final position out of bounds"
  match countFrom s (!lax) (j - 1) (s.size + 1) (i.toNat - 1) 0 with
  | .ok n => return [.ofNat n]
  | .error at_ => return [.nil, .ofNat at_]

def backward (s : Bytes) : Nat → Nat → Nat → Option Nat
  | _, 0, i => some i
  | 0, _, _ => none
  | fuel + 1, n + 1, i =>
    if i = 0 then none
    else
      let rec start : Nat → Nat → Nat
        | 0, j => j
        | k + 1, j => if 0 < j && isContinuation (byteAt s j) then start k (j - 1) else j
      backward s fuel n (start (s.size + 1) (i - 1))

def forward (s : Bytes) : Nat → Nat → Nat → Option Nat
  | _, 0, i => some i
  | 0, _, _ => none
  | fuel + 1, n + 1, i =>
    if s.size ≤ i then none
    else
      let rec stop : Nat → Nat → Nat
        | 0, j => j
        | k + 1, j => if isContinuation (byteAt s j) then stop k (j + 1) else j
      forward s fuel n (stop (s.size + 1) (i + 1))

def offset (args : Arguments) : Script (List Value) := do
  let s ← args.bytes 1
  let n := (← args.int 2).toInt
  let i := position (← args.intD 3 (if 0 < n then 1 else .ofNat (s.size + 1))).toInt s.size
  Arguments.require (1 ≤ i && i - 1 ≤ s.size) 3 "position out of bounds"
  let i := i.toNat - 1
  if n = 0 then
    let rec start : Nat → Nat → Nat
      | 0, j => j
      | k + 1, j => if 0 < j && isContinuation (byteAt s j) then start k (j - 1) else j
    return [.ofNat (start (s.size + 1) i + 1)]
  else if isContinuation (byteAt s i) then failCaller "initial position is a continuation byte"
  else
    let found := if 0 < n then forward s (s.size + 1) (n.toNat - 1) i
      else backward s (s.size + 1) (-n).toNat i
    return [match found with | some j => .ofNat (j + 1) | none => .nil]

def codes (args : Arguments) : Script (List Value) := do
  let lax := (args.get 2).truthy
  let s ← args.bytes 1
  Arguments.require (!isContinuation (byteAt s 0)) 1 "invalid UTF-8 code"
  return [.builtin (.codesStep lax), .string s, .int 0]

def codesStep (lax : Bool) (args : Arguments) : Script (List Value) := do
  let s ← args.bytes 1
  let i := (← args.int 2).toUInt64.toNat
  let rec start : Nat → Nat → Nat
    | 0, j => j
    | k + 1, j => if isContinuation (byteAt s j) then start k (j + 1) else j
  let i := if i < s.size then start (s.size + 1) i else i
  if s.size ≤ i then return []
  match decode? s (!lax) i with
  | none => failCaller "invalid UTF-8 code"
  | some (c, j) =>
    if isContinuation (byteAt s j) then failCaller "invalid UTF-8 code"
    else return [.ofNat (i + 1), .ofNat c]

def run (f : Utf8Function) (args : Arguments) : Script (List Value) :=
  match f with
  | .char => char args
  | .codepoint => codepoint args
  | .codes => codes args
  | .len => len args
  | .offset => offset args

def charPattern : Bytes :=
  .ofList ([91, 0, 45, 127, 194, 45, 253, 93, 91, 128, 45, 191, 93, 42])

end LuaPages.Lua.Utf8Text
