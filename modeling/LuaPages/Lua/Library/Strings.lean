import LuaPages.Lua.Library.Formatting
import LuaPages.Lua.Library.Packing
import LuaPages.Lua.Pattern
import LuaPages.Lua.Chunk

namespace LuaPages.Lua.Strings

open Script

def startPosition (i : Int) (size : Nat) : Nat :=
  if 0 < i then i.toNat else if i = 0 then 1
  else if i < -(size : Int) then 1 else (size + i + 1).toNat

def endPosition (i : Int) (size : Nat) : Nat :=
  if (size : Int) < i then size else if 0 ≤ i then i.toNat
  else if i < -(size : Int) then 0 else (size + i + 1).toNat

def sub (args : Arguments) : Script (List Value) := do
  let s ← args.bytes 1
  let i := startPosition (← args.int 2).toInt s.size
  let j := endPosition (← args.intD 3 (-1)).toInt s.size
  return [.string (if i ≤ j then s.extract (i - 1) j else .empty)]

def byte (args : Arguments) : Script (List Value) := do
  let s ← args.bytes 1
  let first ← args.intD 2 1
  let i := startPosition first.toInt s.size
  let j := endPosition (← args.intD 3 first).toInt s.size
  return if i ≤ j then (s.extract (i - 1) j).data.toList.map fun b => .ofNat b.toNat else []

def char (args : Arguments) : Script (List Value) := do
  let code (i : Nat) : Script UInt8 := do
    let c ← args.int i
    Arguments.require (c.toUInt64 ≤ 255) i "value out of range"
    return c.toUInt64.toUInt8
  let bs ← (List.range args.length).mapM fun i => code (i + 1)
  return [.string (.ofList bs)]

def sizeLimit : Nat := 0x7FFFFFFF

def rep (args : Arguments) : Script (List Value) := do
  let s ← args.bytes 1
  let n := (← args.int 2).toInt
  let sep ← args.bytesD 3 .empty
  if n ≤ 0 || s.size + sep.size = 0 then return [.string .empty]
  let n := n.toNat
  if sizeLimit / n < s.size + sep.size then failCaller "resulting string too large"
  return [.string ((n - 1).fold (fun _ _ acc => acc ++ sep ++ s) s)]

def mapBytes (args : Arguments) (f : List UInt8 → List UInt8) : Script (List Value) := do
  return [.string (.ofList (f (← args.bytes 1).data.toList))]

def dump (args : Arguments) : Script (List Value) := do
  match ← args.function 1 with
  | .closure id =>
    let n ← update fun s =>
      match s.closures[id]? with
      | some c => (s.dumped.size, { s with dumped := s.dumped.push c.code })
      | none => (0, s)
    return [.string (Chunk.dump n)]
  | _ => failCaller "unable to dump given function"

def matching {α : Type} (r : Except String α) : Script α :=
  match r with
  | .ok a => pure a
  | .error e => failCaller e

def captured : Pattern.Captured → Value
  | .text b => .string b
  | .position n => .ofNat n

def captures (m : Pattern.Subject) (f : Pattern.Found) : Script (List Value) := do
  return (← matching (Pattern.captures m f)).map captured

/-- `find` gives the bounds of a match and its captures, `match` the captures, or the match itself
if there are none. -/
def lookFor (bounds : Bool) (args : Arguments) : Script (List Value) := do
  let s ← args.bytes 1
  let p ← args.bytes 2
  let start := startPosition (← args.intD 3 1).toInt s.size - 1
  if s.size < start then return [.nil]
  if bounds && ((args.get 4).truthy || Pattern.isPlain p) then
    match s.find? p start with
    | some i => return [.ofNat (i + 1), .ofNat (i + p.size)]
    | none => return [.nil]
  let m : Pattern.Subject := ⟨s, p⟩
  let anchored := p.data[0]? == some (94 : UInt8)
  match ← matching (Pattern.search m (if anchored then 1 else 0) anchored none start) with
  | none => return [.nil]
  | some f =>
    if bounds then
      let cs ← if f.captures.isEmpty then pure [] else captures m f
      return .ofNat (f.start + 1) :: .ofNat f.stop :: cs
    else captures m f

def gmatch (args : Arguments) : Script (List Value) := do
  let s ← args.bytes 1
  let p ← args.bytes 2
  let start := startPosition (← args.intD 3 1).toInt s.size - 1
  let start := if s.size < start then s.size + 1 else start
  let id ← update fun st =>
    (st.cursors.size, { st with cursors := st.cursors.push ⟨s, p, start, none⟩ })
  return [.builtin (.gmatchStep id)]

def gmatchStep (id : Nat) : Script (List Value) := do
  match ← read fun s => s.cursors[id]? with
  | none => return []
  | some c =>
    let m : Pattern.Subject := ⟨c.text, c.pattern⟩
    match ← matching (Pattern.search m 0 false c.lastEnd c.start) with
    | none => return []
    | some f =>
      let moved : MatchCursor := { c with start := f.stop, lastEnd := some f.stop }
      change fun s => { s with cursors := s.cursors.setIfInBounds id moved }
      captures m f

def expand (m : Pattern.Subject) (f : Pattern.Found) : List UInt8 → Bytes → Except String Bytes
  | [], acc => .ok acc
  | 37 :: r, acc =>
    match r with
    | 37 :: r => expand m f r (acc.push 37)
    | d :: r =>
      if d == 48 then expand m f r (acc ++ m.text.extract f.start f.stop)
      else if Ascii.isDigit d then do
        match ← Pattern.capture m f (d.toNat - 49) with
        | .text b => expand m f r (acc ++ b)
        | .position n => expand m f r (acc ++ Bytes.ofNat n)
      else .error "invalid use of '%' in replacement string"
    | [] => .error "invalid use of '%' in replacement string"
  | c :: r, acc => expand m f r (acc.push c)

def replacement (m : Pattern.Subject) (f : Pattern.Found) (by_ : Value) : Script Bytes := do
  let whole := m.text.extract f.start f.stop
  let accept (v : Value) : Script Bytes :=
    if !v.truthy then pure whole
    else match v.joinText? with
      | some b => pure b
      | none => failCaller (("invalid replacement value (a " : Bytes) ++ v.typeName ++ ")")
  match by_.joinText? with
  | some text => matching (expand m f text.data.toList .empty)
  | none =>
    match by_ with
    | .table _ =>
      let key ← matching (Pattern.capture m f 0)
      accept (← index by_ (captured key) none none)
    | _ => accept ((← call by_ (← captures m f) .library).headD .nil)

/-- Replaces matches from `pos` on; `count` have been replaced, and `left` more may be. -/
def replaceFrom (m : Pattern.Subject) (by_ : Value) (p : Nat) (anchored : Bool) :
    Nat → Nat → Nat → Nat → Option Nat → Bytes → Script (Bytes × Nat)
  | 0, _, pos, count, _, acc => pure (acc ++ m.text.extract pos m.text.size, count)
  | fuel + 1, left, pos, count, lastEnd, acc => do
    let finish : Script (Bytes × Nat) := pure (acc ++ m.text.extract pos m.text.size, count)
    let skip (acc : Bytes) (count : Nat) (lastEnd : Option Nat) : Script (Bytes × Nat) :=
      if pos < m.text.size && !anchored then
        replaceFrom m by_ p anchored fuel left (pos + 1) count lastEnd
          (acc.push (m.text.byteAt pos))
      else finish
    if left = 0 then finish
    else
      match ← matching (Pattern.matchAt m pos p) with
      | none => skip acc count lastEnd
      | some (e, caps) =>
        if lastEnd = some e then skip acc count lastEnd
        else
          let acc := acc ++ (← replacement m ⟨pos, e, caps⟩ by_)
          if anchored then pure (acc ++ m.text.extract e m.text.size, count + 1)
          else replaceFrom m by_ p anchored fuel (left - 1) e (count + 1) (some e) acc

def gsub (args : Arguments) : Script (List Value) := do
  let s ← args.bytes 1
  let p ← args.bytes 2
  let by_ := args.get 3
  let most ← args.intD 4 (.ofNat (s.size + 1))
  let fits := match by_ with
    | .number _ | .string _ | .table _ | .closure _ | .builtin _ => true
    | _ => false
  unless fits do args.refuseType 3 "string/function/table"
  let anchored := p.data[0]? == some (94 : UInt8)
  let (text, n) ← replaceFrom ⟨s, p⟩ by_ (if anchored then 1 else 0) anchored (2 * s.size + 3)
    most.toInt.toNat 0 0 none .empty
  return [.string text, .ofNat n]

def arith (op : ArithOp) (args : Arguments) : Script (List Value) := do
  let a := args.get 1
  let b := args.get 2
  match a.toNumber?, b.toNumber? with
  | some m, some n => return [← Script.arith op (.number m) (.number n) none none none]
  | _, _ =>
    let h ← match b with
      | .string _ => pure .nil
      | _ => metamethod b ("__" ++ op.event)
    if h.isNil then
      failCaller (("attempt to " : Bytes) ++ op.event ++ " a '" ++ a.typeName ++ "' with a '" ++
        b.typeName ++ "'")
    else return [(← call h [a, b] .library).headD .nil]

def run (f : StringFunction) (args : Arguments) : Script (List Value) :=
  match f with
  | .byte => byte args
  | .char => char args
  | .dump => dump args
  | .find => lookFor true args
  | .format => Formatting.format args
  | .gmatch => gmatch args
  | .gsub => gsub args
  | .len => do return [.ofNat (← args.bytes 1).size]
  | .lower => mapBytes args (·.map Ascii.toLower)
  | .match => lookFor false args
  | .pack => Packing.pack args
  | .packsize => Packing.packsize args
  | .rep => rep args
  | .reverse => mapBytes args List.reverse
  | .sub => sub args
  | .unpack => Packing.unpack args
  | .upper => mapBytes args (·.map Ascii.toUpper)

end LuaPages.Lua.Strings
