import LuaPages.Lua.Numeral

namespace LuaPages.Lua.Pattern

open Bytes (byteAt)

inductive Extent where
  | unfinished
  | position
  | closed (length : Nat)
  deriving DecidableEq, Inhabited

structure Capture where
  start : Nat
  extent : Extent
  deriving Inhabited

structure Subject where
  text : Bytes
  pattern : Bytes

/-- The end of a match with its captures, or none; or a fault in the pattern. -/
abbrev Match := Except String (Option (Nat × Array Capture))

def depthLimit : Nat := 200

def captureLimit : Nat := 32

def escapeMark : UInt8 := 37

def matchClass (c cl : UInt8) : Bool :=
  let holds := match Ascii.toLower cl with
    | 97 => some (Ascii.isAlpha c)
    | 99 => some (Ascii.isControl c)
    | 100 => some (Ascii.isDigit c)
    | 103 => some (Ascii.isPrintable c && c != 32)
    | 108 => some (Ascii.isLower c)
    | 112 => some (Ascii.isPunctuation c)
    | 115 => some (Ascii.isSpace c)
    | 117 => some (Ascii.isUpper c)
    | 119 => some (Ascii.isAlnum c)
    | 120 => some (Ascii.isHexDigit c)
    | _ => none
  match holds with
  | some b => if Ascii.isUpper cl then !b else b
  | none => cl == c

/-- The end of a set whose members start at `p`; at least one member precedes the bracket. -/
def setEnd (pattern : Bytes) : Nat → Nat → Except String Nat
  | 0, _ => .error "malformed pattern (missing ']')"
  | fuel + 1, p =>
    if pattern.size ≤ p then .error "malformed pattern (missing ']')"
    else
      let q := if byteAt pattern p == escapeMark && p + 1 < pattern.size then p + 2 else p + 1
      if q < pattern.size && byteAt pattern q == 93 then .ok (q + 1) else setEnd pattern fuel q

def itemEnd (pattern : Bytes) (p : Nat) : Except String Nat :=
  let c := byteAt pattern p
  if c == escapeMark then
    if pattern.size ≤ p + 1 then .error "malformed pattern (ends with '%')" else .ok (p + 2)
  else if c == 91 then
    setEnd pattern (pattern.size + 1) (if byteAt pattern (p + 1) == 94 then p + 2 else p + 1)
  else .ok (p + 1)

def inMembers (pattern : Bytes) (c : UInt8) (last : Nat) : Nat → Nat → Bool
  | 0, _ => false
  | fuel + 1, p =>
    if last ≤ p then false
    else
      let b := byteAt pattern p
      if b == escapeMark then
        matchClass c (byteAt pattern (p + 1)) || inMembers pattern c last fuel (p + 2)
      else if byteAt pattern (p + 1) == 45 && p + 2 < last then
        (b ≤ c && c ≤ byteAt pattern (p + 2)) || inMembers pattern c last fuel (p + 3)
      else b == c || inMembers pattern c last fuel (p + 1)

def inSet (pattern : Bytes) (c : UInt8) (p last : Nat) : Bool :=
  if byteAt pattern (p + 1) == 94 then !inMembers pattern c last pattern.size (p + 2)
  else inMembers pattern c last pattern.size (p + 1)

def fits (m : Subject) (s p e : Nat) : Bool :=
  if m.text.size ≤ s then false
  else
    let c := byteAt m.text s
    let b := byteAt m.pattern p
    if b == 46 then true
    else if b == escapeMark then matchClass c (byteAt m.pattern (p + 1))
    else if b == 91 then inSet m.pattern c p (e - 1)
    else b == c

def countFits (m : Subject) (p e : Nat) : Nat → Nat → Nat
  | 0, _ => 0
  | fuel + 1, s => if fits m s p e then countFits m p e fuel (s + 1) + 1 else 0

def tryDown (k : Nat → Match) (s : Nat) : Nat → Match
  | 0 => k s
  | i + 1 => do
    match ← k (s + (i + 1)) with
    | some r => .ok (some r)
    | none => tryDown k s i

def tryUp (k : Nat → Match) (more : Nat → Bool) : Nat → Nat → Match
  | 0, s => k s
  | fuel + 1, s => do
    match ← k s with
    | some r => .ok (some r)
    | none => if more s then tryUp k more fuel (s + 1) else .ok none

def balancedEnd (text : Bytes) (opening closing : UInt8) : Nat → Nat → Nat → Option Nat
  | 0, _, _ => none
  | fuel + 1, s, depth =>
    if text.size ≤ s then none
    else if byteAt text s == closing then
      if depth = 1 then some (s + 1) else balancedEnd text opening closing fuel (s + 1) (depth - 1)
    else if byteAt text s == opening then balancedEnd text opening closing fuel (s + 1) (depth + 1)
    else balancedEnd text opening closing fuel (s + 1) depth

def openCapture? (caps : Array Capture) : Option Nat :=
  ((List.range caps.size).reverse).find? fun i => (caps.getD i default).extent = .unfinished

def backReference (caps : Array Capture) (d : UInt8) : Except String Capture :=
  let fault := .error ("invalid capture index %" ++ toString ((d.toNat : Int) - 48))
  match d.toNat - 49 < caps.size && 49 ≤ d.toNat, caps[d.toNat - 49]? with
  | true, some c => if c.extent = .unfinished then fault else .ok c
  | _, _ => fault

/-- Matches the pattern from `p` on with the text from `s` on. Each step moves on in the pattern, so
`fuel` above what is left of it never runs out. -/
def matchFrom (m : Subject) : Nat → Nat → Nat → Nat → Array Capture → Match
  | 0, _, _, _, _ => .ok none
  | fuel + 1, depth, s, p, caps =>
    let nest (s p : Nat) (caps : Array Capture) : Match :=
      if depth + 1 = depthLimit then .error "pattern too complex"
      else matchFrom m fuel (depth + 1) s p caps
    let goOn (s p : Nat) : Match := matchFrom m fuel depth s p caps
    let single : Match := do
      let e ← itemEnd m.pattern p
      let suffix := byteAt m.pattern e
      if fits m s p e then
        if suffix == 63 then
          match ← nest (s + 1) (e + 1) caps with
          | some r => .ok (some r)
          | none => goOn s (e + 1)
        else if suffix == 43 then
          tryDown (fun s => nest s (e + 1) caps) (s + 1) (countFits m p e m.text.size (s + 1))
        else if suffix == 42 then
          tryDown (fun s => nest s (e + 1) caps) s (countFits m p e m.text.size s)
        else if suffix == 45 then
          tryUp (fun s => nest s (e + 1) caps) (fun s => fits m s p e) (m.text.size + 1) s
        else goOn (s + 1) e
      else if suffix == 42 || suffix == 63 || suffix == 45 then goOn s (e + 1)
      else .ok none
    if m.pattern.size ≤ p then .ok (some (s, caps))
    else
      let c := byteAt m.pattern p
      if c == 40 then
        let start (extent : Extent) (p : Nat) : Match :=
          if captureLimit ≤ caps.size then .error "too many captures"
          else nest s p (caps.push ⟨s, extent⟩)
        if byteAt m.pattern (p + 1) == 41 then start .position (p + 2) else start .unfinished (p + 1)
      else if c == 41 then
        match openCapture? caps with
        | none => .error "invalid pattern capture"
        | some i => nest s (p + 1) (caps.modify i fun c => { c with extent := .closed (s - c.start) })
      else if c == 36 && p + 1 = m.pattern.size then
        .ok (if s = m.text.size then some (s, caps) else none)
      else if c == escapeMark && p + 1 < m.pattern.size then
        let d := byteAt m.pattern (p + 1)
        if d == 98 then
          if m.pattern.size < p + 4 then .error "malformed pattern (missing arguments to '%b')"
          else if m.text.size ≤ s || byteAt m.text s != byteAt m.pattern (p + 2) then .ok none
          else
            match balancedEnd m.text (byteAt m.pattern (p + 2)) (byteAt m.pattern (p + 3))
                (m.text.size + 1) (s + 1) 1 with
            | some s => goOn s (p + 4)
            | none => .ok none
        else if d == 102 then
          if byteAt m.pattern (p + 2) != 91 then .error "missing '[' after '%f' in pattern"
          else do
            let e ← itemEnd m.pattern (p + 2)
            let before := if s = 0 then 0 else byteAt m.text (s - 1)
            if !inSet m.pattern before (p + 2) (e - 1) && inSet m.pattern (byteAt m.text s) (p + 2) (e - 1) then
              goOn s e
            else .ok none
        else if Ascii.isDigit d then do
          let c ← backReference caps d
          match c.extent with
          | .closed n =>
            if n ≤ m.text.size - s && m.text.extract c.start (c.start + n) == m.text.extract s (s + n) then
              goOn (s + n) (p + 2)
            else .ok none
          | _ => .ok none
        else single
      else single

def matchAt (m : Subject) (s p : Nat) : Match := matchFrom m (m.pattern.size + 2) 0 s p #[]

structure Found where
  start : Nat
  stop : Nat
  captures : Array Capture

/-- The first match at or after `s` that does not end at `lastEnd`. -/
def searchFrom (m : Subject) (p : Nat) (anchored : Bool) (lastEnd : Option Nat) :
    Nat → Nat → Except String (Option Found)
  | 0, _ => .ok none
  | fuel + 1, s => do
    match ← matchAt m s p with
    | some (e, caps) =>
      if lastEnd ≠ some e then return some ⟨s, e, caps⟩
      else if anchored then return none
      else searchFrom m p anchored lastEnd fuel (s + 1)
    | none => if anchored then return none else searchFrom m p anchored lastEnd fuel (s + 1)

def search (m : Subject) (p : Nat) (anchored : Bool) (lastEnd : Option Nat) (s : Nat) :
    Except String (Option Found) :=
  searchFrom m p anchored lastEnd (m.text.size + 1 - s) s

/-- Whether a pattern has none of the bytes that make it more than a text. A closing bracket alone
is not one of them. -/
def isPlain (pattern : Bytes) : Bool :=
  pattern.data.all fun b => !([94, 36, 42, 43, 63, 46, 40, 91, 37, 45] : List UInt8).contains b

inductive Captured where
  | text (b : Bytes)
  | position (n : Nat)

/-- Capture `i` of a match; a match without captures has itself as its only one. -/
def capture (m : Subject) (f : Found) (i : Nat) : Except String Captured :=
  match f.captures[i]? with
  | some c =>
    match c.extent with
    | .closed n => .ok (.text (m.text.extract c.start (c.start + n)))
    | .position => .ok (.position (c.start + 1))
    | .unfinished => .error "unfinished capture"
  | none =>
    if i = 0 then .ok (.text (m.text.extract f.start f.stop))
    else .error ("invalid capture index %" ++ toString (i + 1) ++ " in replacement string")

def captures (m : Subject) (f : Found) : Except String (List Captured) :=
  (List.range (max f.captures.size 1)).mapM (capture m f)

end LuaPages.Lua.Pattern
