import LuaPages.Lua.Parser
import LuaPages.Lua.Operation

namespace LuaPages.Lua.Chunk

def nameLimit : Nat := 59

/-- How a chunk is named: after `=` or `@` by what follows, else by the first line of its text. -/
def displayName (source : Bytes) : Bytes :=
  let rest := source.extract 1 source.size
  match (source.data[0]? : Option UInt8) with
  | some 61 => rest.extract 0 nameLimit
  | some 64 =>
    if rest.size ≤ nameLimit then rest
    else ("..." : Bytes) ++ rest.extract (rest.size - (nameLimit - 3)) rest.size
  | _ =>
    let line := source.data.toList.takeWhile (· != 10)
    let room := nameLimit - "[string \"...\"]".length
    let whole := line.length = source.size && source.size ≤ room
    let shown := Bytes.ofList (line.take room)
    ("[string \"" : Bytes) ++ shown ++ (if whole then "\"]" else "...\"]" : String)

def binaryMark : UInt8 := 27

/-- What a dumped function starts with: the mark, a name, the version, the format, test data, and
the sizes of instructions and numbers with one number of each kind. -/
def header : List UInt8 :=
  [27, 76, 117, 97, 0x54, 0, 0x19, 0x93, 13, 10, 0x1a, 10, 4, 8, 8,
   0x78, 0x56, 0, 0, 0, 0, 0, 0, 0, 0, 0, 0, 0, 0x28, 0x77, 0x40]

/-- A dumped function: the header and the number that the store keeps it under. -/
def dump (id : Nat) : Bytes :=
  .ofList (header ++ (List.range 8).map fun i => UInt8.ofNat (id >>> (8 * i)))

def headerFault (i : Nat) : String :=
  if i < 4 then "not a binary chunk"
  else if i < 5 then "version mismatch"
  else if i < 6 then "format mismatch"
  else if i < 12 then "corrupted chunk"
  else if i < 13 then "Instruction size mismatch"
  else if i < 14 then "lua_Integer size mismatch"
  else if i < 15 then "lua_Number size mismatch"
  else if i < 23 then "integer format mismatch"
  else "float format mismatch"

def headerParts : List Nat := [4, 1, 1, 6, 1, 1, 1, 8, 8]

def checkHeader (text : Bytes) : List Nat → Nat → Except String Unit
  | [], _ => .ok ()
  | n :: ns, i =>
    if text.size < i + n then .error "truncated chunk"
    else if (text.extract i (i + n)).data.toList = (header.drop i).take n then checkHeader text ns (i + n)
    else .error (headerFault i)

def dumped? (text : Bytes) : Except String Nat := do
  checkHeader text headerParts 0
  let rest := text.extract header.length text.size
  if rest.size < 8 then .error "truncated chunk"
  else .ok (rest.data.toList.foldr (fun b n => n * 256 + b.toNat) 0)

def binaryName (source : Bytes) : Bytes :=
  match (source.data[0]? : Option UInt8) with
  | some 61 | some 64 => source.extract 1 source.size
  | some 27 => "binary string"
  | _ => source

inductive Fault where
  | syntax_ (message : Bytes)
  | tooDeep

def Fault.text : Fault → Bytes
  | .syntax_ m => m
  | .tooDeep => "C stack overflow"

def message (name : Bytes) (f : SyntaxFault) : Bytes :=
  let near := match f.near with
    | some t => (" near " : Bytes) ++ t
    | none => .empty
  name ++ ":" ++ Bytes.ofNat f.line ++ ": " ++ f.message ++ near

def closureOf (code : Function) (globals : Value) : Script Value := do
  let n := code.info.upvalues.size
  let cells ← (List.range n).mapM fun i => Script.newCell (if i = 0 then globals else .nil)
  Script.newClosure ⟨code, cells.toArray⟩

def load (source text mode : Bytes) (globals : Value) : Script (Except Fault Value) := do
  let name := displayName source
  let binary := text.data[0]? == some binaryMark
  let letter : UInt8 := if binary then 98 else 116
  if !mode.data.contains letter then
    let kind : String := if binary then "binary" else "text"
    return .error (.syntax_
      (("attempt to load a " : Bytes) ++ kind ++ " chunk (mode is '" ++ mode ++ "')"))
  else if binary then
    let kept ← Script.read fun s => s.dumped
    match dumped? text with
    | .error why => return .error (.syntax_ (binaryName source ++ ": bad binary format (" ++ why ++ ")"))
    | .ok id =>
      match kept[id]? with
      | none => return .error (.syntax_ (binaryName source ++ ": bad binary format (truncated chunk)"))
      | some code => return .ok (← closureOf code globals)
  else
    let depth ← Script.read fun s => s.active.nesting
    match parseChunk name depth text with
    | .ok code => return .ok (← closureOf code globals)
    | .error .tooDeep => return .error .tooDeep
    | .error (.malformed f) => return .error (.syntax_ (message name f))

end LuaPages.Lua.Chunk
