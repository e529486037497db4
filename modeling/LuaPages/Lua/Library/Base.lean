import LuaPages.Lua.Library.Arguments
import LuaPages.Lua.Chunk

namespace LuaPages.Lua.Base

open Script

/-- Puts the place of a caller before a text; `level` 1 is the closest one. -/
def located (v : Value) (level : Int64) : Script Value := do
  match v with
  | .string s =>
    if 0 < level then
      let calls ← read fun s => s.active.trace
      let o := calls.getD (level.toInt.toNat - 1) none
      return .string (o.text ++ s)
    else return v
  | _ => return v

def error (args : Arguments) : Script (List Value) := do
  let level ← args.intD 2 1
  raise (← located (args.get 1) level)

def assert (args : Arguments) : Script (List Value) := do
  if (args.get 1).truthy then return args
  let _ ← args.any 1
  raise (← located ((args.at? 2).getD (.text "assertion failed!")) 1)

def collectgarbage (args : Arguments) : Script (List Value) := do
  let what ← args.option 1 "collect"
    ["stop", "restart", "collect", "count", "step", "setpause", "setstepmul", "isrunning",
     "generational", "incremental"]
  match what with
  | "count" =>
    let n ← read fun s => s.tables.size + s.closures.size + s.cells.size
    return [.float ((Binary64.ofInt (22 * 1024 + 48 * n)).div (.ofInt 1024))]
  | "step" | "isrunning" => return [.bool true]
  | "setpause" => return [.int 200]
  | "setstepmul" => return [.int 100]
  | "generational" | "incremental" => return [.text "incremental"]
  | _ => return [.int 0]

def openFailure (name : Bytes) : Bytes :=
  ("cannot open " : Bytes) ++ name ++ ": No such file or directory"

def dofile (args : Arguments) : Script (List Value) := do
  raise (.string (openFailure (← args.bytesD 1 "stdin")))

def loadfile (args : Arguments) : Script (List Value) := do
  return [.nil, .string (openFailure (← args.bytesD 1 "stdin"))]

def getmetatable (args : Arguments) : Script (List Value) := do
  match ← args.any 1 with
  | .failure _ => return [.bool false]
  | v =>
    match ← metatable? v with
    | none => return [.nil]
    | some m =>
      let shown ← ofTable m (·.getText "__metatable")
      return [if shown.isNil then .table m else shown]

def setmetatable (args : Arguments) : Script (List Value) := do
  let id ← args.table 1
  let m ← match args.at? 2 with
    | some .nil => pure none
    | some (.table m) => pure (some m)
    | _ => args.refuseType 2 "nil or table"
  unless (← metamethod (.table id) "__metatable").isNil do
    failCaller "cannot change a protected metatable"
  changeTable id fun t => { t with metatable := m }
  return [.table id]

def ipairs (args : Arguments) : Script (List Value) := do
  return [.builtin .ipairsStep, ← args.any 1, .int 0]

def ipairsStep (args : Arguments) : Script (List Value) := do
  let i := (← args.int 2) + 1
  let v ← index (args.get 1) (.int i) none none
  return if v.isNil then [.nil] else [.int i, v]

def next (args : Arguments) : Script (List Value) := do
  match ← ofTable (← args.table 1) (·.next (args.get 2)) with
  | none => failAt none "invalid key to 'next'"
  | some none => return [.nil]
  | some (some (k, v)) => return [k, v]

def pairs (args : Arguments) : Script (List Value) := do
  let v ← args.any 1
  let h ← metamethod v "__pairs"
  if h.isNil then return [.builtin (.base .next), v, .nil]
  else
    let vs ← call h [v] .waiting
    return [vs.getD 0 .nil, vs.getD 1 .nil, vs.getD 2 .nil]

def protectedResults : Except Value Flow → List Value
  | .ok flow => .bool true :: flow.values
  | .error e => [.bool false, e]

def pcall (args : Arguments) : Script (List Value) := do
  let f ← args.any 1
  return protectedResults (← ask (.call f (args.drop 1) .waiting) .always)

def xpcall (args : Arguments) : Script (List Value) := do
  let h ← args.function 2
  return protectedResults (← ask (.call (args.get 1) (args.drop 2) .waiting) (.handled h))

def rawequal (args : Arguments) : Script (List Value) := do
  let a ← args.any 1
  return [.bool (a.rawEqual (← args.any 2))]

def rawget (args : Arguments) : Script (List Value) := do
  let id ← args.table 1
  let key ← args.any 2
  return [← ofTable id (·.get key)]

def rawset (args : Arguments) : Script (List Value) := do
  let id ← args.table 1
  let key ← args.any 2
  let value ← args.any 3
  rawSet id key value none
  return [.table id]

def rawlen (args : Arguments) : Script (List Value) := do
  match args.get 1 with
  | .table id => return [.ofNat (← ofTable id (·.length))]
  | .string s => return [.ofNat s.size]
  | _ => args.refuseType 1 "table or string"

def select (args : Arguments) : Script (List Value) := do
  let n := args.length
  match args.get 1 with
  | .string s =>
    if s.data[0]? == some (35 : UInt8) then return [.ofNat (n - 1)] else byIndex n
  | _ => byIndex n
where
  byIndex (n : Nat) : Script (List Value) := do
    let i := (← args.int 1).toInt
    let i := if i < 0 then (n : Int) + i else min i n
    Arguments.require (1 ≤ i) 1 "index out of range"
    return args.drop i.toNat

def digitsInBase? (base : Nat) (s : List UInt8) : Option Int64 :=
  let (negative, r) := match Numeral.skipSpaces s with
    | 45 :: r => (true, r)
    | r => (false, r)
  let isDigit (b : UInt8) : Bool := Ascii.isAlnum b && Ascii.digitValue b < base
  let (v, n, r) := Numeral.digits base isDigit r 0 0
  if n = 0 || !(Numeral.skipSpaces r).isEmpty then none
  else some (.ofInt (if negative then -(v : Int) else v))

def tonumber (args : Arguments) : Script (List Value) := do
  if args.isAbsent 2 then
    match args.get 1 with
    | .number n => return [.number n]
    | .string s => return [match Numeral.ofBytes? s with | some n => .number n | none => .nil]
    | _ =>
      let _ ← args.any 1
      return [.nil]
  else
    let base ← args.int 2
    match args.get 1 with
    | .string s =>
      Arguments.require (2 ≤ base && base ≤ 36) 2 "base out of range"
      return [match digitsInBase? base.toInt.toNat s.data.toList with | some n => .int n | none => .nil]
    | _ => args.refuseType 1 "string"

def tostring (args : Arguments) : Script (List Value) := do
  return [.string (← display (← args.any 1))]

def type (args : Arguments) : Script (List Value) := do
  return [.text (← args.any 1).typeName]

/-- Checks that all arguments are texts; nothing shows warnings. -/
def warn (args : Arguments) : Script (List Value) := do
  let _ ← args.bytes 1
  for i in List.range args.length do
    let _ ← args.bytes (i + 1)
  return []

/-- The pieces of a chunk that a function gives, up to an empty one; `fuel` bounds their number. -/
def gather (f : Value) : Nat → Bytes → Script (Except Value Bytes)
  | 0, acc => pure (.ok acc)
  | fuel + 1, acc => do
    match ← ask (.call f [] .library) .always with
    | .error e => return .error e
    | .ok flow =>
      match flow.values.headD .nil with
      | .nil => return .ok acc
      | v =>
        match v.joinText? with
        | some s => if s.isEmpty then return .ok acc else gather f fuel (acc ++ s)
        | none => return .error (.text "reader function must return a string")

def load (args : Arguments) : Script (List Value) := do
  let mode ← args.bytesD 3 "bt"
  let globals ← match args.at? 4 with
    | some v => pure v
    | none => read fun s => Value.table s.globals
  let finish (r : Except Chunk.Fault Value) : List Value :=
    match r with
    | .ok f => [f]
    | .error f => [.nil, .string f.text]
  match (args.get 1).joinText? with
  | some text =>
    let source ← args.bytesD 2 text
    return finish (← Chunk.load source text mode globals)
  | none =>
    let source ← args.bytesD 2 "=(load)"
    let f ← args.function 1
    match ← gather f UInt32.size .empty with
    | .error e => return [.nil, e]
    | .ok text => return finish (← Chunk.load source text mode globals)

/-- The places of a module by a list of templates, none of which has a file. In a name, points part
directories; in a template, a question mark stands for the name. -/
def missingFiles (path name : Bytes) : Bytes :=
  let directories := name.data.toList.map fun b => if b == 46 then 47 else b
  let texts := path.data.toList.map fun b =>
    if b == 59 then "'\n\tno file '".toUTF8 else if b == 63 then Bytes.ofList directories else Bytes.singleton b
  ("no file '" : Bytes) ++ texts.foldl (· ++ ·) .empty ++ "'"

def require (args : Arguments) : Script (List Value) := do
  let name ← args.bytes 1
  let loaded ← read fun s => s.loaded
  let found ← ofTable loaded (·.get (.string name))
  if found.truthy then return [found]
  let (preload, path) ← match ← ofTable loaded (·.getText "package") with
    | .table p => ofTable p fun t => (t.getText "preload", t.getText "path")
    | _ => pure (.nil, .nil)
  let path : Bytes ← match path with
    | .string p => pure p
    | _ => failCaller "'package.path' must be a string"
  let notFound : Bytes :=
    ("module '" : Bytes) ++ name ++ "' not found:\n\tno field package.preload['" ++ name ++ "']\n\t" ++
      missingFiles path name ++ "\n\t\n\tcan't load C modules in safe mode"
  match preload with
  | .table p =>
    let loader ← ofTable p (·.get (.string name))
    if loader.isNil then failCaller notFound
    let source := Value.text ":preload:"
    let made := (← call loader [.string name, source] .library).headD .nil
    unless made.isNil do changeTable loaded (·.set (.string name) made)
    let kept ← ofTable loaded (·.get (.string name))
    let kept ← if kept.isNil then do
        changeTable loaded (·.set (.string name) (.bool true))
        pure (.bool true)
      else pure kept
    return [kept, source]
  | _ => failCaller notFound

def run (f : BaseFunction) (args : Arguments) : Script (List Value) :=
  match f with
  | .assert => assert args
  | .collectgarbage => collectgarbage args
  | .dofile => dofile args
  | .error => error args
  | .getmetatable => getmetatable args
  | .ipairs => ipairs args
  | .load => load args
  | .loadfile => loadfile args
  | .next => next args
  | .pairs => pairs args
  | .pcall => pcall args
  | .rawequal => rawequal args
  | .rawget => rawget args
  | .rawlen => rawlen args
  | .rawset => rawset args
  | .require => require args
  | .select => select args
  | .setmetatable => setmetatable args
  | .tonumber => tonumber args
  | .tostring => tostring args
  | .type => type args
  | .warn => warn args
  | .xpcall => xpcall args

end LuaPages.Lua.Base
