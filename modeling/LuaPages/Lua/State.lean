import LuaPages.Lua.Machine
import LuaPages.Lua.Library.Run

namespace LuaPages.Lua

structure State where
  store : Store
  parked : Array (Option Parked)

inductive ChunkError where
  | malformed (message : Bytes)
  | failed (text : Bytes)
  /-- A failure inside a conversion for `print`, with its text. -/
  | conversion (text : Bytes)
  | endless

namespace ChunkError

def text : ChunkError → Bytes
  | malformed m => ("syntax error: " : Bytes) ++ Utf8.lossy m
  | failed t => ("runtime error: " : Bytes) ++ Utf8.lossy t
  | conversion t => t
  | endless => "runtime error: endless"

def isSyntax : ChunkError → Bool
  | malformed _ => true
  | _ => false

def isIncomplete : ChunkError → Bool
  | malformed m => m.endsWith "<eof>" || m.endsWith "'<eof>'"
  | _ => false

end ChunkError

namespace State

def emptyStore : Store :=
  { tables := #[.create 0 64, .create 0 16, .create 0 16], closures := #[], cells := #[], failures := #[]
    threads := #[⟨.running, .nil⟩], cursors := #[], dumped := #[]
    active := .library [] ("", .empty) 0 0 false
    thread := mainThread, globals := 0, loaded := 1, stringMeta := 2
    printed := [], prints := 0, clock := 0, random := .ofSeeds 0x2545F4914F6CDD1D 0x9E3779B97F4A7C15 }

def withTable (s : Store) (id : Nat) (f : Table → Table) : Store :=
  { s with tables := s.tables.modify id f }

def newTable (s : Store) (t : Table) : Nat × Store :=
  (s.tables.size, { s with tables := s.tables.push t })

def modulePath : String :=
  "/usr/local/share/lua/5.4/?.lua;/usr/local/share/lua/5.4/?/init.lua;/usr/local/lib/lua/5.4/?.lua;" ++
  "/usr/local/lib/lua/5.4/?/init.lua;./?.lua;./?/init.lua"

def libraryPath : String :=
  "/usr/local/lib/lua/5.4/?.so;/usr/local/lib/lua/5.4/loadall.so;./?.so"

def constants : List (String × List (String × Value)) :=
  [("math", [("pi", .float Arithmetic.pi), ("huge", .float (.infinity false)),
      ("maxinteger", .int Int64.maxValue), ("mininteger", .int Int64.minValue)]),
   ("utf8", [("charpattern", .string Utf8Text.charPattern)]),
   ("_G", [("_VERSION", .text "Lua 5.4")]),
   ("package", [("path", .text modulePath), ("cpath", .text libraryPath),
      ("config", .text "/\n;\n?\n!\n-\n")])]

def addLibrary (s : Store) (name : String) (functions : List (String × Builtin)) : Store :=
  let (id, s) := if name = "_G" then (s.globals, s) else newTable s (.create 0 functions.length)
  let entries := functions.map fun e => (e.1, Value.builtin e.2)
  let extra := (constants.lookup name).getD []
  let s := withTable s id fun t => (entries ++ extra).foldl (fun t e => t.setText e.1 e.2) t
  let s := withTable s s.globals (·.setText name (.table id))
  withTable s s.loaded (·.setText name (.table id))

def libraryTable (s : Store) (name : String) : Value :=
  (s.tables.getD s.loaded default).getText name

def fresh : State :=
  let s := libraries.foldl (fun s l => addLibrary s l.1 l.2) emptyStore
  let s := withTable s s.stringMeta fun t =>
    let t := stringOperations.foldl (fun t e => t.setText e.1 (.builtin (.stringArith e.2))) t
    t.setText "__index" (libraryTable s "string")
  let (preload, s) := newTable s (.create 0 0)
  let (searchers, s) := newTable s (.create 0 0)
  let s := match libraryTable s "package" with
    | .table id => withTable s id fun t =>
      ((t.setText "loaded" (.table s.loaded)).setText "preload" (.table preload)).setText "searchers"
        (.table searchers)
    | _ => s
  ⟨s, #[]⟩

/-- More steps than any chunk that ends takes. -/
def stepLimit : Nat := 0x4000000000000000

def chunkError (s : Store) (e : Value) : ChunkError :=
  match e with
  | .failure id => .conversion (s.failures.getD id .empty)
  | .string t => .failed t
  | _ => .failed .empty

/-- Runs a program to its end; what it fails with is turned into text at the place of the error. -/
def perform (state : State) (task : Task) : State × Option ChunkError :=
  let program : Script Outcome := do
    match ← Script.ask task (.handled (.builtin .describe)) with
    | .ok flow => return .finish flow
    | .error e => Script.reraise e
  match Machine.run Builtin.run stepLimit ⟨[], [], state.parked⟩ (program state.store) with
  | none => (state, some .endless)
  | some r =>
    (⟨r.store, r.parked⟩, match r.result with | .ok _ => none | .error e => some (chunkError r.store e))

def entry : Site := ⟨none, none, true, false⟩

def loadChunk (state : State) (source code : Bytes) : Except Chunk.Fault Value × State :=
  match Chunk.load source code "bt" (.table state.store.globals) state.store with
  | .done r s => (r, { state with store := s })
  | _ => (.error .tooDeep, state)

def exec (state : State) (source code : Bytes) : State × Option ChunkError :=
  match state.loadChunk source code with
  | (.error .tooDeep, state) => (state, some (.failed Chunk.Fault.tooDeep.text))
  | (.error (.syntax_ m), state) => (state, some (.malformed m))
  | (.ok f, state) => state.perform (.call f [] entry)

def registerPrint (state : State) (sink : Nat) : State × Option ChunkError :=
  let serial := state.store.prints
  let state := { state with store := { state.store with prints := serial + 1 } }
  state.perform (.call (.builtin .assign)
    [.table state.store.globals, .text "print", .builtin (.print serial sink)] entry)

def takePrinted (state : State) : List (Nat × Bytes) × State :=
  (state.store.printed.reverse, { state with store := { state.store with printed := [] } })

end State

end LuaPages.Lua
