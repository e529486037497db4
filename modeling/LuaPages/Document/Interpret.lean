import LuaPages.Document.Expansion
import LuaPages.Sinks
import LuaPages.Sessions
import LuaPages.Lua.State

namespace LuaPages.Document

/-- Regions are named so in messages; their lines count from the start of the region. -/
def regionName : Bytes := "=region"

def pageSink : Nat := 0

def newState : Lua.State := (Lua.State.fresh.registerPrint pageSink).1

def runRegion : Behaviour Lua.State Lua.ChunkError := fun state chunk =>
  let (state, e) := state.exec regionName chunk
  let (printed, state) := state.takePrinted
  (state, printed.foldl (fun acc p => if p.1 = pageSink then acc ++ p.2 else acc) .empty, e)

/-- The script language as an interpreter that prints into sinks. -/
def printer : Printer Lua.State Lua.ChunkError :=
  let settle (r : Lua.State × Option Lua.ChunkError) : Printed Lua.State Lua.ChunkError :=
    let (printed, state) := r.1.takePrinted
    ⟨state, printed, r.2⟩
  { initial := Lua.State.fresh
    register := fun state sink => settle (state.registerPrint sink)
    exec := fun state code => settle (state.exec regionName code) }

def runSessions (steps : List SessionStep) : List (SessionAnswer Lua.ChunkError) :=
  Sessions.run newState runRegion [] steps

def runSinks (steps : List SinkStep) : List (SinkAnswer Lua.ChunkError) :=
  Sinks.run printer .empty steps

inductive Error where
  | script (line : Nat) (message : Bytes) (isSyntax : Bool)
  | refused

def Failure.toError : Failure Lua.ChunkError → Error
  | .script line e => .script line e.text e.isSyntax
  | .refused => .refused

def refusedMessage : String := "consumer closed"

def Error.message : Error → Bytes
  | .script line m _ => ("Interpreter error (line " : Bytes) ++ Bytes.ofNat line ++ "): " ++ m
  | .refused => refusedMessage

structure Result where
  out : Destination
  clock : Nat
  error : Option Error

def interpret (doc : Bytes) (out : Destination) : Result :=
  let (x, f) := Expansion.run runRegion newState doc out
  ⟨x.out, x.session.state.store.clock, f.map Failure.toError⟩

def render (doc : Bytes) : Except Error Bytes :=
  let r := interpret doc .unlimited
  match r.error with
  | none => .ok r.out.written
  | some e => .error e

end LuaPages.Document
