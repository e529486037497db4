import LuaPages.Lua.Table
import LuaPages.Lua.Random
/-!
What a running script can change, and the programs that change it. A program is a tree: it ends with
a result or an error, or it asks for another task to be run first. Who runs it decides what a task
does, so evaluation and library functions need to know nothing of calls, threads or error recovery.
-/
namespace LuaPages.Lua

structure Position where
  chunk : Bytes
  line : Nat

/-- The place of an operation; library functions have none. -/
abbrev Origin := Option Position

/-- How a function is called: from where, under which name, whether through a library function or
an operation (which is `nested` in it), and whether it may yield. -/
structure Site where
  origin : Origin
  name : Option (String × Bytes)
  nested : Bool
  yields : Bool

def Site.library : Site := ⟨none, none, true, false⟩

def Site.waiting : Site := ⟨none, none, true, true⟩

structure Closure where
  code : Function
  upvalues : Array Nat

/-- What the running function needs. A slot holds its value, or the number of its cell if inner
functions refer to it. `trace` has the place of each call that is under way, the latest first;
`depth` counts calls, and `nesting` those that library functions or operations make. -/
structure Activation where
  code : Function
  slots : Array Value
  cells : Array Nat
  upvalues : Array Nat
  varargs : List Value
  trace : List Origin
  name : String × Bytes
  depth : Nat
  nesting : Nat
  yieldable : Bool

inductive ThreadStatus where
  | suspended
  | running
  | normal
  | dead
  deriving DecidableEq, Inhabited

structure Thread where
  status : ThreadStatus
  body : Value
  deriving Inhabited

def Activation.library (trace : List Origin) (name : String × Bytes) (depth nesting : Nat)
    (yieldable : Bool) : Activation :=
  ⟨.mk ⟨.empty, 0, true, 0, #[], #[]⟩ [], #[], #[], #[], [], trace, name, depth, nesting, yieldable⟩

structure MatchCursor where
  text : Bytes
  pattern : Bytes
  start : Nat
  lastEnd : Option Nat

structure Store where
  tables : Array Table
  closures : Array Closure
  cells : Array Value
  failures : Array Bytes
  threads : Array Thread
  cursors : Array MatchCursor
  dumped : Array Function
  active : Activation
  thread : Nat
  globals : Nat
  loaded : Nat
  stringMeta : Nat
  /-- Printed lines with their sinks, the latest first. -/
  printed : List (Nat × Bytes)
  prints : Nat
  /-- Processor time used, in units of a tenth of a millisecond. -/
  clock : Nat
  random : Random

def mainThread : Nat := 0

inductive Flow where
  | next
  | «break»
  | goto (label : Bytes)
  | «return» (values : List Value)
  | tail (f : Value) (args : List Value) (site : Site)
  | killed

inductive Job where
  /-- What is left of a statement list, with the whole list, in which labels are looked up. -/
  | block (body rest : List Stat)
  | «while» (cond : Expr) (body : List Stat)
  | «repeat» (body : List Stat)
  /-- Counts on from `i`, in `left` more turns after this one. -/
  | count (slot : Nat) (i step : Int64) (left : Nat) (body : List Stat)
  | countFloat (slot : Nat) (x limit step : Binary64) (body : List Stat)
  | iterate (slots : List Nat) (f state control : Value) (body : List Stat) (line : Nat)

inductive Task where
  | call (f : Value) (args : List Value) (site : Site)
  | job (j : Job)
  | resume (thread : Nat) (args : List Value)
  | close (thread : Nat)

inductive Catch where
  | never
  | always
  /-- Like `always`, after the error has gone through a handler. -/
  | handled (handler : Value)
  /-- The asker is told so that it can close variables, and has to fail or go on leaving. -/
  | closing
  deriving DecidableEq

/-- A program with results in `α`. `fail` tells whether a handler has seen the error. -/
inductive Prog (α : Type) where
  | done (a : α) (s : Store)
  | fail (e : Value) (handled : Bool) (s : Store)
  | ask (task : Task) (c : Catch) (s : Store) (k : Except Value Flow → Store → Prog α)
  | yield (vs : List Value) (s : Store) (k : List Value → Store → Prog α)

namespace Prog

variable {α β : Type}

def bind : Prog α → (α → Store → Prog β) → Prog β
  | .done a s, f => f a s
  | .fail e h s, _ => .fail e h s
  | .ask t c s k, f => .ask t c s fun r s => (k r s).bind f
  | .yield vs s k, f => .yield vs s fun vs s => (k vs s).bind f

end Prog

def Script (α : Type) := Store → Prog α

namespace Script

variable {α β : Type}

@[inline] protected def pure (a : α) : Script α := fun s => .done a s

@[inline] protected def bind (x : Script α) (f : α → Script β) : Script β := fun s =>
  match x s with
  | .done a s => f a s
  | p => p.bind f

instance : Monad Script where
  pure := Script.pure
  bind := Script.bind

def raise (e : Value) : Script α := fun s => .fail e false s

def reraise (e : Value) : Script α := fun s => .fail e true s

@[inline] def read (f : Store → α) : Script α := fun s => .done (f s) s

@[inline] def change (f : Store → Store) : Script Unit := fun s => .done () (f s)

@[inline] def update (f : Store → α × Store) : Script α := fun s =>
  match f s with
  | (a, s) => .done a s

def ask (t : Task) (c : Catch) : Script (Except Value Flow) := fun s => .ask t c s fun r s => .done r s

def run (t : Task) : Script Flow := fun s => .ask t .never s fun r s =>
  match r with
  | .ok f => .done f s
  | .error e => .fail e true s

def yield (vs : List Value) : Script (List Value) := fun s => .yield vs s fun vs s => .done vs s

end Script

def Flow.values : Flow → List Value
  | .return vs => vs
  | _ => []

/-- The result of a task's program: its flow, or a task that takes its place. -/
inductive Outcome where
  | finish (f : Flow)
  | again (t : Task)

end LuaPages.Lua
