import LuaPages.Lua.Library.Base

namespace LuaPages.Lua.Threads

open Script

def thread (args : Arguments) (i : Nat) : Script Nat :=
  match args.get i with
  | .thread id => pure id
  | _ => args.refuseType i "coroutine"

def status (id : Nat) : Script ThreadStatus := read fun s => (s.threads.getD id default).status

def statusText : ThreadStatus → String
  | .suspended => "suspended"
  | .running => "running"
  | .normal => "normal"
  | .dead => "dead"

def create (args : Arguments) : Script Nat := do
  let f ← args.function 1
  update fun s => (s.threads.size, { s with threads := s.threads.push ⟨.suspended, f⟩ })

def resume (id : Nat) (args : List Value) : Script (Except Value (List Value)) := do
  match ← status id with
  | .suspended =>
    let nesting ← read fun s => s.active.nesting
    if 198 ≤ nesting then return .error (.text "C stack overflow")
    return (← ask (.resume id args) .always).map Flow.values
  | .dead => return .error (.text "cannot resume dead coroutine")
  | _ => return .error (.text "cannot resume non-suspended coroutine")

/-- Closes the variables of a thread that does not run; gives the error that remains. -/
def finish (id : Nat) : Script (Option Value) := do
  match ← ask (.close id) .always with
  | .ok _ => return none
  | .error e => return some e

def close (args : Arguments) : Script (List Value) := do
  let id ← thread args 1
  match ← status id with
  | .suspended | .dead =>
    match ← finish id with
    | none => return [.bool true]
    | some e => return [.bool false, e]
  | s => failCaller (("cannot close a " : Bytes) ++ statusText s ++ " coroutine")

/-- Resumes a thread; its errors are those of the call, with the place of the call before a text. -/
def wrapped (id : Nat) (args : Arguments) : Script (List Value) := do
  let before ← status id
  match ← resume id args with
  | .ok vs => return vs
  | .error e =>
    let e ← match before, ← status id with
      | .suspended, .dead => (·.getD e) <$> finish id
      | _, _ => pure e
    raise (← Base.located e 1)

def yield (args : Arguments) : Script (List Value) := do
  let (current, allowed) ← read fun s => (s.thread, s.active.yieldable)
  if current = mainThread then failAt none "attempt to yield from outside a coroutine"
  else if !allowed then failAt none "attempt to yield across a C-call boundary"
  else Script.yield args

def run (f : CoroutineFunction) (args : Arguments) : Script (List Value) :=
  match f with
  | .close => close args
  | .create => do return [.thread (← create args)]
  | .isyieldable => do
    let current ← read fun s => s.thread
    let id ← if args.isEmpty then pure current else thread args 1
    if id = current then return [.bool (← read fun s => s.active.yieldable)]
    else return [.bool (id ≠ mainThread)]
  | .resume => do
    let id ← thread args 1
    match ← resume id (args.drop 1) with
    | .ok vs => return .bool true :: vs
    | .error e => return [.bool false, e]
  | .running => do
    let id ← read fun s => s.thread
    return [.thread id, .bool (id = mainThread)]
  | .status => do return [.text (statusText (← status (← thread args 1)))]
  | .wrap => do return [.builtin (.wrapped (← create args))]
  | .yield => yield args

end LuaPages.Lua.Threads
