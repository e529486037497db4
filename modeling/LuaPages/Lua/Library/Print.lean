import LuaPages.Lua.Library.Arguments
import LuaPages.Text.Utf8
import LuaPages.Number.Shortest
/-!
`print` as documents see it: one line for each call, put into a sink. Arguments are turned into text
from the first to the last before anything is put there, so a conversion that prints comes first and
one that fails leaves no part of the line.
-/
namespace LuaPages.Lua.Print

open Script

def failWith {α : Type} (text : Bytes) : Script α := do raise (← newFailure text)

def failureText (e : Value) : Script Bytes :=
  match e with
  | .failure id => read fun s => s.failures.getD id .empty
  | .string s => pure (("runtime error: " : Bytes) ++ Utf8.lossy s)
  | _ => pure "runtime error: "

def converted (v : Value) : Script Bytes := do
  match ← ask (.call (.builtin (.base .tostring)) [v] .library) (.handled (.builtin .describe)) with
  | .error e => failWith (← failureText e)
  | .ok flow =>
    match flow.values with
    | .string s :: _ =>
      match Utf8.firstFault s with
      | none => return s
      | some (pos, f) => failWith ("error converting Lua string to &str (" ++ f.describe pos ++ ")")
    | _ => return .empty

/-- The text of one argument. Strings are left as they are, and floats have no exponent. -/
def textOf : Value → Script Bytes
  | .string s => pure s
  | .nil => pure "nil"
  | .bool b => pure (if b then "true" else "false" : String)
  | .number (.int n) => pure (Bytes.ofInt n.toInt)
  | .number (.float x) => pure x.plain
  | .failure id => read fun s => s.failures.getD id .empty
  | v => converted v

def texts : List Value → Script (List Bytes)
  | [] => pure []
  | v :: vs => do
    let t ← textOf v
    return t :: (← texts vs)

/-- Texts with one space between them and a line feed at the end. -/
def line (ts : List Bytes) : Bytes := (Bytes.join (.singleton 32) ts).push 10

def append (sink : Nat) (b : Bytes) : Script Unit :=
  change fun s => { s with printed := (sink, b) :: s.printed }

def run (sink : Nat) (args : Arguments) : Script (List Value) := do
  let ts ← texts args
  append sink (line ts)
  return []

def describe (args : Arguments) : Script (List Value) := do
  match args.get 1 with
  | .failure id => return [.failure id]
  | v => return [.string (← display v).beforeZero]

end LuaPages.Lua.Print
