import LuaPages.CommandLine.Arguments
import LuaPages.CommandLine.Search
import LuaPages.Site.Serve
import LuaPages.Site.SiteFile

namespace LuaPages.CommandLine

structure Ending where
  succeeded : Bool
  stdout : Bytes
  stderr : Bytes
  deriving DecidableEq

namespace Ending

def code (e : Ending) : Nat := if e.succeeded then 0 else 1

def report (message : Bytes) : Bytes := ("luasp: " : Bytes) ++ message ++ "\n"

def failed (stdout message : Bytes) : Ending := ⟨false, stdout, report message⟩

end Ending

def usage : String := "Usage: luasp [-f[<config>]] [-r<root>] [-t<secs>] [-d] [<path>...]\n"

def Options.override (o : Options) (c : Site.Config) : Site.Config :=
  { c with root := o.root.getD c.root, timeout := o.timeout.getD c.timeout }

/-- Renders a document onto standard output. What was written before an error stays; a render that
takes too long leaves what its line buffer has passed on. -/
def renderDocument (timeout : Option Duration) (doc : Bytes) : Ending :=
  let ended (r : Document.Result) : Ending :=
    match r.error with
    | none => ⟨true, r.out.written, .empty⟩
    | some e => .failed r.out.written e.message
  match timeout with
  | none => ended (Document.interpret doc .unlimited)
  | some limit =>
    match Document.interpretWithin limit doc with
    | .ended r => ended r
    | .overrun writes =>
      .failed (writes.foldl LineBuffer.write .empty).passed
        ("stdin: " ++ Document.overrunMessage limit : String)

def Ending.ofAnswer (path : String) : Site.Answer → Ending
  | .ok (.rendered body) => ⟨true, body, .empty⟩
  | .ok .pass => .failed .empty (path ++ ": no lua rule covers this path" : String)
  | .ok .notFound => .failed .empty (path ++ ": 404 NotFound" : String)
  | .ok .forbidden => .failed .empty (path ++ ": 403 Forbidden" : String)
  | .error e => .failed .empty ((toString Site.ServeError.status ++ " " : String) ++ e.message)

def Ending.append (a b : Ending) : Ending :=
  ⟨a.succeeded && b.succeeded, a.stdout ++ b.stdout, a.stderr ++ b.stderr⟩

/-- The answers in the places of their request paths. Each comes with its place, in the order in which
the renders end. -/
def gather {α : Type} (count : Nat) (ended : List (Nat × α)) : List (Option α) :=
  ended.foldl (fun slots e => slots.set e.1 (some e.2)) (List.replicate count none)

/-- Writes the bodies and messages in the order of the paths. A path without an answer has failed. -/
def deliver : List String → List (Option Site.Answer) → Ending
  | path :: paths, some answer :: answers => (Ending.ofAnswer path answer).append (deliver paths answers)
  | _ :: paths, none :: answers => Ending.append ⟨false, .empty, .empty⟩ (deliver paths answers)
  | _, _ => ⟨true, .empty, .empty⟩

variable {m : Type → Type} [Monad m]

def serveEach (files : FileAccess m) (c : Site.Config) (paths : List String) :
    List Nat → m (List (Nat × Site.Answer))
  | [] => return []
  | i :: rest => do
    let answer ← Site.serve files c (paths.getD i "")
    return (i, answer) :: (← serveEach files c paths rest)

def renderPaths (files : FileAccess m) (c : Site.Config) (paths : List String) (order : List Nat) :
    m Ending := do
  return deliver paths (gather paths.length (← serveEach files c paths order))

def loadConfig (files : FileAccess m) (e : Environment) (choice : SiteFileChoice) :
    m (Except Bytes Site.Config) := do
  let path ← match choice with
    | .skip => pure none
    | .file path => pure (some path)
    | .search => findSiteFile files e
  match path with
  | none => return .ok .byDefault
  | some path =>
    match ← Site.SiteFile.loadFrom files path with
    | .ok c => return .ok c
    | .error e => return .error (path ++ ": " ++ e.message : String)

def run (files : FileAccess m) (e : Environment) (args : List String) (stdin : m Bytes) : m Ending := do
  match Arguments.read args with
  | .error err => return ⟨false, .empty, Ending.report err.message ++ usage⟩
  | .ok a =>
    match ← loadConfig files e a.options.siteFile with
    | .error message => return .failed .empty message
    | .ok c =>
      let c := a.options.override c
      match a.input with
      | .stdin => return renderDocument c.timeout (← stdin)
      | .paths paths => renderPaths files c paths (List.range paths.length)

end LuaPages.CommandLine
