import LuaPages.Site.Timeout
import LuaPages.Site.Words

namespace LuaPages.Site

inductive Directive where
  | root (directory : String)
  | lua (base : String)
  | index (names : List String)
  | timeout (limit : Option Duration)
  deriving DecidableEq, Repr

inductive LineError where
  | rootArguments
  | luaArguments (count : Nat)
  | noIndexName
  | timeoutArguments
  | invalidTimeout (e : InvalidTimeout)
  | unknown (name : String)
  deriving DecidableEq, Repr

def LineError.message : LineError → String
  | rootArguments => "root takes exactly one directory"
  | luaArguments n => "lua takes at most one base path, got " ++ toString n
  | noIndexName => "index needs at least one file name"
  | timeoutArguments => "timeout takes one number of seconds"
  | invalidTimeout e => e.message
  | unknown name => "unknown directive: " ++ name

namespace Directive

def ofWords (name : String) (args : List String) : Except LineError Directive :=
  match name, args with
  | "root", [directory] => .ok (.root directory)
  | "root", _ => .error .rootArguments
  | "lua", [] => .ok (.lua "/")
  | "lua", [base] => .ok (.lua base)
  | "lua", _ => .error (.luaArguments args.length)
  | "index", [] => .error .noIndexName
  | "index", _ => .ok (.index args)
  | "timeout", [seconds] => (readTimeout seconds).mapError .invalidTimeout |>.map .timeout
  | "timeout", _ => .error .timeoutArguments
  | _, _ => .error (.unknown name)

/-- What a line says. Blank lines and lines that begin with a number sign say nothing. -/
def readLine (line : List Char) : Except LineError (Option Directive) :=
  match Blank.trim line with
  | [] | '#' :: _ => .ok none
  | line =>
    match (Words.split line).map String.ofList with
    | [] => .ok none
    | name :: args => (ofWords name args).map some

end Directive

end LuaPages.Site
