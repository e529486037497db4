import LuaPages.Files.Access
import LuaPages.Site.Config
import LuaPages.Site.Directive
import LuaPages.Text.Parts

namespace LuaPages.Site

structure ConfigError where
  line : Nat
  error : LineError
  deriving DecidableEq, Repr

def ConfigError.message (e : ConfigError) : String :=
  "line " ++ toString e.line ++ ": " ++ e.error.message

namespace SiteFile

def readLines : Nat → List (List Char) → Except ConfigError (List Directive)
  | _, [] => .ok []
  | n, line :: rest =>
    match Directive.readLine line with
    | .error e => .error ⟨n, e⟩
    | .ok none => readLines (n + 1) rest
    | .ok (some d) => (readLines (n + 1) rest).map (d :: ·)

/-- Changes a configuration as a directive says; the rules are what the `lua` lines so far have added. -/
def apply (c : Config) : Directive → Config
  | .root directory => { c with root := directory }
  | .lua base => { c with rules := c.rules ++ [⟨base⟩] }
  | .index names => { c with indexNames := names }
  | .timeout limit => { c with timeout := limit }

def configure (directives : List Directive) : Config :=
  let c := directives.foldl apply { Config.byDefault with rules := [] }
  if c.rules.isEmpty then { c with rules := Config.byDefault.rules } else c

def load (text : String) : Except ConfigError Config :=
  (readLines 1 (Parts.split '\n' text.toList)).map configure

inductive LoadError where
  | unreadable (e : FileError)
  | malformed (e : ConfigError)
  deriving DecidableEq, Repr

def LoadError.message : LoadError → String
  | unreadable e => e.message
  | malformed e => e.message

variable {m : Type → Type} [Monad m]

def loadFrom (files : FileAccess m) (path : String) : m (Except LoadError Config) := do
  match ← files.readText path with
  | .error e => return .error (.unreadable e)
  | .ok text => return (load text).mapError .malformed

end SiteFile

end LuaPages.Site
