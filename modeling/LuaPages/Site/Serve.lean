import LuaPages.Document.Deadline
import LuaPages.Files.Access
import LuaPages.Files.Path
import LuaPages.Site.Config
import LuaPages.Site.RequestPath

namespace LuaPages.Site

inductive Outcome where
  | rendered (body : Bytes)
  | notFound
  | forbidden
  | pass
  deriving DecidableEq

namespace Outcome

/-- The status of a response; a path that is passed on has none. -/
def status? : Outcome → Option Nat
  | rendered _ => some 200
  | notFound => some 404
  | forbidden => some 403
  | pass => none

end Outcome

inductive ServeError where
  | render (path : String) (source : Document.Error)
  | overrun (path : String) (limit : Duration)
  | unreadable (path : String) (source : FileError)

namespace ServeError

def status : Nat := 500

def path : ServeError → String
  | render p _ | overrun p _ | unreadable p _ => p

def message (e : ServeError) : Bytes :=
  let reason : Bytes :=
    match e with
    | render _ source => source.message
    | overrun _ limit => Document.overrunMessage limit
    | unreadable _ source => source.message
  (e.path ++ ": " : String) ++ reason

end ServeError

abbrev Answer := Except ServeError Outcome

def render (timeout : Option Duration) (request : String) (contents : Bytes) : Answer :=
  match Document.renderWithin timeout contents with
  | .ok body => .ok (.rendered body)
  | .error (.error e) => .error (.render request e)
  | .error (.overrun limit) => .error (.overrun request limit)

variable {m : Type → Type} [Monad m]

def firstIndex (files : FileAccess m) (directory : String) : List String → m (Option String)
  | [] => return none
  | name :: rest => do
    if ← files.isFile (Path.join directory name) then return some (Path.join directory name)
    else firstIndex files directory rest

/-- The path of the document for a request. What cannot be looked up counts as a directory if the
request ends in a slash, and else is left for reading to report. -/
def locate (files : FileAccess m) (c : Config) (request : String) (names : List String) :
    m (Option String) := do
  let path := Path.join c.root (Path.ofNames names)
  match ← files.look path with
  | .ok .directory => firstIndex files path c.indexNames
  | .ok .file => return some path
  | .error _ => if Path.endsInSlash request then firstIndex files path c.indexNames else return some path

def serve (files : FileAccess m) (c : Config) (request : String) : m Answer := do
  match c.ruleFor request, RequestPath.clean request with
  | none, _ => return .ok .pass
  | some _, none => return .ok .forbidden
  | some _, some names =>
    match ← locate files c request names with
    | none => return .ok .notFound
    | some path =>
      match ← files.read path with
      | .ok contents => return render c.timeout request contents
      | .error .missing => return .ok .notFound
      | .error .denied => return .ok .forbidden
      | .error e => return .error (.unreadable request e)

end LuaPages.Site
