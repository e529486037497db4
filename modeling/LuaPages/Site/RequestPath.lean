import LuaPages.Files.Path

namespace LuaPages.Site.RequestPath

def isRefused (c : Char) : Bool := c == '\\' || c == '\x00'

def push (names : List (List Char)) (part : List Char) : Option (List (List Char)) :=
  if part = [] ∨ part = ['.'] then some names
  else if part = ['.', '.'] then some names.dropLast
  else if part.any isRefused then none
  else some (names ++ [part])

def resolve : List (List Char) → List (List Char) → Option (List (List Char))
  | names, [] => some names
  | names, part :: rest => (push names part).bind (resolve · rest)

/-- The names that a request path leads to from the root; `none` if it has a refused character, or if the
path of the names has a component that is no name. -/
def clean (request : String) : Option (List String) :=
  (resolve [] (Parts.split '/' request.toList)).bind fun parts =>
    let names := parts.map String.ofList
    if (Path.components (Path.ofNames names)).all Path.Component.isName then some names else none

end LuaPages.Site.RequestPath
