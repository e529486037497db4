import LuaPages.Text.Parts

namespace LuaPages

namespace Path

def isAbsolute (p : String) : Bool := p.toList.head? == some '/'

def endsInSlash (p : String) : Bool := p.toList.getLast? == some '/'

/-- The path that `p` names when it is looked up from `base`. An absolute path stands for itself. -/
def join (base p : String) : String :=
  if isAbsolute p then p
  else if base.isEmpty || endsInSlash base then base ++ p
  else base ++ "/" ++ p

inductive Component where
  | top
  | here
  | up
  | name (n : String)
  deriving DecidableEq, Repr

def Component.isName : Component → Bool
  | name _ => true
  | _ => false

/-- The component that a part of a path is. `.` is one only where a relative path begins with it. -/
def component? (atStart : Bool) (part : List Char) : Option Component :=
  if part = [] then none
  else if part = ['.'] then if atStart then some .here else none
  else if part = ['.', '.'] then some .up
  else some (.name (String.ofList part))

def components (p : String) : List Component :=
  match Parts.split '/' p.toList with
  | [] => []
  | first :: rest =>
    (if isAbsolute p then some .top else component? true first).toList ++
      rest.filterMap (component? false)

def ofNames (names : List String) : String := "/".intercalate names

def names (p : String) : List String :=
  ((Parts.split '/' p.toList).filter (!·.isEmpty)).map String.ofList

end Path

end LuaPages
