import LuaPages.Duration

namespace LuaPages.Site

/-- A rule takes the request paths that begin with its base. -/
structure Rule where
  base : String
  deriving DecidableEq, Repr

namespace Rule

def slash : Rule := ⟨"/"⟩

def covers (r : Rule) (path : String) : Bool := r.base.toList.isPrefixOf path.toList

end Rule

structure Config where
  root : String
  rules : List Rule
  indexNames : List String
  timeout : Option Duration
  deriving DecidableEq, Repr

namespace Config

def indexNamesByDefault : List String :=
  ["index.html", "index.htm", "index.txt", "default.html", "default.htm", "default.txt"]

def byDefault : Config := ⟨".", [.slash], indexNamesByDefault, none⟩

def ruleFor (c : Config) (path : String) : Option Rule := c.rules.find? (·.covers path)

end Config

end LuaPages.Site
