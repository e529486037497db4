import LuaPages.Files.Access
import LuaPages.Files.Path

namespace LuaPages.CommandLine

/-- What the search goes by: a site file of its own and the directory of the user's configuration, as the
environment variables `LUASP_CONFIG` and `XDG_CONFIG_HOME` give them, and the user's home as the system
gives it, which is `HOME` unless that is unset or empty, and else what the user database has. -/
structure Environment where
  siteFile : Option String
  configHome : Option String
  home : Option String
  deriving Repr

def siteFileName : String := "luasp.conf"

namespace Environment

/-- The directory of the user's configuration. A relative one does not count, and a user without a home
has none. -/
def configDirectory (e : Environment) : Option String :=
  e.home.map fun home => (e.configHome.filter Path.isAbsolute).getD (Path.join home ".config")

def candidates (e : Environment) : List String :=
  e.siteFile.toList ++ [siteFileName] ++
    (e.configDirectory.map fun d => Path.join (Path.join d "luasp") siteFileName).toList

end Environment

variable {m : Type → Type} [Monad m]

def firstPresent (files : FileAccess m) : List String → m (Option String)
  | [] => return none
  | path :: rest => do
    if ← files.isPresent path then return some path else firstPresent files rest

def findSiteFile (files : FileAccess m) (e : Environment) : m (Option String) :=
  firstPresent files e.candidates

end LuaPages.CommandLine
