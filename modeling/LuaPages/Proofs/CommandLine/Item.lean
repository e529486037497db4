import LuaPages.CommandLine.Arguments

namespace LuaPages.CommandLine

/-- A flag with its value in the same word or in the next one, or a flag for the site file with none. -/
inductive FlagValue where
  | attached (flag : ValueFlag) (value : List Char)
  | separate (flag : ValueFlag) (value : String)
  | bare
  deriving DecidableEq, Repr

/-- A word that stands for itself, or a dash with a number of `d` and at most one flag with a value. -/
inductive Item where
  | word (text : String)
  | flags (debugs : Nat) (value : Option FlagValue)
  deriving DecidableEq, Repr

namespace FlagValue

def written : FlagValue → List Char × List String
  | attached flag value => (flag.letter :: value, [])
  | separate flag value => ([flag.letter], [value])
  | bare => (['f'], [])

/-- The flag and the value that it is given; without one, for the site file. -/
def meaning : FlagValue → Option (ValueFlag × String)
  | attached flag value => some (flag, String.ofList value)
  | separate flag value => some (flag, value)
  | bare => none

end FlagValue

namespace Item

def written : Item → List String
  | word w => [w]
  | flags n value =>
    let (letters, after) := match value with
      | none => ([], [])
      | some v => v.written
    String.ofList ('-' :: (List.replicate n 'd' ++ letters)) :: after

def flatten (items : List Item) (tail : Option (List String)) : List String :=
  (items.map written).flatten ++ match tail with
    | none => []
    | some words => "--" :: words

def startsWithDash (words : List String) : Bool :=
  match words with
  | [] => true
  | w :: _ => w.toList.head? == some '-'

/-- Whether an item may stand before the given words. -/
def IsProper : Item → List String → Prop
  | word w, _ => isPlain w = true
  | flags n none, _ => 0 < n
  | flags _ (some (.attached _ value)), _ => value ≠ []
  | flags _ (some (.separate flag value)), _ => Reading.isValue flag value = true
  | flags _ (some .bare), rest => startsWithDash rest = true

def AreProper : List Item → Option (List String) → Prop
  | [], _ => True
  | i :: r, tail => i.IsProper (flatten r tail) ∧ AreProper r tail

def plainWords : List Item → List String
  | [] => []
  | word w :: r => w :: plainWords r
  | flags _ _ :: r => plainWords r

def options : List Item → Options → Except Site.InvalidTimeout Options
  | [], o => .ok o
  | word _ :: r, o => options r o
  | flags n value :: r, o =>
    let o := { o with debug := o.debug || 0 < n }
    match value with
    | none => options r o
    | some v =>
      match v.meaning with
      | none => options r { o with siteFile := .skip }
      | some (.file, path) => options r { o with siteFile := .file path }
      | some (.root, path) => options r { o with root := some path }
      | some (.timeout, text) => do options r { o with timeout := some (← Site.readTimeout text) }

end Item

end LuaPages.CommandLine
