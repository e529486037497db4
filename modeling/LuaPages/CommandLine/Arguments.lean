import LuaPages.Site.Timeout
/-!
Reading the arguments of the command line. Flags may be joined after one dash; a flag that takes a
value ends the word, with the rest of the word as its value or else the next word.
-/
namespace LuaPages.CommandLine

inductive SiteFileChoice where
  | search
  | skip
  | file (path : String)
  deriving DecidableEq, Repr

inductive Input where
  | stdin
  | paths (requests : List String)
  deriving DecidableEq, Repr

structure Options where
  siteFile : SiteFileChoice
  root : Option String
  timeout : Option (Option Duration)
  debug : Bool
  deriving DecidableEq, Repr

def Options.unset : Options := ⟨.search, none, none, false⟩

structure Arguments where
  options : Options
  input : Input
  deriving DecidableEq, Repr

inductive UsageError where
  | unknownOption (letter : Char)
  | noValue (letter : Char)
  | invalidTimeout (e : Site.InvalidTimeout)
  | stdinAmongPaths
  | rootForStdin
  deriving DecidableEq, Repr

def UsageError.message : UsageError → String
  | unknownOption c => "unknown option: -" ++ c.toString
  | noValue c => "-" ++ c.toString ++ " requires an argument"
  | invalidTimeout e => e.message
  | stdinAmongPaths => "'-' cannot be combined with request paths"
  | rootForStdin => "-r needs request paths; stdin is not served from a root"

inductive ValueFlag where
  | file
  | root
  | timeout
  deriving DecidableEq, Repr

namespace ValueFlag

def letter : ValueFlag → Char
  | file => 'f'
  | root => 'r'
  | timeout => 't'

def ofLetter? : Char → Option ValueFlag
  | 'f' => some file
  | 'r' => some root
  | 't' => some timeout
  | _ => none

end ValueFlag

namespace Options

def set (o : Options) (flag : ValueFlag) (value : String) : Except UsageError Options :=
  match flag with
  | .file => .ok { o with siteFile := .file value }
  | .root => .ok { o with root := some value }
  | .timeout => (Site.readTimeout value).mapError .invalidTimeout |>.map fun t => { o with timeout := some t }

end Options

/-- A word that begins with a dash, by its letters after the dash: whether `d` is among them, and the
flag that takes a value, with the text after it. -/
structure Cluster where
  debug : Bool
  flag : Option (ValueFlag × List Char)
  deriving DecidableEq, Repr

def Cluster.read : List Char → Except UsageError Cluster
  | [] => .ok ⟨false, none⟩
  | 'd' :: r => (read r).map fun c => { c with debug := true }
  | c :: r =>
    match ValueFlag.ofLetter? c with
    | some flag => .ok ⟨false, some (flag, r)⟩
    | none => .error (.unknownOption c)

def isPlain (word : String) : Bool := word.toList.head? != some '-' || word == "-"

structure Reading where
  options : Options
  words : List String
  awaiting : Option ValueFlag
  deriving DecidableEq, Repr

namespace Reading

def start : Reading := ⟨.unset, [], none⟩

def takeWord (r : Reading) (word : String) : Except UsageError Reading :=
  if isPlain word then .ok { r with words := r.words ++ [word] }
  else do
    let c ← Cluster.read word.toList.tail
    let r := { r with options := { r.options with debug := r.options.debug || c.debug } }
    match c.flag with
    | none => return r
    | some (flag, []) => return { r with awaiting := some flag }
    | some (flag, value) => return { r with options := ← r.options.set flag (String.ofList value) }

/-- Settles a flag that has no value. For the site file this means to use none. -/
def settle (r : Reading) : Except UsageError Reading :=
  match r.awaiting with
  | none => .ok r
  | some .file => .ok { r with options := { r.options with siteFile := .skip }, awaiting := none }
  | some flag => .error (.noValue flag.letter)

/-- Whether a word is the value of a flag that awaits one. For the site file, a word that begins with
a dash is none. -/
def isValue (flag : ValueFlag) (word : String) : Bool := flag != .file || word.toList.head? != some '-'

def readAll : List String → Reading → Except UsageError Reading
  | [], r => r.settle
  | word :: rest, r =>
    match r.awaiting with
    | some flag =>
      if isValue flag word then do
        readAll rest { r with options := ← r.options.set flag word, awaiting := none }
      else do
        let r ← r.settle
        if word = "--" then return { r with words := r.words ++ rest }
        else readAll rest (← r.takeWord word)
    | none =>
      if word = "--" then .ok { r with words := r.words ++ rest }
      else do readAll rest (← r.takeWord word)

end Reading

def Input.ofWords (words : List String) : Except UsageError Input :=
  if words = [] ∨ words = ["-"] then .ok .stdin
  else if "-" ∈ words then .error .stdinAmongPaths
  else .ok (.paths words)

def Arguments.read (args : List String) : Except UsageError Arguments := do
  let r ← Reading.readAll args .start
  let input ← Input.ofWords r.words
  if input = .stdin ∧ r.options.root.isSome then throw .rootForStdin
  return ⟨r.options, input⟩

end LuaPages.CommandLine
