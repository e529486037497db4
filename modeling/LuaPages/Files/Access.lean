import LuaPages.Text.Bytes

namespace LuaPages

inductive FileError where
  | missing
  | notDirectory
  | isDirectory
  | nameTooLong
  | denied
  | notUtf8
  | zeroByte
  | other (text : String)
  deriving DecidableEq, Repr

def FileError.message : FileError → String
  | missing => "No such file or directory (os error 2)"
  | notDirectory => "Not a directory (os error 20)"
  | isDirectory => "Is a directory (os error 21)"
  | nameTooLong => "File name too long (os error 36)"
  | denied => "Permission denied (os error 13)"
  | notUtf8 => "stream did not contain valid UTF-8"
  | zeroByte => "file name contained an unexpected NUL byte"
  | other text => text

inductive FileKind where
  | file
  | directory
  deriving DecidableEq, Repr

/-- The ways to files: what a path leads to, and what is in the file there. -/
structure FileAccess (m : Type → Type) where
  look : String → m (Except FileError FileKind)
  read : String → m (Except FileError Bytes)

namespace FileAccess

variable {m : Type → Type} [Monad m]

def isPresent (files : FileAccess m) (path : String) : m Bool := do
  match ← files.look path with
  | .ok _ => return true
  | .error _ => return false

def isFile (files : FileAccess m) (path : String) : m Bool := do
  match ← files.look path with
  | .ok .file => return true
  | _ => return false

def readText (files : FileAccess m) (path : String) : m (Except FileError String) := do
  match ← files.read path with
  | .error e => return .error e
  | .ok b =>
    match String.fromUTF8? b with
    | some s => return .ok s
    | none => return .error .notUtf8

end FileAccess

end LuaPages
