import LuaPages.Files.Access
import LuaPages.Files.Path

namespace LuaPages

inductive FileNode where
  | file (contents : Bytes)
  | directory (entries : List (String × FileNode))

namespace FileNode

def entries : FileNode → List (String × FileNode)
  | file _ => []
  | directory es => es

def kind : FileNode → FileKind
  | file _ => .file
  | directory _ => .directory

def contents : FileNode → Except FileError Bytes
  | file b => .ok b
  | directory _ => .error .isDirectory

def child? (n : FileNode) (name : String) : Option FileNode := n.entries.lookup name

def descend? : List String → FileNode → Option FileNode
  | [], n => some n
  | name :: r, n => (n.child? name).bind (descend? r)

def setEntry (name : String) (n : FileNode) : List (String × FileNode) → List (String × FileNode)
  | [] => [(name, n)]
  | e :: r => if e.1 = name then (name, n) :: r else e :: setEntry name n r

/-- Puts a file at a place, or a directory where there is none. Directories on the way are made. -/
def insert (contents : Option Bytes) : List String → FileNode → FileNode
  | [], n =>
    match contents with
    | some b => file b
    | none => directory n.entries
  | name :: r, n =>
    directory (setEntry name (insert contents r ((n.child? name).getD (directory []))) n.entries)

end FileNode

structure FileTree where
  top : FileNode
  working : List String

namespace FileTree

def nameLimit : Nat := 255

def pathLimit : Nat := 4095

def ofWorking (names : List String) : FileTree := ⟨(FileNode.directory []).insert none names, names⟩

def add (t : FileTree) (path : String) (contents : Option Bytes) : FileTree :=
  { t with top := t.top.insert contents (t.working ++ Path.names path) }

/-- Follows parts of a path from a place, which is given by its names, back to front, and by what is
there. The top is its own parent. -/
def follow (top : FileNode) : (place : List String) → FileNode → List String → Except FileError FileNode
  | _, n, [] => .ok n
  | place, n, part :: r =>
    match n with
    | .file _ => .error .notDirectory
    | .directory _ =>
      if part = "" ∨ part = "." then follow top place n r
      else if part = ".." then
        let parent := place.drop 1
        match FileNode.descend? parent.reverse top with
        | some p => follow top parent p r
        | none => .error .missing
      else if nameLimit < part.utf8ByteSize then .error .nameTooLong
      else
        match n.child? part with
        | none => .error .missing
        | some c => follow top (part :: place) c r

/-- What a path leads to. A path that ends in a slash has to lead to a directory. -/
def find (t : FileTree) (path : String) : Except FileError FileNode :=
  let parts := (Parts.split '/' path.toList).map String.ofList
  if path.toList.contains '\x00' then .error .zeroByte
  else if path.isEmpty then .error .missing
  else if pathLimit < path.utf8ByteSize then .error .nameTooLong
  else if Path.isAbsolute path then follow t.top [] t.top parts
  else
    match FileNode.descend? t.working t.top with
    | some n => follow t.top t.working.reverse n parts
    | none => .error .missing

def access (t : FileTree) : FileAccess Id where
  look path := (t.find path).map FileNode.kind
  read path := (t.find path).bind FileNode.contents

end FileTree

end LuaPages
