import LuaPages.Document.Marker

namespace LuaPages.Document

inductive Segment where
  | text (b : Bytes)
  | region (source : Bytes)
  | unclosed (source : Bytes)
  deriving DecidableEq

namespace Segment

def seek (p : Nat → Bool) : Nat → Nat → Option Nat
  | 0, _ => none
  | fuel + 1, i => if p i then some i else seek p fuel (i + 1)

/-- The segments from position `i` on, where text may begin. Text without bytes is no segment. -/
def readFrom (doc : Bytes) : Nat → Nat → List Segment
  | 0, _ => []
  | fuel + 1, i =>
    let textUpTo (j : Nat) : List Segment := if i < j then [text (doc.extract i j)] else []
    match seek (isOpenMarker doc) (doc.size - i) i with
    | none => textUpTo doc.size
    | some j =>
      let first := j + openMarker.size
      match seek (isCloseMarker doc) (doc.size - first) first with
      | none => textUpTo j ++ [unclosed (doc.extract first doc.size)]
      | some k =>
        textUpTo j ++ region (doc.extract first k) :: readFrom doc fuel (k + closeMarker.size)

def read (doc : Bytes) : List Segment := readFrom doc (doc.size + 1) 0

end Segment

end LuaPages.Document
