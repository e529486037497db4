import LuaPages.Text.Bytes

namespace LuaPages.Document

def openMarker : Bytes := "<?lua"

def closeMarker : Bytes := "?>"

/-- An open marker needs a byte after it; at the very end of a document it is text. -/
def isOpenMarker (doc : Bytes) (i : Nat) : Bool :=
  i + openMarker.size < doc.size && doc.matchesAt i openMarker

def isCloseMarker (doc : Bytes) (i : Nat) : Bool := doc.matchesAt i closeMarker

def markerPositions (isMarker : Bytes → Nat → Bool) (doc : Bytes) : List Nat :=
  (List.range (doc.size + 7)).filter (isMarker doc)

end LuaPages.Document
