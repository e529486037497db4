import LuaPages.Text.Bytes

namespace LuaPages

structure LineBuffer where
  passed : Bytes
  held : Bytes

namespace LineBuffer

def capacity : Nat := 1024

def empty : LineBuffer := ⟨.empty, .empty⟩

def flush (w : LineBuffer) : LineBuffer := ⟨w.passed ++ w.held, .empty⟩

/-- Takes bytes without regard to lines. What is held is passed on if the bytes do not fit beside it;
bytes that fill the whole buffer are passed on directly. -/
def hold (w : LineBuffer) (b : Bytes) : LineBuffer :=
  let w := if w.held.size + b.size ≤ capacity then w else w.flush
  if capacity ≤ b.size then { w with passed := w.passed ++ b } else { w with held := w.held ++ b }

def wholeLines (b : Bytes) : Nat := (b.data.toList.reverse.dropWhile (· != 10)).length

def write (w : LineBuffer) (b : Bytes) : LineBuffer :=
  let n := wholeLines b
  if n = 0 then w.hold b
  else hold ⟨w.passed ++ w.held ++ b.extract 0 n, .empty⟩ (b.extract n b.size)

end LineBuffer

end LuaPages
