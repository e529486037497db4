import LuaPages.Text.Bytes

namespace LuaPages

structure Destination where
  written : Bytes
  room : Option Nat

namespace Destination

def unlimited : Destination := ⟨.empty, none⟩

def ofLimit (limit : Option Nat) : Destination := ⟨.empty, limit⟩

/-- Takes as many of the bytes as there is room for, and tells whether these were all. -/
def write (d : Destination) (b : Bytes) : Destination × Bool :=
  match d.room with
  | none => ({ d with written := d.written ++ b }, true)
  | some n => (⟨d.written ++ b.extract 0 n, some (n - b.size)⟩, b.size ≤ n)

end Destination

end LuaPages
