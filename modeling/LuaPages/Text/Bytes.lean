namespace LuaPages

abbrev Bytes := ByteArray

instance : Coe String Bytes := ⟨String.toUTF8⟩

instance : DecidableEq Bytes := ByteArray.instDecidableEq

namespace Bytes

def ofList (l : List UInt8) : Bytes := l.toByteArray

def ofNat (n : Nat) : Bytes := (toString n).toUTF8

def ofInt (n : Int) : Bytes := (toString n).toUTF8

def singleton (b : UInt8) : Bytes := ByteArray.empty.push b

/-- The byte at a position; a text that has ended goes on with zero bytes. -/
def byteAt (b : Bytes) (i : Nat) : UInt8 := if h : i < b.size then b[i] else 0

def beforeZero (b : Bytes) : Bytes :=
  match b.data.toList.findIdx? (· == 0) with
  | some i => b.extract 0 i
  | none => b

def join (sep : Bytes) : List Bytes → Bytes
  | [] => .empty
  | [x] => x
  | x :: xs => xs.foldl (fun acc y => acc ++ sep ++ y) x

def replicate (n : Nat) (b : UInt8) : Bytes := n.fold (fun _ _ acc => acc.push b) .empty

def matchesAt (b : Bytes) (i : Nat) (p : Bytes) : Bool :=
  i + p.size ≤ b.size && b.extract i (i + p.size) == p

def find? (b p : Bytes) (i : Nat) : Option Nat :=
  let rec go : Nat → Nat → Option Nat
    | 0, _ => none
    | n + 1, j => if b.matchesAt j p then some j else go n (j + 1)
  go (b.size + 1 - i) i

def endsWith (b p : Bytes) : Bool :=
  p.size ≤ b.size && b.extract (b.size - p.size) b.size == p

/-- The order of the first bytes that differ; a proper beginning comes first. -/
def lt (a b : Bytes) : Bool :=
  let rec go : Nat → Nat → Bool
    | 0, i => i < b.size
    | n + 1, i =>
      if h : i < a.size ∧ i < b.size then
        if (a.get i h.1) < (b.get i h.2) then true
        else if (b.get i h.2) < (a.get i h.1) then false
        else go n (i + 1)
      else i < b.size
  go (min a.size b.size) 0

end Bytes

end LuaPages
