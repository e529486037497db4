import LuaPages.Lua.Value
/-!
Tables. The first integers are the indices of an array; all other keys live in nodes, each at its
main position or in a chain from there through free nodes. When the nodes are full, both parts are
sized anew: the array is the largest power of two of which more than half would be used.
The order in which `next` visits keys, and which border of a table with gaps `#` finds, follow
from this layout.
-/
namespace LuaPages.Lua

structure Node where
  key : Value
  value : Value
  next : Option Nat
  deriving Inhabited

def Node.vacant : Node := ⟨.nil, .nil, none⟩

/-- `free` is the number of nodes in which a free one is still looked for. -/
structure Table where
  array : Array Value
  nodes : Array Node
  free : Nat
  metatable : Option Nat
  deriving Inhabited

def Value.asKey : Value → Value
  | .number (.float x) =>
    match Number.wholeFloat? x with
    | some n => .int n
    | none => .float x
  | v => v

namespace Table

def nodeCount (n : Nat) : Nat := if n = 0 then 0 else 1 <<< (if n = 1 then 0 else (n - 1).log2 + 1)

def create (arraySize nodeSize : Nat) : Table :=
  let n := nodeCount nodeSize
  ⟨Array.replicate arraySize .nil, Array.replicate n .vacant, n, none⟩

def floatHash (x : Binary64) : Nat :=
  let (m, e) := x.split
  match (m.mul (.ofInt 0x80000000)).floorInt? with
  | some n =>
    let u := ((n + e) % UInt32.size).toNat
    if u < 0x80000000 then u else UInt32.size - 1 - u
  | none => 0

/-- A text, scattered by its bytes from the last of the first `n` on. -/
def textHash (s : Bytes) : (n : Nat) → UInt32 → UInt32
  | 0, h => h
  | n + 1, h => textHash s n (h ^^^ ((h <<< 5) + (h >>> 2) + (s.get! n).toUInt32))

def mainPosition (size : Nat) : Value → Nat
  | .number (.int n) => n.toUInt64.toNat % ((size - 1) ||| 1)
  | .number (.float x) => floatHash x % ((size - 1) ||| 1)
  | .string s => (textHash s s.size s.size.toUInt32).toNat % size
  | .bool true => 1 % size
  | .table i => (i + 7) % ((size - 1) ||| 1)
  | .closure i => (i + 3) % ((size - 1) ||| 1)
  | .thread i | .failure i => (i + 1) % ((size - 1) ||| 1)
  | _ => 0

def findFrom (nodes : Array Node) (key : Value) : Nat → Nat → Option Nat
  | 0, _ => none
  | fuel + 1, i =>
    match nodes[i]? with
    | none => none
    | some n =>
      if n.key = key then some i
      else match n.next with
        | some j => findFrom nodes key fuel j
        | none => none

def findNode (t : Table) (key : Value) : Option Nat :=
  if t.nodes.isEmpty then none
  else findFrom t.nodes key t.nodes.size (mainPosition t.nodes.size key)

def arrayIndex? (t : Table) : Value → Option Nat
  | .number (.int n) =>
    let i := n.toInt
    if 1 ≤ i ∧ i ≤ t.array.size then some (i.toNat - 1) else none
  | _ => none

def getKey (t : Table) (key : Value) : Value :=
  match t.arrayIndex? key with
  | some i => t.array.getD i .nil
  | none =>
    match t.findNode key with
    | some i => (t.nodes.getD i .vacant).value
    | none => .nil

def get (t : Table) (key : Value) : Value := t.getKey key.asKey

def getInt (t : Table) (i : Int) : Value :=
  if 1 ≤ i ∧ i ≤ t.array.size then t.array.getD (i.toNat - 1) .nil else t.getKey (.ofInt i)

def getText (t : Table) (s : String) : Value := t.getKey (.text s)

def lastFree (nodes : Array Node) : Nat → Option Nat
  | 0 => none
  | n + 1 => if (nodes.getD n .vacant).key.isNil then some n else lastFree nodes n

def previousOf (nodes : Array Node) (target : Nat) : Nat → Nat → Nat
  | 0, i => i
  | fuel + 1, i =>
    match (nodes.getD i .vacant).next with
    | some j => if j = target then i else previousOf nodes target fuel j
    | none => i

def setNext (nodes : Array Node) (i next : Nat) : Array Node :=
  nodes.setIfInBounds i { nodes.getD i .vacant with next := some next }

def setValue (nodes : Array Node) (i : Nat) (value : Value) : Array Node :=
  nodes.setIfInBounds i { nodes.getD i .vacant with value := value }

/-- Puts a new key into nodes whose main position for it is taken, with `free` as a free node. A key
that sits in the main position of another moves there; otherwise the new key goes there. -/
def insertChained (nodes : Array Node) (main free : Nat) (key value : Value) : Array Node :=
  let there := nodes.getD main .vacant
  let other := mainPosition nodes.size there.key
  -- the key that is there belongs there
  if other = main then
    setNext (nodes.setIfInBounds free ⟨key, value, there.next⟩) main free
  else
    let moved := (setNext nodes (previousOf nodes main nodes.size other) free).setIfInBounds free there
    moved.setIfInBounds main ⟨key, value, none⟩

def addNode (t : Table) (key value : Value) : Bool × Table :=
  if t.nodes.isEmpty then (false, t)
  else
    let main := mainPosition t.nodes.size key
    let there := t.nodes.getD main .vacant
    -- a key without a value gives its node up
    if there.value.isNil then
      (true, { t with nodes := t.nodes.setIfInBounds main { there with key := key, value := value } })
    else
      match lastFree t.nodes t.free with
      | none => (false, { t with free := 0 })
      | some f => (true, { t with nodes := insertChained t.nodes main f key value, free := f })

/-- The number `k` with `2 ^ (k - 1) < i ≤ 2 ^ k`. -/
def sizeClass (i : Nat) : Nat := if i ≤ 1 then 0 else (i - 1).log2 + 1

def isIndex? : Value → Option Nat
  | .number (.int n) => if 1 ≤ n.toInt ∧ n.toInt ≤ 0x80000000 then some n.toInt.toNat else none
  | _ => none

def countKey (counts : Array Nat) (key : Value) : Array Nat :=
  match isIndex? key with
  | some i => counts.modify (sizeClass i) (· + 1)
  | none => counts

/-- The best array size for integer keys counted by class, and how many of them go there. -/
def bestSize (counts : Array Nat) (total : Nat) : Nat × Nat :=
  let rec go : Nat → Nat → Nat → Nat × Nat → Nat × Nat
    | 0, _, _, best => best
    | fuel + 1, k, below, best =>
      -- an array of this size is worth it if more than half of it is used
      let size := 1 <<< k
      if size / 2 < total then
        let below := below + counts.getD k 0
        go fuel (k + 1) below (if size / 2 < below then (size, below) else best)
      else best
  go 32 0 0 (0, 0)

def place (t : Table) (key value : Value) : Table :=
  match t.arrayIndex? key with
  | some i => { t with array := t.array.setIfInBounds i value }
  | none =>
    (t.addNode key value).2

def resize (t : Table) (arraySize nodeSize : Nat) : Table :=
  let n := nodeCount nodeSize
  let kept := t.array.extract 0 arraySize
  let fresh : Table :=
    ⟨kept ++ Array.replicate (arraySize - kept.size) .nil, Array.replicate n .vacant, n, t.metatable⟩
  let moved := (t.array.extract arraySize t.array.size).foldl
    (fun (acc : Table × Nat) v =>
      (if v.isNil then acc.1 else acc.1.place (.ofNat acc.2) v, acc.2 + 1)) (fresh, arraySize + 1)
  t.nodes.foldl (fun acc n => if n.value.isNil then acc else acc.place n.key n.value) moved.1

def reserve (t : Table) (n : Nat) : Table :=
  if t.array.size < n then t.resize n t.nodes.size else t

def grow (t : Table) (key : Value) : Table :=
  let inArray := t.array.foldl
    (fun (acc : Array Nat × Nat × Nat) v =>
      let (counts, used, i) := acc
      if v.isNil then (counts, used, i + 1)
      else (counts.modify (sizeClass i) (· + 1), used + 1, i + 1)) (Array.replicate 33 0, 0, 1)
  let counted := t.nodes.foldl
    (fun (acc : Array Nat × Nat) n =>
      if n.value.isNil then acc else (countKey acc.1 n.key, acc.2 + 1)) (inArray.1, inArray.2.1)
  let counts := countKey counted.1 key
  let (size, inside) := bestSize counts (counts.foldl (· + ·) 0)
  t.resize size (counted.2 + 1 - inside)

def setKey (t : Table) (key value : Value) : Table :=
  match t.arrayIndex? key with
  | some i => { t with array := t.array.setIfInBounds i value }
  | none =>
    match t.findNode key with
    | some i => { t with nodes := setValue t.nodes i value }
    | none =>
      if value.isNil then t
      else match t.addNode key value with
        | (true, t) => t
        | (false, t) => (t.grow key).place key value

def set (t : Table) (key value : Value) : Table := t.setKey key.asKey value

def setInt (t : Table) (i : Int) (value : Value) : Table := t.setKey (.ofInt i) value

def setText (t : Table) (s : String) (value : Value) : Table := t.setKey (.text s) value

/-- A border between `i`, which is present or 0, and `j`, which is absent, by halving. -/
def borderBetween (present : Nat → Bool) : Nat → Nat → Nat → Nat
  | 0, i, _ => i
  | fuel + 1, i, j =>
    if j - i ≤ 1 then i
    else
      let m := (i + j) / 2
      if present m then borderBetween present fuel m j else borderBetween present fuel i m

def borderAfter (present : Nat → Bool) : Nat → Nat → Nat
  | 0, i => i
  | fuel + 1, i =>
    let j := if i = 0 then 1 else i
    let next := 2 * j
    if Numeral.signBit ≤ next then j
    else if present next then borderAfter present fuel next
    else borderBetween present 64 j next

/-- A border: a position that is present or 0, with the one after it absent. -/
def length (t : Table) : Nat :=
  let size := t.array.size
  let inArray (i : Nat) : Bool := !(t.array.getD (i - 1) .nil).isNil
  let present (i : Nat) : Bool := !(t.getInt i).isNil
  if 0 < size && !inArray size then
    if 2 ≤ size && inArray (size - 1) then size - 1
    else borderBetween inArray 64 0 size
  else if t.nodes.isEmpty || !present (size + 1) then size
  else borderAfter present 64 size

def entryFrom (t : Table) : Nat → Nat → Option (Value × Value)
  | 0, _ => none
  | fuel + 1, i =>
    if i < t.array.size then
      let v := t.array.getD i .nil
      if v.isNil then entryFrom t fuel (i + 1) else some (.ofNat (i + 1), v)
    else
      match t.nodes[i - t.array.size]? with
      | none => none
      | some n => if n.value.isNil then entryFrom t fuel (i + 1) else some (n.key, n.value)

/-- The position after a key; `none` for a key the table never held. -/
def positionAfter? (t : Table) (key : Value) : Option Nat :=
  if key.isNil then some 0
  else
    let key := key.asKey
    match t.arrayIndex? key with
    | some i => some (i + 1)
    | none => (t.findNode key).map (t.array.size + · + 1)

def next (t : Table) (key : Value) : Option (Option (Value × Value)) :=
  (t.positionAfter? key).map fun i => t.entryFrom (t.array.size + t.nodes.size + 1) i

end Table

end LuaPages.Lua
