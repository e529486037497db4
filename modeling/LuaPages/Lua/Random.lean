namespace LuaPages.Lua

structure Random where
  a : UInt64
  b : UInt64
  c : UInt64
  d : UInt64

namespace Random

def rotate (x : UInt64) (n : UInt64) : UInt64 := (x <<< n) ||| (x >>> (64 - n))

def next (r : Random) : UInt64 × Random :=
  let c := r.c ^^^ r.a
  let d := r.d ^^^ r.b
  (rotate (r.b * 5) 7 * 9, ⟨r.a ^^^ d, r.b ^^^ c, c ^^^ (r.b <<< 17), rotate d 45⟩)

def ofSeeds (x y : UInt64) : Random :=
  (List.range 16).foldl (fun r _ => r.next.2) ⟨x, 0xff, y, 0⟩

def mask (n : UInt64) : UInt64 :=
  ([1, 2, 4, 8, 16, 32] : List UInt64).foldl (fun m k => m ||| (m >>> k)) n

/-- A number up to `n`: the first of `x` and the values after it whose low bits are one. -/
def upTo (n : UInt64) : Nat → UInt64 → Random → UInt64 × Random
  | 0, _, r => (0, r)
  | fuel + 1, x, r =>
    let x := x &&& mask n
    if x ≤ n then (x, r)
    else
      let (y, r) := r.next
      upTo n fuel y r

end Random

end LuaPages.Lua
