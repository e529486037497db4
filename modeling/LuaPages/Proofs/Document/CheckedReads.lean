import LuaPages.Document.Expansion
/-!
An expansion that checks each read of the document. It gives no result where a byte or a slice that is
read is not in the document, where it takes more turns than there are bytes, and where the document ends
in a region without source. `Expansion` reads without such checks.
-/
namespace LuaPages

/-- The bytes between two positions that are in order and in the byte string. -/
def Bytes.slice? (b : Bytes) (i j : Nat) : Option Bytes :=
  if i ≤ j ∧ j ≤ b.size then some (b.extract i j) else none

theorem Bytes.slice?_eq_some (b : Bytes) {i j : Nat} (hij : i ≤ j) (hj : j ≤ b.size) :
    Bytes.slice? b i j = some (b.extract i j) :=
  if_pos ⟨hij, hj⟩

namespace Document

/-- The slice that is compared with the marker is taken only if a byte follows it. -/
def isOpenMarker? (doc : Bytes) (i : Nat) : Option Bool :=
  if doc.size ≤ i + openMarker.size then some false
  else (Bytes.slice? doc i (i + openMarker.size)).map (· == openMarker)

/-- The second byte is read only if the first one belongs to the marker. -/
def isCloseMarker? (doc : Bytes) (i : Nat) : Option Bool :=
  if doc.size ≤ i + 1 then some false
  else doc[i]?.bind fun b => if b == 63 then doc[i + 1]?.map (· == 62) else some false

namespace Expansion

variable {σ ε : Type}

/-- Writes the text up to `stop`. A text without bytes is not read. -/
def flush? (doc : Bytes) (stop : Nat) (x : Expansion σ) : Option (Expansion σ × Option (Failure ε)) :=
  if x.literalStart < stop then
    (Bytes.slice? doc x.literalStart stop).map fun text =>
      let (out, taken) := x.out.write text
      if taken then ({ x with out := out, literalStart := stop }, none)
      else ({ x with out := out }, some .refused)
  else some ({ x with literalStart := stop }, none)

def step? (behaviour : Behaviour σ ε) (doc : Bytes) (x : Expansion σ) :
    Option (Expansion σ × Option (Failure ε)) :=
  doc[x.cursor]?.bind fun b =>
    let x := { x with line := if b == 10 then x.line + 1 else x.line }
    match x.mode with
    | .literal =>
      (isOpenMarker? doc x.cursor).bind fun opens =>
        if opens then
          (flush? doc x.cursor x).map fun
            | (x, none) => ({ x with mode := .inScript, cursor := x.cursor + openMarker.size }, none)
            | (x, some f) => (x, some f)
        else some ({ x with cursor := x.cursor + 1 }, none)
    | .inScript =>
      (isCloseMarker? doc x.cursor).bind fun closes =>
        if closes then
          some <| match dispatch behaviour x with
            | (x, none) =>
              let after := x.cursor + closeMarker.size
              ({ x with mode := .literal, literalStart := after, cursor := after }, none)
            | (x, some f) => (x, some f)
        else
          doc[x.cursor]?.map fun b =>
            ({ x with pending := x.pending.push b, cursor := x.cursor + 1 }, none)

def finish? (behaviour : Behaviour σ ε) (doc : Bytes) (x : Expansion σ) :
    Option (Expansion σ × Option (Failure ε)) :=
  match x.mode with
  | .literal => flush? doc doc.size x
  | .inScript => if x.pending.isEmpty then none else some (dispatch behaviour x)

def advance? (behaviour : Behaviour σ ε) (doc : Bytes) :
    Nat → Expansion σ → Option (Expansion σ × Option (Failure ε))
  | 0, x => if x.cursor < doc.size then none else finish? behaviour doc x
  | fuel + 1, x =>
    if x.cursor < doc.size then
      (step? behaviour doc x).bind fun
        | (x, none) => advance? behaviour doc fuel x
        | (x, some f) => some (x, some f)
    else finish? behaviour doc x

def run? (behaviour : Behaviour σ ε) (state : σ) (doc : Bytes) (out : Destination) :
    Option (Expansion σ × Option (Failure ε)) :=
  advance? behaviour doc doc.size (start state out)

end Expansion

end Document

end LuaPages
