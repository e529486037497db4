import LuaPages.Document.Marker
import LuaPages.Session
/-!
Expanding a document: text is copied, and each script region is replaced by what it prints. The
cursor passes over the document once. Text is written when a region opens or the document ends.
-/
namespace LuaPages.Document

inductive Mode where
  | literal
  | inScript
  deriving DecidableEq, Repr

inductive Failure (ε : Type) where
  | script (line : Nat) (e : ε)
  | refused
  deriving DecidableEq

/-- Where an expansion stands. `line` is the line of the cursor, `literalStart` the beginning of the
text that has not been written, and `pending` the source of the open region. -/
structure Expansion (σ : Type) where
  cursor : Nat
  line : Nat
  mode : Mode
  literalStart : Nat
  pending : Bytes
  session : Session σ
  out : Destination

namespace Expansion

variable {σ ε : Type}

def start (state : σ) (out : Destination) : Expansion σ :=
  ⟨0, 1, .literal, 0, .empty, .start state, out⟩

def flush (doc : Bytes) (stop : Nat) (x : Expansion σ) : Expansion σ × Option (Failure ε) :=
  let (out, taken) := x.out.write (doc.extract x.literalStart stop)
  if taken then ({ x with out := out, literalStart := stop }, none)
  else ({ x with out := out }, some .refused)

def dispatch (behaviour : Behaviour σ ε) (x : Expansion σ) : Expansion σ × Option (Failure ε) :=
  match x.session.exec behaviour x.pending with
  | (session, some e) => ({ x with session := session }, some (.script x.line e))
  | (session, none) =>
    let (session, out, taken) := session.drain x.out
    ({ x with pending := .empty, session := session, out := out }, if taken then none else some .refused)

def step (behaviour : Behaviour σ ε) (doc : Bytes) (b : UInt8) (x : Expansion σ) :
    Expansion σ × Option (Failure ε) :=
  let x := { x with line := if b == 10 then x.line + 1 else x.line }
  match x.mode with
  | .literal =>
    if isOpenMarker doc x.cursor then
      match flush doc x.cursor x with
      | (x, none) => ({ x with mode := .inScript, cursor := x.cursor + openMarker.size }, none)
      | (x, some f) => (x, some f)
    else ({ x with cursor := x.cursor + 1 }, none)
  | .inScript =>
    if isCloseMarker doc x.cursor then
      match dispatch behaviour x with
      | (x, none) =>
        let after := x.cursor + closeMarker.size
        ({ x with mode := .literal, literalStart := after, cursor := after }, none)
      | (x, some f) => (x, some f)
    else ({ x with pending := x.pending.push b, cursor := x.cursor + 1 }, none)

/-- What is left to do at the end of the document. A region that is still open is run if it has any
source. -/
def finish (behaviour : Behaviour σ ε) (doc : Bytes) (x : Expansion σ) :
    Expansion σ × Option (Failure ε) :=
  match x.mode with
  | .literal => flush doc doc.size x
  | .inScript => if x.pending.isEmpty then (x, none) else dispatch behaviour x

/-- Goes on to the end of the document. Each turn passes at least one byte, so as many turns as
there are bytes left are enough. -/
def advance (behaviour : Behaviour σ ε) (doc : Bytes) : Nat → Expansion σ → Expansion σ × Option (Failure ε)
  | 0, x => finish behaviour doc x
  | fuel + 1, x =>
    if h : x.cursor < doc.size then
      match step behaviour doc (doc.get x.cursor h) x with
      | (x, none) => advance behaviour doc fuel x
      | (x, some f) => (x, some f)
    else finish behaviour doc x

def run (behaviour : Behaviour σ ε) (state : σ) (doc : Bytes) (out : Destination) :
    Expansion σ × Option (Failure ε) :=
  advance behaviour doc doc.size (start state out)

end Expansion

end LuaPages.Document
