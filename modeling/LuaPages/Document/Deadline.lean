import LuaPages.Document.Interpret
import LuaPages.Document.LineBuffer
import LuaPages.Document.Segment
import LuaPages.Duration
/-!
Expanding a document under a deadline. Time is the processor time that scripts use. The first region
during which it reaches the limit is the last one to run.
-/
namespace LuaPages.Document

def clockStep : Nat := 100000

def isOver (limit : Duration) (state : Lua.State) : Bool := limit.nanos ≤ state.store.clock * clockStep

inductive Unrendered where
  | error (e : Error)
  | overrun (limit : Duration)

def overrunMessage (limit : Duration) : String := "render exceeded deadline of " ++ limit.text

/-- Runs regions as long as time is left. The state remembers what each region printed, the last
one first; the error of a region that took too long is `none`. -/
def runRegionWithin (limit : Duration) : Behaviour (Lua.State × List Bytes) (Option Lua.ChunkError) :=
  fun (state, outputs) chunk =>
    let (state, printed, e) := runRegion state chunk
    if isOver limit state then ((state, outputs), .empty, some none)
    else ((state, printed :: outputs), printed, e.map some)

/-- The writes of an expansion: texts and what the regions printed, in turn, as far as regions ran. -/
def writes : List Segment → List Bytes → List Bytes
  | .text b :: r, outputs => b :: writes r outputs
  | .region _ :: r, out :: outputs | .unclosed _ :: r, out :: outputs => out :: writes r outputs
  | _, _ => []

inductive Timed where
  | ended (r : Result)
  | overrun (writes : List Bytes)

def interpretWithin (limit : Duration) (doc : Bytes) : Timed :=
  let (x, f) := Expansion.run (runRegionWithin limit) (newState, []) doc .unlimited
  let (state, outputs) := x.session.state
  let overrun := Timed.overrun (writes (Segment.read doc) outputs.reverse)
  match f with
  | some (.script _ none) => overrun
  | some (.script line (some e)) =>
    .ended ⟨x.out, state.store.clock, some (Failure.toError (.script line e))⟩
  | some .refused => .ended ⟨x.out, state.store.clock, some .refused⟩
  | none => if isOver limit state then overrun else .ended ⟨x.out, state.store.clock, none⟩

def renderWithin (timeout : Option Duration) (doc : Bytes) : Except Unrendered Bytes :=
  match timeout with
  | none => (render doc).mapError .error
  | some limit =>
    match interpretWithin limit doc with
    | .overrun _ => .error (.overrun limit)
    | .ended r =>
      match r.error with
      | none => .ok r.out.written
      | some e => .error (.error e)

end LuaPages.Document
