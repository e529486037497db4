import LuaPages.Document.Destination
/-!
A session runs the chunks of one document after another. What a chunk prints waits in the sink until
it is drained. A behaviour says what running a chunk does to the state of the interpreter, what is
printed, and whether it fails.
-/
namespace LuaPages

abbrev Behaviour (σ ε : Type) := σ → Bytes → σ × Bytes × Option ε

structure Session (σ : Type) where
  state : σ
  sink : Bytes

namespace Session

variable {σ ε : Type}

def start (state : σ) : Session σ := ⟨state, .empty⟩

/-- Runs a chunk. What it printed is in the sink, also if it failed. -/
def exec (behaviour : Behaviour σ ε) (s : Session σ) (chunk : Bytes) : Session σ × Option ε :=
  match behaviour s.state chunk with
  | (state, printed, e) => (⟨state, s.sink ++ printed⟩, e)

def drain (s : Session σ) (d : Destination) : Session σ × Destination × Bool :=
  let (d, taken) := d.write s.sink
  ({ s with sink := .empty }, d, taken)

end Session

end LuaPages
