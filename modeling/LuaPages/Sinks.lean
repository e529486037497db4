import LuaPages.Text.Bytes

namespace LuaPages

structure Printed (σ ε : Type) where
  state : σ
  output : List (Nat × Bytes)
  error : Option ε

/-- An interpreter whose `print` can be bound to a buffer, more than once. -/
structure Printer (σ ε : Type) where
  initial : σ
  register : σ → Nat → Printed σ ε
  exec : σ → Bytes → Printed σ ε

structure Sinks (σ : Type) where
  buffers : List Bytes
  handles : List Nat
  states : List σ

inductive SinkStep where
  | new
  | clone (h : Nat)
  | write (h : Nat) (b : Bytes)
  | length (h : Nat)
  | take (h : Nat)
  | interpreter (h : Nat)
  | register (id h : Nat)
  | exec (id : Nat) (code : Bytes)

inductive SinkAnswer (ε : Type) where
  | handle (h : Nat)
  | written (length : Nat)
  | length (n : Nat)
  | taken (b : Bytes)
  | interpreter (id : Nat) (e : Option ε)
  | done (e : Option ε)
  | nothing

namespace Sinks

variable {σ ε : Type}

def empty : Sinks σ := ⟨[], [], []⟩

def bufferOf? (s : Sinks σ) (h : Nat) : Option Nat := s.handles[h]?

def content (s : Sinks σ) (buffer : Nat) : Bytes := s.buffers.getD buffer .empty

def append (s : Sinks σ) (buffer : Nat) (b : Bytes) : Sinks σ :=
  { s with buffers := s.buffers.modify buffer (· ++ b) }

/-- Takes over what an interpreter did: its lines go to their buffers in order. -/
def absorb (s : Sinks σ) (output : List (Nat × Bytes)) : Sinks σ :=
  output.foldl (fun s p => s.append p.1 p.2) s

def setState (s : Sinks σ) (id : Nat) (state : σ) : Sinks σ := { s with states := s.states.set id state }

def step (p : Printer σ ε) (s : Sinks σ) : SinkStep → Sinks σ × SinkAnswer ε
  | .new =>
    ({ s with buffers := s.buffers ++ [.empty], handles := s.handles ++ [s.buffers.length] },
      .handle s.handles.length)
  | .clone h =>
    match s.bufferOf? h with
    | some b => ({ s with handles := s.handles ++ [b] }, .handle s.handles.length)
    | none => (s, .nothing)
  | .write h bytes =>
    match s.bufferOf? h with
    | some b =>
      let s := s.append b bytes
      (s, .written (s.content b).size)
    | none => (s, .nothing)
  | .length h =>
    match s.bufferOf? h with
    | some b => (s, .length (s.content b).size)
    | none => (s, .nothing)
  | .take h =>
    match s.bufferOf? h with
    | some b => ({ s with buffers := s.buffers.set b .empty }, .taken (s.content b))
    | none => (s, .nothing)
  | .interpreter h =>
    match s.bufferOf? h with
    | some b =>
      let r := p.register p.initial b
      (({ s with states := s.states ++ [r.state] }).absorb r.output,
        .interpreter s.states.length r.error)
    | none => (s, .nothing)
  | .register id h =>
    match s.bufferOf? h, s.states[id]? with
    | some b, some state =>
      let r := p.register state b
      ((s.setState id r.state).absorb r.output, .done r.error)
    | _, _ => (s, .nothing)
  | .exec id code =>
    match s.states[id]? with
    | some state =>
      let r := p.exec state code
      ((s.setState id r.state).absorb r.output, .done r.error)
    | none => (s, .nothing)

def run (p : Printer σ ε) : Sinks σ → List SinkStep → List (SinkAnswer ε)
  | _, [] => []
  | s, x :: rest =>
    let (s, a) := step p s x
    a :: run p s rest

end Sinks

end LuaPages
