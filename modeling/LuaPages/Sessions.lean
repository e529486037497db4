import LuaPages.Session

namespace LuaPages

inductive SessionStep where
  | new
  | exec (id : Nat) (chunk : Bytes)
  | drain (id : Nat) (limit : Option Nat)
  | drop (id : Nat)

inductive SessionAnswer (ε : Type) where
  | created (id : Nat)
  | ran (e : Option ε)
  | drained (out : Bytes) (taken : Bool)
  | dropped
  | noSession

/-- The sessions in the order of their making; a dropped one leaves its place empty. -/
abbrev Sessions (σ : Type) := List (Option (Session σ))

namespace Sessions

variable {σ ε : Type}

def find? (ss : Sessions σ) (id : Nat) : Option (Session σ) := (ss[id]?).join

def step (initial : σ) (behaviour : Behaviour σ ε) (ss : Sessions σ) (s : SessionStep) :
    Sessions σ × SessionAnswer ε :=
  match s with
  | .new => (ss ++ [some (.start initial)], .created ss.length)
  | .exec id chunk =>
    match ss.find? id with
    | none => (ss, .noSession)
    | some x =>
      let (x, e) := x.exec behaviour chunk
      (ss.set id (some x), .ran e)
  | .drain id limit =>
    match ss.find? id with
    | none => (ss, .noSession)
    | some x =>
      let (x, out, taken) := x.drain (.ofLimit limit)
      (ss.set id (some x), .drained out.written taken)
  | .drop id =>
    match ss.find? id with
    | none => (ss, .noSession)
    | some _ => (ss.set id none, .dropped)

def run (initial : σ) (behaviour : Behaviour σ ε) : Sessions σ → List SessionStep → List (SessionAnswer ε)
  | _, [] => []
  | ss, s :: rest =>
    let (ss, a) := step initial behaviour ss s
    a :: run initial behaviour ss rest

end Sessions

end LuaPages
