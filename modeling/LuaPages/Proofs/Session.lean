import Mathlib.Data.List.Forall2
import LuaPages.Proofs.Text.Bytes
import LuaPages.Sessions

namespace LuaPages

variable {σ ε : Type}

namespace Behaviour

def stateAfter (behaviour : Behaviour σ ε) (state : σ) : List Bytes → σ
  | [] => state
  | c :: r => stateAfter behaviour (behaviour state c).1 r

/-- What chunks print, one after another. What a chunk printed before it failed counts too. -/
def printed (behaviour : Behaviour σ ε) (state : σ) : List Bytes → Bytes
  | [] => .empty
  | c :: r => (behaviour state c).2.1 ++ printed behaviour (behaviour state c).1 r

theorem stateAfter_append (behaviour : Behaviour σ ε) (state : σ) (l r : List Bytes) :
    behaviour.stateAfter state (l ++ r) = behaviour.stateAfter (behaviour.stateAfter state l) r := by
  induction l generalizing state with
  | nil => rfl
  | cons c l ih => exact ih _

theorem printed_append (behaviour : Behaviour σ ε) (state : σ) (l r : List Bytes) :
    behaviour.printed state (l ++ r) =
      behaviour.printed state l ++ behaviour.printed (behaviour.stateAfter state l) r := by
  induction l generalizing state with
  | nil => exact ByteArray.empty_append.symm
  | cons c l ih => rw [List.cons_append, printed, ih, ← ByteArray.append_assoc]; rfl

theorem printed_append_singleton (behaviour : Behaviour σ ε) (state : σ) (l : List Bytes) (c : Bytes) :
    behaviour.printed state (l ++ [c]) =
      behaviour.printed state l ++ (behaviour (behaviour.stateAfter state l) c).2.1 := by
  rw [printed_append, printed, printed, ByteArray.append_empty]

end Behaviour

/-- A drain as its destination saw it: the room that there was, the bytes that came, and whether all
were taken. -/
structure Drain where
  limit : Option Nat
  out : Bytes
  taken : Bool

/-- A destination that is offered some bytes takes all of them, or the first ones if there is no room
for more. -/
structure Drain.Takes (d : Drain) (offered : Bytes) : Prop where
  unlimited : d.limit = none → d.out = offered ∧ d.taken = true
  limited : ∀ n, d.limit = some n →
    d.out = offered.extract 0 n ∧ (d.taken = false ↔ n < offered.size)

namespace Session

theorem drain_takes (x : Session σ) (limit : Option Nat) :
    let r := x.drain (.ofLimit limit)
    r.1 = ⟨x.state, .empty⟩ ∧ Drain.Takes ⟨limit, r.2.1.written, r.2.2⟩ x.sink := by
  refine ⟨rfl, ?_, ?_⟩
  · rintro rfl
    exact ⟨ByteArray.empty_append, rfl⟩
  · rintro n rfl
    exact ⟨ByteArray.empty_append, by simp [drain, Destination.write, Destination.ofLimit]⟩

/-- What has been done with one session: the chunks that it ran before it was last drained, and those
that it has run since. -/
inductive History where
  | unmade
  | live (drained waiting : List Bytes)
  | dropped (drained : List Bytes)

namespace History

def step : History → SessionStep → History
  | .unmade, .new => .live [] []
  | .live drained waiting, .exec _ chunk => .live drained (waiting ++ [chunk])
  | .live drained waiting, .drain _ _ => .live (drained ++ waiting) []
  | .live drained _, .drop _ => .dropped drained
  | h, _ => h

def drained : History → List Bytes
  | .unmade => []
  | .live drained _ => drained
  | .dropped drained => drained

def slot (initial : σ) (behaviour : Behaviour σ ε) : History → Option (Option (Session σ))
  | .unmade => none
  | .live drained waiting =>
    some (some ⟨behaviour.stateAfter initial (drained ++ waiting),
      behaviour.printed (behaviour.stateAfter initial drained) waiting⟩)
  | .dropped _ => some none

end History

end Session

def SessionStep.alone : SessionStep → SessionStep
  | .new => .new
  | .exec _ chunk => .exec 0 chunk
  | .drain _ limit => .drain 0 limit
  | .drop _ => .drop 0

def SessionAnswer.alone : SessionAnswer ε → SessionAnswer ε
  | .created _ => .created 0
  | a => a

def SessionStep.drain? : SessionStep → SessionAnswer ε → Option Drain
  | .drain _ limit, .drained out taken => some ⟨limit, out, taken⟩
  | _, _ => none

theorem SessionStep.drain?_alone (s : SessionStep) (a : SessionAnswer ε) :
    s.drain? a.alone = s.drain? a := by
  cases s <;> cases a <;> rfl

namespace Session.History

variable {initial : σ} {behaviour : Behaviour σ ε} {h : History}

/-- The history goes on with each step as the session does. -/
theorem step_slot (s : SessionStep) (hnew : s = .new → h = .unmade) :
    (Sessions.step initial behaviour (h.slot initial behaviour).toList s.alone).1 =
      ((h.step s).slot initial behaviour).toList := by
  cases h with
  | unmade => cases s <;> rfl
  | dropped =>
    cases s with
    | new => cases hnew rfl
    | exec | drain | drop => rfl
  | live drained waiting =>
    cases s with
    | new => cases hnew rfl
    | drop => rfl
    | exec _ chunk =>
      simp only [step, slot, Behaviour.printed_append_singleton, Behaviour.stateAfter_append]
      rfl
    | drain =>
      simp only [step, slot, List.append_nil]
      rfl

/-- The drains of a session get what its chunks printed before the last drain, each one a part of it
that begins where the part before it ends. -/
def Shared (initial : σ) (behaviour : Behaviour σ ε) (h : History) (drains : List Drain) : Prop :=
  ∃ parts, Bytes.concat parts = behaviour.printed initial h.drained ∧
    List.Forall₂ (fun part d => Drain.Takes d part) parts drains

theorem Shared.step {drains : List Drain} (hshared : h.Shared initial behaviour drains)
    (s : SessionStep) :
    (h.step s).Shared initial behaviour (drains ++
      (s.drain? (Sessions.step initial behaviour (h.slot initial behaviour).toList s.alone).2).toList) := by
  obtain ⟨parts, hparts, htakes⟩ := hshared
  have hsame : List.Forall₂ (fun part d => Drain.Takes d part) parts (drains ++ []) :=
    (List.append_nil drains).symm ▸ htakes
  cases h with
  | unmade | dropped => cases s <;> exact ⟨parts, hparts, hsame⟩
  | live drained waiting =>
    cases s with
    | new | exec | drop => exact ⟨parts, hparts, hsame⟩
    | drain _ limit =>
      refine ⟨parts ++ [behaviour.printed (behaviour.stateAfter initial drained) waiting], ?_, ?_⟩
      · rw [Bytes.concat_append, hparts, Bytes.concat, Bytes.concat, ByteArray.append_empty]
        exact (Behaviour.printed_append behaviour initial drained waiting).symm
      · exact List.rel_append htakes (.cons (drain_takes _ limit).2 .nil)

end Session.History

end LuaPages
