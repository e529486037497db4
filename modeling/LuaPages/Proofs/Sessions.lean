import LuaPages.Proofs.Session
/-!
Sessions side by side. A step on one of them changes no other one, so each answers as if it were the
only one; and what its chunks print is offered to a destination once, at the next drain. This holds of
any behaviour, so of the script language with all that its states hold.
-/
namespace LuaPages

variable {σ ε α : Type}

namespace SessionStep

/-- The session that a step is about, if so many have been made before it. -/
def subject (made : Nat) : SessionStep → Nat
  | .new => made
  | .exec id _ | .drain id _ | .drop id => id

def madeAfter (made : Nat) : SessionStep → Nat
  | .new => made + 1
  | _ => made

end SessionStep

namespace Sessions

/-- Of what belongs to steps, one for each of them, what belongs to those about session `k`. -/
def ownOf (k : Nat) : Nat → List SessionStep → List α → List α
  | made, s :: steps, x :: xs =>
    if s.subject made = k then x :: ownOf k (s.madeAfter made) steps xs
    else ownOf k (s.madeAfter made) steps xs
  | _, _, _ => []

section
variable (initial : σ) (behaviour : Behaviour σ ε)

def after : Sessions σ → List SessionStep → Sessions σ
  | ss, [] => ss
  | ss, s :: rest => after (step initial behaviour ss s).1 rest

variable (ss : Sessions σ)

theorem after_append (l r : List SessionStep) :
    after initial behaviour ss (l ++ r) = after initial behaviour (after initial behaviour ss l) r := by
  induction l generalizing ss with
  | nil => rfl
  | cons s l ih => exact ih _

/-- The answer to a step is given by the sessions that the steps before it leave. -/
theorem getElem?_run (before rest : List SessionStep) (s : SessionStep) :
    (run initial behaviour ss (before ++ s :: rest))[before.length]? =
      some (step initial behaviour (after initial behaviour ss before) s).2 := by
  induction before generalizing ss with
  | nil => rfl
  | cons x before ih => exact ih _

theorem length_step (s : SessionStep) :
    (step initial behaviour ss s).1.length = s.madeAfter ss.length := by
  cases s with
  | new => exact List.length_append
  | exec | drain | drop =>
    simp only [step]
    split
    · rfl
    · exact List.length_set

/-- A step changes no session but the one that it is about. -/
theorem step_other {k : Nat} {s : SessionStep} (hother : s.subject ss.length ≠ k) :
    (step initial behaviour ss s).1[k]? = ss[k]? := by
  cases s with
  | new =>
    change (ss ++ [some (.start initial)])[k]? = _
    rcases Nat.lt_or_gt_of_ne hother with h | h
    · rw [List.getElem?_eq_none (Nat.le_of_lt h), List.getElem?_eq_none]
      rwa [List.length_append]
    · exact List.getElem?_append_left h
  | exec | drain | drop =>
    simp only [step]
    split
    · rfl
    · exact List.getElem?_set_ne hother

/-- What a step does to its session, and its answer, are as they would be if no other session were
there. -/
theorem step_alone {k : Nat} {s : SessionStep} (hown : s.subject ss.length = k) :
    step initial behaviour ss[k]?.toList s.alone =
      ((step initial behaviour ss s).1[k]?.toList, (step initial behaviour ss s).2.alone) := by
  cases s with
  | new =>
    obtain rfl : ss.length = k := hown
    simp [step, SessionStep.alone, SessionAnswer.alone]
  | exec id _ | drain id _ | drop id =>
    obtain rfl : id = k := hown
    -- not made yet, dropped, or there; by itself the session is at the only place, if at any
    rcases h : ss[id]? with _ | _ | x
    · simp [step, find?, h, SessionStep.alone, SessionAnswer.alone]
    · simp [step, find?, h, SessionStep.alone, SessionAnswer.alone]
    · have hset (slot : Option (Session σ)) : (ss.set id slot)[id]? = some slot :=
        List.getElem?_set_self (List.getElem?_eq_some_iff.mp h).1
      simp [step, find?, h, hset, SessionStep.alone, SessionAnswer.alone]

/-- A drain of a session that is there leaves an empty sink, however much has been taken. -/
theorem step_drain {k : Nat} {x : Session σ} (hfind : ss.find? k = some x) (limit : Option Nat) :
    let r := step initial behaviour ss (.drain k limit)
    (∃ d : Drain, d.limit = limit ∧ d.Takes x.sink ∧ r.2 = .drained d.out d.taken) ∧
      r.1.find? k = some ⟨x.state, .empty⟩ := by
  have hlt : k < ss.length := by
    obtain ⟨hlt, -⟩ := List.getElem?_eq_some_iff.mp (Option.join_eq_some_iff.mp hfind)
    exact hlt
  intro r
  have hr : r = (ss.set k (some (x.drain (.ofLimit limit)).1),
      .drained (x.drain (.ofLimit limit)).2.1.written (x.drain (.ofLimit limit)).2.2) := by
    simp only [r, step, hfind]
  obtain ⟨hleft, htakes⟩ := x.drain_takes limit
  rw [hr]
  refine ⟨⟨_, rfl, htakes, rfl⟩, ?_⟩
  rw [find?, List.getElem?_set_self hlt, hleft, Option.join_some]

theorem ownOf_cons_own {k made : Nat} {s : SessionStep} (hown : s.subject made = k)
    (steps : List SessionStep) (x : α) (xs : List α) :
    ownOf k made (s :: steps) (x :: xs) = x :: ownOf k (s.madeAfter made) steps xs := if_pos hown

theorem ownOf_cons_other {k made : Nat} {s : SessionStep} (hother : s.subject made ≠ k)
    (steps : List SessionStep) (x : α) (xs : List α) :
    ownOf k made (s :: steps) (x :: xs) = ownOf k (s.madeAfter made) steps xs := if_neg hother

/-- The answers to the steps about a session are those of a run of these steps only. -/
theorem own_answers (k : Nat) (steps : List SessionStep) :
    (ownOf k ss.length steps (run initial behaviour ss steps)).map SessionAnswer.alone =
      run initial behaviour ss[k]?.toList ((ownOf k ss.length steps steps).map SessionStep.alone) := by
  induction steps generalizing ss with
  | nil => rfl
  | cons s steps ih =>
    have ih := ih (step initial behaviour ss s).1
    rw [length_step] at ih
    -- a step of its own moves both runs on, another one leaves the session as it is
    by_cases hown : s.subject ss.length = k
    · rw [run, ownOf_cons_own hown, ownOf_cons_own hown, List.map_cons, List.map_cons, run,
        step_alone initial behaviour ss hown, ih]
    · rw [run, ownOf_cons_other hown, ownOf_cons_other hown, ih,
        step_other initial behaviour ss hown]

def drainsOf (k made : Nat) (steps : List SessionStep) (answers : List (SessionAnswer ε)) : List Drain :=
  (ownOf k made steps (steps.zip answers)).filterMap fun p => p.1.drain? p.2

theorem drainsOf_cons_own {k made : Nat} {s : SessionStep} (hown : s.subject made = k)
    (steps : List SessionStep) (a : SessionAnswer ε) (answers : List (SessionAnswer ε)) :
    drainsOf k made (s :: steps) (a :: answers) =
      (s.drain? a).toList ++ drainsOf k (s.madeAfter made) steps answers := by
  rw [drainsOf, List.zip_cons_cons, ownOf_cons_own hown, List.filterMap_cons]
  cases s.drain? a <;> rfl

theorem drainsOf_cons_other {k made : Nat} {s : SessionStep} (hother : s.subject made ≠ k)
    (steps : List SessionStep) (a : SessionAnswer ε) (answers : List (SessionAnswer ε)) :
    drainsOf k made (s :: steps) (a :: answers) = drainsOf k (s.madeAfter made) steps answers := by
  rw [drainsOf, List.zip_cons_cons, ownOf_cons_other hother]
  rfl

def history (k : Nat) (steps : List SessionStep) : Session.History :=
  (ownOf k 0 steps steps).foldl Session.History.step .unmade

end

/-- Sessions of which number `k` has a given history, with the drains that it has answered. -/
structure Tracks (initial : σ) (behaviour : Behaviour σ ε) (k : Nat) (ss : Sessions σ)
    (h : Session.History) (drains : List Drain) : Prop where
  slot : ss[k]? = h.slot initial behaviour
  shared : h.Shared initial behaviour drains

namespace Tracks

variable {initial : σ} {behaviour : Behaviour σ ε} {k : Nat} {ss : Sessions σ} {h : Session.History}
  {drains : List Drain} {s : SessionStep}

theorem step_own (ht : Tracks initial behaviour k ss h drains) (hown : s.subject ss.length = k) :
    Tracks initial behaviour k (step initial behaviour ss s).1 (h.step s)
      (drains ++ (s.drain? (step initial behaviour ss s).2).toList) := by
  have halone := Sessions.step_alone initial behaviour ss hown
  rw [ht.slot] at halone
  -- a new session gets the next number, at which nothing has been done yet
  have hnew : s = .new → h = .unmade := by
    rintro rfl
    have hempty := ht.slot
    rw [← hown, SessionStep.subject, List.getElem?_eq_none (Nat.le_refl _)] at hempty
    cases h with
    | unmade => rfl
    | live | dropped => cases hempty
  constructor
  · have hslot : (step initial behaviour (h.slot initial behaviour).toList s.alone).1 =
        ((h.step s).slot initial behaviour).toList := Session.History.step_slot s hnew
    simp only [halone] at hslot
    have hhead := congrArg List.head? hslot
    rwa [Option.head?_toList, Option.head?_toList] at hhead
  · have hshared := ht.shared.step s
    rwa [halone, SessionStep.drain?_alone] at hshared

theorem step_other (ht : Tracks initial behaviour k ss h drains) (hother : s.subject ss.length ≠ k) :
    Tracks initial behaviour k (step initial behaviour ss s).1 h drains :=
  ⟨(Sessions.step_other initial behaviour ss hother).trans ht.slot, ht.shared⟩

theorem after (ht : Tracks initial behaviour k ss h drains) (steps : List SessionStep) :
    Tracks initial behaviour k (after initial behaviour ss steps)
      ((ownOf k ss.length steps steps).foldl Session.History.step h)
      (drains ++ drainsOf k ss.length steps (run initial behaviour ss steps)) := by
  induction steps generalizing ss h drains with
  | nil => exact (List.append_nil drains).symm ▸ ht
  | cons s steps ih =>
    by_cases hown : s.subject ss.length = k
    · have hsteps := ih (ht.step_own hown)
      rw [length_step, List.append_assoc] at hsteps
      rw [run, drainsOf_cons_own hown, ownOf_cons_own hown]
      exact hsteps
    · have hsteps := ih (ht.step_other hown)
      rw [length_step] at hsteps
      rw [run, drainsOf_cons_other hown, ownOf_cons_other hown]
      exact hsteps

theorem of_run (initial : σ) (behaviour : Behaviour σ ε) (k : Nat) (steps : List SessionStep) :
    Tracks initial behaviour k (Sessions.after initial behaviour [] steps) (history k steps)
      (drainsOf k 0 steps (run initial behaviour [] steps)) := by
  have hstart : Tracks initial behaviour k [] .unmade [] := ⟨rfl, [], rfl, .nil⟩
  exact hstart.after steps

theorem find? (ht : Tracks initial behaviour k ss h drains) :
    ss.find? k = (h.slot initial behaviour).join := congrArg Option.join ht.slot

end Tracks

/-- A drain of session `k`, wherever it stands among steps on any sessions, is offered what the chunks of
the session have printed since its last drain, and leaves nothing behind. All drains together get what
was printed before the last one, each part of it once. The answers to the steps about a session are
those of a run of these steps only. -/
theorem drained_once_and_alone (initial : σ) (behaviour : Behaviour σ ε) (k : Nat)
    (steps : List SessionStep) :
    let answers := run initial behaviour [] steps
    (∀ before limit rest, steps = before ++ .drain k limit :: rest →
      (∀ drained waiting, history k before = .live drained waiting →
        let offered := behaviour.printed (behaviour.stateAfter initial drained) waiting
        ∃ d : Drain, d.limit = limit ∧ d.Takes offered ∧
          answers[before.length]? = some (.drained d.out d.taken) ∧
          ∃ x, (after initial behaviour [] (before ++ [.drain k limit])).find? k = some x ∧
            x.sink = .empty) ∧
      ((∀ drained waiting, history k before ≠ .live drained waiting) →
        answers[before.length]? = some .noSession)) ∧
    (history k steps).Shared initial behaviour (drainsOf k 0 steps answers) ∧
    (ownOf k 0 steps answers).map .alone =
      run initial behaviour [] ((ownOf k 0 steps steps).map .alone) := by
  intro answers
  refine ⟨?_, (Tracks.of_run initial behaviour k steps).shared, own_answers initial behaviour [] k steps⟩
  rintro before limit rest rfl
  -- what the steps before the drain have made of the session is known from its history
  have hfind := (Tracks.of_run initial behaviour k before).find?
  constructor
  · intro drained waiting hlive offered
    rw [hlive] at hfind
    obtain ⟨⟨d, hlimit, htakes, hanswer⟩, hleft⟩ := step_drain initial behaviour _ hfind limit
    refine ⟨d, hlimit, htakes, ?_, ?_⟩
    · rw [getElem?_run, hanswer]
    · rw [after_append]
      exact ⟨_, hleft, rfl⟩
  · intro hgone
    have hnone : (after initial behaviour [] before).find? k = none := by
      rw [hfind]
      cases h : history k before with
      | unmade | dropped => rfl
      | live drained waiting => exact absurd h (hgone drained waiting)
    rw [getElem?_run]
    simp only [step, hnone]

end Sessions

end LuaPages
