import LuaPages.Proofs.Document.Driver

namespace LuaPages.Document

def Failure.inTime {ε : Type} : Failure ε → Failure (Option ε)
  | .script line e => .script line (some e)
  | .refused => .refused

/-- How a run under a limit compares with the run without one: it took too long, or the two did the
same. -/
def Matches (timed : Outcome (Lua.State × List Bytes) (Option Lua.ChunkError))
    (free : Outcome Lua.State Lua.ChunkError) : Prop :=
  (∃ line, timed.failure = some (.script line none)) ∨
    (timed.session.state.1 = free.session.state ∧ timed.session.sink = free.session.sink ∧
      timed.out = free.out ∧ timed.failure = free.failure.map Failure.inTime)

theorem matches_done (state : Lua.State) (outputs : List Bytes) (sink : Bytes) (out : Destination) :
    Matches (.done ⟨(state, outputs), sink⟩ out) (.done ⟨state, sink⟩ out) :=
  .inr ⟨rfl, rfl, rfl, rfl⟩

theorem matches_writing (b : Bytes) (state : Lua.State) (outputs : List Bytes) (sink : Bytes)
    (out : Destination) :
    Matches (writing b ⟨(state, outputs), sink⟩ out) (writing b ⟨state, sink⟩ out) := by
  refine .inr ⟨rfl, rfl, rfl, ?_⟩
  simp only [writing]
  cases (out.write b).2 <;> rfl

theorem matches_running (limit : Duration) (line : Nat) (c : Bytes) (state : Lua.State)
    (outputs : List Bytes) (sink : Bytes) (out : Destination) :
    Matches (running (runRegionWithin limit) line c ⟨(state, outputs), sink⟩ out)
      (running runRegion line c ⟨state, sink⟩ out) := by
  rcases hrun : runRegion state c with ⟨next, printed, e⟩
  by_cases hover : isOver limit next = true
  · refine .inl ⟨line, ?_⟩
    simp only [running, Session.exec, runRegionWithin, hrun, hover, if_true]
  · refine .inr ?_
    cases e with
    | some e =>
      simp only [running, Session.exec, runRegionWithin, hrun, hover, Bool.false_eq_true, if_false,
        Option.map_some, Failure.inTime, and_self]
    | none =>
      simp only [running, Session.exec, runRegionWithin, hrun, hover, Bool.false_eq_true, if_false,
        Option.map_none, Session.drain, true_and]
      by_cases htaken : (out.write (sink ++ printed)).2 = true <;> simp [htaken, Failure.inTime]

theorem Matches.andThen {timed : Outcome (Lua.State × List Bytes) (Option Lua.ChunkError)}
    {free : Outcome Lua.State Lua.ChunkError}
    {next : Session (Lua.State × List Bytes) → Destination →
      Outcome (Lua.State × List Bytes) (Option Lua.ChunkError)}
    {next' : Session Lua.State → Destination → Outcome Lua.State Lua.ChunkError}
    (h : Matches timed free)
    (hnext : ∀ state outputs sink out,
      Matches (next ⟨(state, outputs), sink⟩ out) (next' ⟨state, sink⟩ out)) :
    Matches (timed.andThen next) (free.andThen next') := by
  rcases h with ⟨line, hover⟩ | ⟨hstate, hsink, hout, hfailure⟩
  · -- only the run without a limit goes on
    refine .inl ⟨line, ?_⟩
    rw [Outcome.andThen_of_failed timed next (by rw [hover]; exact Option.some_ne_none _), hover]
  · cases hfree : free.failure with
    | some f =>
      rw [hfree] at hfailure
      rw [Outcome.andThen_of_failed timed next (by rw [hfailure]; exact Option.some_ne_none _),
        Outcome.andThen_of_failed free next' (by rw [hfree]; exact Option.some_ne_none _)]
      exact .inr ⟨hstate, hsink, hout, by rw [hfailure, hfree]⟩
    | none =>
      rw [hfree] at hfailure
      rw [Outcome.andThen_of_done timed next hfailure, Outcome.andThen_of_done free next' hfree]
      obtain ⟨⟨⟨state, outputs⟩, sink⟩, out, failure, ran⟩ := timed
      dsimp only at hstate hsink hout
      subst hstate hsink hout
      exact hnext free.session.state outputs free.session.sink free.out

theorem matches_expand (limit : Duration) (l : List Segment) (line : Nat) (state : Lua.State)
    (outputs : List Bytes) (sink : Bytes) (out : Destination) :
    Matches (Segment.expand (runRegionWithin limit) l line ⟨(state, outputs), sink⟩ out)
      (Segment.expand runRegion l line ⟨state, sink⟩ out) := by
  induction l generalizing line state outputs sink out with
  | nil => exact matches_done state outputs sink out
  | cons x l ih =>
    have hx : Matches (x.perform (runRegionWithin limit) line ⟨(state, outputs), sink⟩ out)
        (x.perform runRegion line ⟨state, sink⟩ out) := by
      cases x with
      | text b => exact matches_writing b state outputs sink out
      | region c => exact matches_running limit _ c state outputs sink out
      | unclosed c => exact matches_running limit _ c state outputs sink out
    exact hx.andThen fun state outputs sink out => ih _ state outputs sink out

open Expansion in
theorem run_within (limit : Duration) (doc : Bytes) :
    let timed := run (runRegionWithin limit) (newState, []) doc .unlimited
    let free := run runRegion newState doc .unlimited
    (∃ line, timed.2 = some (.script line none)) ∨
      (timed.1.session.state.1 = free.1.session.state ∧ timed.1.out = free.1.out ∧
        timed.2 = free.2.map Failure.inTime) := by
  intro timed free
  have h := matches_expand limit (Segment.read doc) 1 newState [] .empty .unlimited
  change Matches (Segment.expand (runRegionWithin limit) _ 1 (.start (newState, [])) _)
    (Segment.expand runRegion _ 1 (.start newState) _) at h
  rcases h with ⟨line, hover⟩ | ⟨hstate, -, hout, hfailure⟩
  · exact .inl ⟨line, by rw [run_failure, hover]⟩
  · refine .inr ⟨?_, ?_, ?_⟩
    · rw [run_session, run_session, hstate]
    · rw [run_out, run_out, hout]
    · rw [run_failure, run_failure, hfailure]

/-- Under a limit a document takes too long, or comes out as it does without one. -/
theorem renderWithin_cases (limit : Duration) (doc : Bytes) :
    renderWithin (some limit) doc = .error (.overrun limit) ∨
      renderWithin (some limit) doc = renderWithin none doc := by
  have h := run_within limit doc
  simp only [renderWithin, interpretWithin, render, interpret]
  generalize Expansion.run (runRegionWithin limit) (newState, []) doc .unlimited = timed at h ⊢
  generalize Expansion.run runRegion newState doc .unlimited = free at h ⊢
  obtain ⟨x, f⟩ := timed
  obtain ⟨y, g⟩ := free
  dsimp only at h ⊢
  rcases h with ⟨line, rfl⟩ | ⟨-, hout, rfl⟩
  · exact .inl rfl
  rcases g with _ | ⟨line, e⟩ | _
  · -- a document that is through may still have taken too long
    by_cases hover : isOver limit x.session.state.1 = true
    · refine .inl ?_
      simp only [Option.map_none, hover, if_true]
    · refine .inr ?_
      simp only [Option.map_none, hover, Bool.false_eq_true, if_false, hout]
      rfl
  · exact .inr rfl
  · exact .inr rfl

def OverrunOrDone (o : Outcome (Lua.State × List Bytes) (Option Lua.ChunkError)) : Prop :=
  (∃ line, o.failure = some (.script line none)) ∨ o.failure = none ∧ o.out.room = none

theorem overrunOrDone_writing (b : Bytes) (s : Session (Lua.State × List Bytes)) {out : Destination}
    (h : out.room = none) : OverrunOrDone (writing b s out) := by
  refine .inr ?_
  simp [writing, Destination.write, h]

theorem OverrunOrDone.andThen {o : Outcome (Lua.State × List Bytes) (Option Lua.ChunkError)}
    {next : Session (Lua.State × List Bytes) → Destination →
      Outcome (Lua.State × List Bytes) (Option Lua.ChunkError)}
    (h : OverrunOrDone o) (hnext : ∀ s out, out.room = none → OverrunOrDone (next s out)) :
    OverrunOrDone (o.andThen next) := by
  rcases h with ⟨line, hover⟩ | ⟨hdone, hroom⟩
  · rw [Outcome.andThen_of_failed o next (by rw [hover]; exact Option.some_ne_none _)]
    exact .inl ⟨line, hover⟩
  · rw [Outcome.andThen_of_done o next hdone]
    exact hnext o.session o.out hroom

section
variable {limit : Duration} (hlimit : ∀ state, isOver limit state = true)
include hlimit

theorem overrunOrDone_running (line : Nat) (c : Bytes) (s : Session (Lua.State × List Bytes))
    (out : Destination) : OverrunOrDone (running (runRegionWithin limit) line c s out) := by
  obtain ⟨⟨state, outputs⟩, sink⟩ := s
  refine .inl ⟨line, ?_⟩
  simp only [running, Session.exec, runRegionWithin, hlimit, if_true]

theorem overrunOrDone_expand (l : List Segment) (line : Nat) (s : Session (Lua.State × List Bytes))
    {out : Destination} (h : out.room = none) :
    OverrunOrDone (Segment.expand (runRegionWithin limit) l line s out) := by
  induction l generalizing line s out with
  | nil => exact .inr ⟨rfl, h⟩
  | cons x l ih =>
    have hx : OverrunOrDone (x.perform (runRegionWithin limit) line s out) := by
      cases x with
      | text b => exact overrunOrDone_writing b s h
      | region c | unclosed c => exact overrunOrDone_running hlimit _ c s out
    exact hx.andThen fun s out hroom => ih _ s hroom

open Expansion in
theorem renderWithin_of_isOver (doc : Bytes) :
    renderWithin (some limit) doc = .error (.overrun limit) := by
  have h : (∃ line, (run (runRegionWithin limit) (newState, []) doc .unlimited).2 =
      some (.script line none)) ∨ (run (runRegionWithin limit) (newState, []) doc .unlimited).2 = none := by
    rw [run_failure]
    exact (overrunOrDone_expand hlimit _ _ _ rfl).imp_right And.left
  simp only [renderWithin, interpretWithin]
  generalize run (runRegionWithin limit) (newState, []) doc .unlimited = timed at h ⊢
  obtain ⟨x, f⟩ := timed
  dsimp only at h ⊢
  rcases h with ⟨line, rfl⟩ | rfl
  · rfl
  · simp only [hlimit, if_true]

end

/-- With no time at all every document takes too long, even one without regions. -/
theorem renderWithin_zero (doc : Bytes) : renderWithin (some ⟨0⟩) doc = .error (.overrun ⟨0⟩) := by
  apply renderWithin_of_isOver
  intro state
  rw [isOver, decide_eq_true_iff]
  exact Nat.zero_le _

end LuaPages.Document
