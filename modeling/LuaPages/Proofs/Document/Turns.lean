import LuaPages.Proofs.Document.Outcome

namespace LuaPages.Document.Expansion

variable {σ ε : Type}

def turns (behaviour : Behaviour σ ε) (doc : Bytes) : Nat → Expansion σ → List (Expansion σ)
  | 0, x => [x]
  | fuel + 1, x =>
    if h : x.cursor < doc.size then
      match step behaviour doc (doc.get x.cursor h) x with
      | (y, none) => x :: turns behaviour doc fuel y
      | (_, some _) => [x]
    else [x]

/-- Whether the turn that begins in a state, or the end of the document there, runs the pending
source. -/
def runsPending (doc : Bytes) (x : Expansion σ) : Bool :=
  x.mode == .inScript &&
    (isCloseMarker doc x.cursor || (decide (doc.size ≤ x.cursor) && !x.pending.isEmpty))

def dispatchAt (doc : Bytes) (x : Expansion σ) : List (Bytes × Nat) :=
  if runsPending doc x then [(x.pending, x.out.written.size)] else []

def dispatches (behaviour : Behaviour σ ε) (state : σ) (doc : Bytes) (out : Destination) :
    List (Bytes × Nat) :=
  (turns behaviour doc doc.size (start state out)).flatMap (dispatchAt doc)

/-- The chunks of a run in order, as the session saw them. -/
def executed (behaviour : Behaviour σ ε) (state : σ) (doc : Bytes) (out : Destination) : List Bytes :=
  (run behaviour.logged (state, []) doc out).1.session.state.2

/-- What has been found in a state: the text that is to be written, or the source that is to be run. -/
def foundAt (doc : Bytes) (x : Expansion σ) : List Segment :=
  match x.mode with
  | .literal =>
    if isOpenMarker doc x.cursor then [.text (doc.extract x.literalStart x.cursor)]
    else if doc.size ≤ x.cursor then [.text (doc.extract x.literalStart doc.size)]
    else []
  | .inScript =>
    if isCloseMarker doc x.cursor then [.region x.pending]
    else if doc.size ≤ x.cursor ∧ x.pending.isEmpty = false then [.unclosed x.pending]
    else []

def found (behaviour : Behaviour σ ε) (state : σ) (doc : Bytes) (out : Destination) : List Segment :=
  (turns behaviour doc doc.size (start state out)).flatMap (foundAt doc)

theorem lineFeeds_get_of_marker (doc p : Bytes) (i : Nat) (hp : 0 < p.size) (hlines : p.lineFeeds = 0)
    (h : i + p.size ≤ doc.size) (hcut : doc.extract i (i + p.size) = p) :
    (Bytes.singleton (doc.get i (by omega))).lineFeeds = 0 := by
  rw [Bytes.extract_eq_singleton_append doc i _ (by omega) h] at hcut
  rw [← hcut, Bytes.lineFeeds_append] at hlines
  omega

theorem passLine_eq (b : UInt8) (line : Nat) :
    (if b == 10 then line + 1 else line) = line + (Bytes.singleton b).lineFeeds := by
  rw [Bytes.lineFeeds_singleton]
  split <;> rfl

theorem step_text (behaviour : Behaviour σ ε) (doc : Bytes) (b : UInt8) (x : Expansion σ)
    (hmode : x.mode = .literal) (hopen : isOpenMarker doc x.cursor = false) :
    step behaviour doc b x =
      ({ x with cursor := x.cursor + 1, line := x.line + (Bytes.singleton b).lineFeeds }, none) := by
  simp only [step, passLine_eq, hmode, hopen, Bool.false_eq_true, if_false]

theorem step_source (behaviour : Behaviour σ ε) (doc : Bytes) (b : UInt8) (x : Expansion σ)
    (hmode : x.mode = .inScript) (hclose : isCloseMarker doc x.cursor = false) :
    step behaviour doc b x =
      ({ x with cursor := x.cursor + 1, line := x.line + (Bytes.singleton b).lineFeeds,
                pending := x.pending ++ Bytes.singleton b }, none) := by
  simp only [step, passLine_eq, hmode, hclose, Bool.false_eq_true, if_false,
    Bytes.push_eq_append_singleton]

section
variable (behaviour : Behaviour σ ε) (doc : Bytes) (x : Expansion σ) (h : x.cursor < doc.size)

theorem step_open_taken (hmode : x.mode = .literal) (hopen : isOpenMarker doc x.cursor = true)
    (hw : (x.out.write (doc.extract x.literalStart x.cursor)).2 = true) :
    step behaviour doc (doc.get x.cursor h) x =
      ({ x with out := (x.out.write (doc.extract x.literalStart x.cursor)).1,
                literalStart := x.cursor, mode := .inScript,
                cursor := x.cursor + openMarker.size }, none) := by
  -- the byte under the cursor belongs to the marker, so it is no line feed
  have hline := lineFeeds_get_of_marker doc openMarker x.cursor (by decide) lineFeeds_openMarker
    (Nat.le_of_lt (isOpenMarker_lt doc _ hopen)) (isOpenMarker_extract doc _ hopen)
  generalize doc.get x.cursor h = b at hline ⊢
  simp only [step, passLine_eq, hline, hmode, hopen, flush, hw, if_true, Nat.add_zero]

theorem step_open_refused (hmode : x.mode = .literal) (hopen : isOpenMarker doc x.cursor = true)
    (hw : (x.out.write (doc.extract x.literalStart x.cursor)).2 = false) :
    ∃ y, step behaviour doc (doc.get x.cursor h) x = (y, some .refused) ∧ y.session = x.session ∧
      y.out = (x.out.write (doc.extract x.literalStart x.cursor)).1 := by
  generalize doc.get x.cursor h = b
  simp only [step, hmode, hopen, flush, hw, Bool.false_eq_true, if_false, if_true]
  exact ⟨_, rfl, rfl, rfl⟩

theorem step_close (hmode : x.mode = .inScript) (hclose : isCloseMarker doc x.cursor = true) :
    ∃ y, step behaviour doc (doc.get x.cursor h) x =
        (y, (running behaviour x.line x.pending x.session x.out).failure) ∧
      y.session = (running behaviour x.line x.pending x.session x.out).session ∧
      y.out = (running behaviour x.line x.pending x.session x.out).out ∧
      ((running behaviour x.line x.pending x.session x.out).failure = none →
        y = ⟨x.cursor + closeMarker.size, x.line, .literal, x.cursor + closeMarker.size, .empty,
          y.session, y.out⟩) := by
  have hline := lineFeeds_get_of_marker doc closeMarker x.cursor (by decide) lineFeeds_closeMarker
    (isCloseMarker_le doc _ hclose) (isCloseMarker_extract doc _ hclose)
  generalize doc.get x.cursor h = b at hline ⊢
  -- the chunk runs and its output is taken, or it is refused, or the chunk fails
  rcases he : x.session.exec behaviour x.pending with ⟨s, _ | e⟩
  · cases ht : (s.drain x.out).2.2 with
    | true =>
      simp only [step, passLine_eq, hline, hmode, hclose, dispatch, running, he, ht, if_true,
        Nat.add_zero]
      exact ⟨_, rfl, rfl, rfl, fun _ => rfl⟩
    | false =>
      simp only [step, passLine_eq, hline, hmode, hclose, dispatch, running, he, ht, if_true,
        Bool.false_eq_true, if_false, Nat.add_zero]
      exact ⟨_, rfl, rfl, rfl, fun hf => absurd hf (Option.some_ne_none _)⟩
  · simp only [step, passLine_eq, hline, hmode, hclose, dispatch, running, he, if_true, Nat.add_zero]
    exact ⟨_, rfl, rfl, rfl, fun hf => absurd hf (Option.some_ne_none _)⟩

/-- What a turn without a failure makes of an expansion. -/
inductive Passes : Expansion σ → Prop
  | text (hmode : x.mode = .literal) (hopen : isOpenMarker doc x.cursor = false) :
      Passes { x with cursor := x.cursor + 1,
                      line := x.line + (Bytes.singleton (doc.get x.cursor h)).lineFeeds }
  | opening (hmode : x.mode = .literal) (hopen : isOpenMarker doc x.cursor = true)
      (hw : (x.out.write (doc.extract x.literalStart x.cursor)).2 = true) :
      Passes { x with out := (x.out.write (doc.extract x.literalStart x.cursor)).1,
                      literalStart := x.cursor, mode := .inScript,
                      cursor := x.cursor + openMarker.size }
  | source (hmode : x.mode = .inScript) (hclose : isCloseMarker doc x.cursor = false) :
      Passes { x with cursor := x.cursor + 1,
                      line := x.line + (Bytes.singleton (doc.get x.cursor h)).lineFeeds,
                      pending := x.pending ++ Bytes.singleton (doc.get x.cursor h) }
  | closing (hmode : x.mode = .inScript) (hclose : isCloseMarker doc x.cursor = true)
      (hdone : (running behaviour x.line x.pending x.session x.out).failure = none) :
      Passes ⟨x.cursor + closeMarker.size, x.line, .literal, x.cursor + closeMarker.size, .empty,
        (running behaviour x.line x.pending x.session x.out).session,
        (running behaviour x.line x.pending x.session x.out).out⟩

theorem passes_of_step {y : Expansion σ}
    (hstep : step behaviour doc (doc.get x.cursor h) x = (y, none)) : Passes behaviour doc x h y := by
  cases hmode : x.mode with
  | literal =>
    cases hopen : isOpenMarker doc x.cursor with
    | false =>
      rw [step_text behaviour doc _ x hmode hopen] at hstep
      cases hstep
      exact .text hmode hopen
    | true =>
      cases hw : (x.out.write (doc.extract x.literalStart x.cursor)).2 with
      | true =>
        rw [step_open_taken behaviour doc x h hmode hopen hw] at hstep
        cases hstep
        exact .opening hmode hopen hw
      | false =>
        -- a write that is refused makes the turn fail
        obtain ⟨z, hz, -⟩ := step_open_refused behaviour doc x h hmode hopen hw
        rw [hz] at hstep
        cases hstep
  | inScript =>
    cases hclose : isCloseMarker doc x.cursor with
    | false =>
      rw [step_source behaviour doc _ x hmode hclose] at hstep
      cases hstep
      exact .source hmode hclose
    | true =>
      obtain ⟨z, hz, hsession, hout, hnext⟩ := step_close behaviour doc x h hmode hclose
      rw [hz, Prod.mk.injEq] at hstep
      obtain ⟨rfl, hdone⟩ := hstep
      rw [hnext hdone, hsession, hout]
      exact .closing hmode hclose hdone

/-- Each turn passes at least one byte. -/
theorem cursor_lt_of_step (y : Expansion σ)
    (hstep : step behaviour doc (doc.get x.cursor h) x = (y, none)) : x.cursor < y.cursor := by
  have hpasses := passes_of_step behaviour doc x h hstep
  cases hpasses with
  | text | source => exact Nat.lt_succ_self _
  | opening | closing => exact Nat.lt_add_of_pos_right (by decide)

end

section
variable (behaviour : Behaviour σ ε) (doc : Bytes) (fuel : Nat) (x y : Expansion σ)

theorem advance_succ (h : x.cursor < doc.size) :
    advance behaviour doc (fuel + 1) x =
      match step behaviour doc (doc.get x.cursor h) x with
      | (y, none) => advance behaviour doc fuel y
      | (y, some f) => (y, some f) :=
  dif_pos h

theorem turns_succ (h : x.cursor < doc.size) :
    turns behaviour doc (fuel + 1) x =
      match step behaviour doc (doc.get x.cursor h) x with
      | (y, none) => x :: turns behaviour doc fuel y
      | (_, some _) => [x] :=
  dif_pos h

theorem advance_of_turn (h : x.cursor < doc.size)
    (hstep : step behaviour doc (doc.get x.cursor h) x = (y, none)) :
    advance behaviour doc (fuel + 1) x = advance behaviour doc fuel y ∧
      turns behaviour doc (fuel + 1) x = x :: turns behaviour doc fuel y := by
  rw [advance_succ behaviour doc fuel x h, turns_succ behaviour doc fuel x h, hstep]
  exact ⟨rfl, rfl⟩

theorem advance_of_failure (f : Failure ε) (h : x.cursor < doc.size)
    (hstep : step behaviour doc (doc.get x.cursor h) x = (y, some f)) :
    advance behaviour doc (fuel + 1) x = (y, some f) ∧ turns behaviour doc (fuel + 1) x = [x] := by
  rw [advance_succ behaviour doc fuel x h, turns_succ behaviour doc fuel x h, hstep]
  exact ⟨rfl, rfl⟩

theorem advance_at_end (h : doc.size ≤ x.cursor) :
    advance behaviour doc fuel x = finish behaviour doc x ∧ turns behaviour doc fuel x = [x] := by
  cases fuel with
  | zero => exact ⟨rfl, rfl⟩
  | succ fuel => exact ⟨dif_neg (Nat.not_lt.mpr h), dif_neg (Nat.not_lt.mpr h)⟩

/-- Turns to spare change nothing. -/
theorem advance_eq_of_le (other : Nat) (h : doc.size - x.cursor ≤ fuel)
    (h' : doc.size - x.cursor ≤ other) :
    advance behaviour doc fuel x = advance behaviour doc other x ∧
      turns behaviour doc fuel x = turns behaviour doc other x := by
  induction fuel generalizing x other with
  | zero =>
    obtain ⟨hend, hturns⟩ := advance_at_end behaviour doc 0 x (by omega)
    obtain ⟨hend', hturns'⟩ := advance_at_end behaviour doc other x (by omega)
    exact ⟨hend.trans hend'.symm, hturns.trans hturns'.symm⟩
  | succ fuel ih =>
    by_cases hlt : x.cursor < doc.size
    · obtain ⟨other, rfl⟩ : ∃ n, other = n + 1 := ⟨other - 1, by omega⟩
      rcases hstep : step behaviour doc (doc.get x.cursor hlt) x with ⟨y, _ | f⟩
      · have hy := cursor_lt_of_step behaviour doc x hlt y hstep
        obtain ⟨hadvance, hturns⟩ := ih y other (by omega) (by omega)
        obtain ⟨hnext, hcons⟩ := advance_of_turn behaviour doc fuel x y hlt hstep
        obtain ⟨hnext', hcons'⟩ := advance_of_turn behaviour doc other x y hlt hstep
        rw [hnext, hnext', hcons, hcons', hadvance, hturns]
        exact ⟨rfl, rfl⟩
      · obtain ⟨hstop, hlast⟩ := advance_of_failure behaviour doc fuel x y f hlt hstep
        obtain ⟨hstop', hlast'⟩ := advance_of_failure behaviour doc other x y f hlt hstep
        exact ⟨hstop.trans hstop'.symm, hlast.trans hlast'.symm⟩
    · obtain ⟨hend, hturns⟩ := advance_at_end behaviour doc (fuel + 1) x (by omega)
      obtain ⟨hend', hturns'⟩ := advance_at_end behaviour doc other x (by omega)
      exact ⟨hend.trans hend'.symm, hturns.trans hturns'.symm⟩

end

def runFrom (behaviour : Behaviour σ ε) (doc : Bytes) (x : Expansion σ) :
    Expansion σ × Option (Failure ε) :=
  advance behaviour doc (doc.size - x.cursor) x

def turnsFrom (behaviour : Behaviour σ ε) (doc : Bytes) (x : Expansion σ) : List (Expansion σ) :=
  turns behaviour doc (doc.size - x.cursor) x

section
variable (behaviour : Behaviour σ ε) (doc : Bytes) (x y : Expansion σ)

theorem rest_of_turn (h : x.cursor < doc.size)
    (hstep : step behaviour doc (doc.get x.cursor h) x = (y, none)) :
    runFrom behaviour doc x = runFrom behaviour doc y ∧
      turnsFrom behaviour doc x = x :: turnsFrom behaviour doc y := by
  have hy := cursor_lt_of_step behaviour doc x h y hstep
  obtain ⟨n, hn⟩ : ∃ n, doc.size - x.cursor = n + 1 := ⟨doc.size - x.cursor - 1, by omega⟩
  obtain ⟨hnext, hcons⟩ := advance_of_turn behaviour doc n x y h hstep
  obtain ⟨hadvance, hturns⟩ :=
    advance_eq_of_le behaviour doc n y (doc.size - y.cursor) (by omega) (Nat.le_refl _)
  rw [runFrom, turnsFrom, hn, hnext, hcons, hadvance, hturns]
  exact ⟨rfl, rfl⟩

theorem rest_of_failure (f : Failure ε) (h : x.cursor < doc.size)
    (hstep : step behaviour doc (doc.get x.cursor h) x = (y, some f)) :
    runFrom behaviour doc x = (y, some f) ∧ turnsFrom behaviour doc x = [x] := by
  obtain ⟨n, hn⟩ : ∃ n, doc.size - x.cursor = n + 1 := ⟨doc.size - x.cursor - 1, by omega⟩
  rw [runFrom, turnsFrom, hn]
  exact advance_of_failure behaviour doc n x y f h hstep

theorem rest_at_end (h : doc.size ≤ x.cursor) :
    runFrom behaviour doc x = finish behaviour doc x ∧ turnsFrom behaviour doc x = [x] :=
  advance_at_end behaviour doc _ x h

/-- A chain of turns in which nothing is found or run. -/
theorem rest_of_chain (y : Nat → Expansion σ) (n : Nat) (hlt : ∀ k, k < n → (y k).cursor < doc.size)
    (hstep : ∀ k (hk : k < n),
      step behaviour doc (doc.get (y k).cursor (hlt k hk)) (y k) = (y (k + 1), none))
    (hquiet : ∀ k, k < n → dispatchAt doc (y k) = [] ∧ foundAt doc (y k) = []) :
    ∃ xs, (∀ z ∈ xs, dispatchAt doc z = [] ∧ foundAt doc z = []) ∧
      runFrom behaviour doc (y 0) = runFrom behaviour doc (y n) ∧
        turnsFrom behaviour doc (y 0) = xs ++ turnsFrom behaviour doc (y n) := by
  induction n with
  | zero => exact ⟨[], fun z hz => absurd hz List.not_mem_nil, rfl, rfl⟩
  | succ n ih =>
    obtain ⟨xs, hxs, hrun, hturns⟩ := ih (fun k hk => hlt k (by omega)) (fun k hk => hstep k (by omega))
      fun k hk => hquiet k (by omega)
    obtain ⟨hnext, hcons⟩ := rest_of_turn behaviour doc (y n) (y (n + 1)) (hlt n (by omega))
      (hstep n (by omega))
    refine ⟨xs ++ [y n], ?_, hrun.trans hnext, ?_⟩
    · intro z hz
      rcases List.mem_append.mp hz with hz | hz
      · exact hxs z hz
      · rw [List.mem_singleton.mp hz]
        exact hquiet n (by omega)
    · rw [hturns, hcons, List.append_assoc, List.singleton_append]

/-- Text is passed over without anything being found or run. -/
theorem rest_of_text (j : Nat) (hmode : x.mode = .literal) (hij : x.cursor ≤ j) (hj : j ≤ doc.size)
    (hopen : ∀ k, x.cursor ≤ k → k < j → isOpenMarker doc k = false) :
    ∃ xs, (∀ z ∈ xs, dispatchAt doc z = [] ∧ foundAt doc z = []) ∧
      let y := { x with cursor := j, line := x.line + Bytes.lineFeeds (doc.extract x.cursor j) }
      runFrom behaviour doc x = runFrom behaviour doc y ∧
        turnsFrom behaviour doc x = xs ++ turnsFrom behaviour doc y := by
  obtain ⟨n, rfl⟩ := Nat.exists_eq_add_of_le hij
  let y (k : Nat) : Expansion σ :=
    { x with cursor := x.cursor + k,
             line := x.line + Bytes.lineFeeds (doc.extract x.cursor (x.cursor + k)) }
  have hnot (k : Nat) (hk : k < n) : isOpenMarker doc (x.cursor + k) = false :=
    hopen _ (Nat.le_add_right _ _) (Nat.add_lt_add_left hk _)
  have h := rest_of_chain behaviour doc y n (fun k hk => show x.cursor + k < doc.size by omega)
    (fun k hk => ?_) fun k hk => ?_
  · simpa only [y, Nat.add_zero, ByteArray.extract_same, Bytes.lineFeeds_empty] using h
  · have hcut := Bytes.extract_eq_append_singleton doc x.cursor (x.cursor + k) (by omega) (by omega)
    change step behaviour doc (doc.get (x.cursor + k) _) (y k) = _
    generalize doc.get (x.cursor + k) _ = b at hcut ⊢
    rw [step_text behaviour doc b (y k) hmode (hnot k hk)]
    simp only [y, ← Nat.add_assoc, hcut, Bytes.lineFeeds_append]
  · have hlt : ¬ doc.size ≤ x.cursor + k := by omega
    simp [y, dispatchAt, runsPending, foundAt, hmode, hnot k hk, hlt]

/-- The source of a region is collected without anything being found or run. -/
theorem rest_of_source (j : Nat) (hmode : x.mode = .inScript) (hij : x.cursor ≤ j) (hj : j ≤ doc.size)
    (hclose : ∀ k, x.cursor ≤ k → k < j → isCloseMarker doc k = false) :
    ∃ xs, (∀ z ∈ xs, dispatchAt doc z = [] ∧ foundAt doc z = []) ∧
      let y := { x with cursor := j, line := x.line + Bytes.lineFeeds (doc.extract x.cursor j),
                        pending := x.pending ++ doc.extract x.cursor j }
      runFrom behaviour doc x = runFrom behaviour doc y ∧
        turnsFrom behaviour doc x = xs ++ turnsFrom behaviour doc y := by
  obtain ⟨n, rfl⟩ := Nat.exists_eq_add_of_le hij
  let y (k : Nat) : Expansion σ :=
    { x with cursor := x.cursor + k,
             line := x.line + Bytes.lineFeeds (doc.extract x.cursor (x.cursor + k)),
             pending := x.pending ++ doc.extract x.cursor (x.cursor + k) }
  have hnot (k : Nat) (hk : k < n) : isCloseMarker doc (x.cursor + k) = false :=
    hclose _ (Nat.le_add_right _ _) (Nat.add_lt_add_left hk _)
  have h := rest_of_chain behaviour doc y n (fun k hk => show x.cursor + k < doc.size by omega)
    (fun k hk => ?_) fun k hk => ?_
  · simpa only [y, Nat.add_zero, ByteArray.extract_same, Bytes.lineFeeds_empty, ByteArray.append_empty]
      using h
  · have hcut := Bytes.extract_eq_append_singleton doc x.cursor (x.cursor + k) (by omega) (by omega)
    change step behaviour doc (doc.get (x.cursor + k) _) (y k) = _
    generalize doc.get (x.cursor + k) _ = b at hcut ⊢
    rw [step_source behaviour doc b (y k) hmode (hnot k hk)]
    simp only [y, ← Nat.add_assoc, hcut, Bytes.lineFeeds_append, ← ByteArray.append_assoc]
  · have hlt : ¬ doc.size ≤ x.cursor + k := by omega
    simp [y, dispatchAt, runsPending, foundAt, hmode, hnot k hk, hlt]

/-- A run that does not stop goes on after each turn. -/
theorem exists_turn (h : x.cursor < doc.size) (hdone : (runFrom behaviour doc x).2 = none) :
    ∃ y, step behaviour doc (doc.get x.cursor h) x = (y, none) ∧
      runFrom behaviour doc x = runFrom behaviour doc y ∧
        turnsFrom behaviour doc x = x :: turnsFrom behaviour doc y := by
  rcases hstep : step behaviour doc (doc.get x.cursor h) x with ⟨y, _ | f⟩
  · exact ⟨y, rfl, rest_of_turn behaviour doc x y h hstep⟩
  · rw [(rest_of_failure behaviour doc x y f h hstep).1] at hdone
    cases hdone

/-- Where a region opens, a run that does not stop writes the text before it and goes on. -/
theorem rest_of_open (hmode : x.mode = .literal) (hopen : isOpenMarker doc x.cursor = true)
    (hdone : (runFrom behaviour doc x).2 = none) :
    ∃ s out, let y : Expansion σ :=
        ⟨x.cursor + openMarker.size, x.line, .inScript, x.cursor, x.pending, s, out⟩
      runFrom behaviour doc x = runFrom behaviour doc y ∧
        turnsFrom behaviour doc x = x :: turnsFrom behaviour doc y := by
  have hlt : x.cursor < doc.size := by have := isOpenMarker_lt doc _ hopen; omega
  obtain ⟨y, hstep, hrest⟩ := exists_turn behaviour doc x hlt hdone
  have hpasses := passes_of_step behaviour doc x hlt hstep
  cases hpasses with
  | opening => exact ⟨_, _, hrest⟩
  | text _ hno => cases hopen.symm.trans hno
  | source hsource | closing hsource => cases hmode.symm.trans hsource

/-- Where a region ends, a run that does not stop runs its source and goes on. -/
theorem rest_of_close (hmode : x.mode = .inScript) (hclose : isCloseMarker doc x.cursor = true)
    (hdone : (runFrom behaviour doc x).2 = none) :
    ∃ s out, let y : Expansion σ :=
        ⟨x.cursor + closeMarker.size, x.line, .literal, x.cursor + closeMarker.size, .empty, s, out⟩
      runFrom behaviour doc x = runFrom behaviour doc y ∧
        turnsFrom behaviour doc x = x :: turnsFrom behaviour doc y := by
  have hlt : x.cursor < doc.size := by
    have := isCloseMarker_le doc _ hclose
    have := size_closeMarker
    omega
  obtain ⟨y, hstep, hrest⟩ := exists_turn behaviour doc x hlt hdone
  have hpasses := passes_of_step behaviour doc x hlt hstep
  cases hpasses with
  | closing => exact ⟨_, _, hrest⟩
  | source _ hno => cases hclose.symm.trans hno
  | text hliteral | opening hliteral => cases hmode.symm.trans hliteral

end

/-- A run that does not stop takes its last turn at the end of the document. -/
theorem exists_last_turn (behaviour : Behaviour σ ε) (doc : Bytes) (x : Expansion σ)
    (hdone : (runFrom behaviour doc x).2 = none) :
    ∃ xs z, turnsFrom behaviour doc x = xs ++ [z] ∧ doc.size ≤ z.cursor := by
  by_cases h : x.cursor < doc.size
  · obtain ⟨y, hstep, hrun, hturns⟩ := exists_turn behaviour doc x h hdone
    have hcursor := cursor_lt_of_step behaviour doc x h y hstep
    obtain ⟨xs, z, hlast, hend⟩ := exists_last_turn behaviour doc y (hrun ▸ hdone)
    refine ⟨x :: xs, z, ?_, hend⟩
    rw [hturns, hlast, List.cons_append]
  · exact ⟨[], x, (rest_at_end behaviour doc x (Nat.le_of_not_lt h)).2, Nat.le_of_not_lt h⟩
termination_by doc.size - x.cursor

end LuaPages.Document.Expansion
