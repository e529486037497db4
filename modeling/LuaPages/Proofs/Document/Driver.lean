import LuaPages.Proofs.Document.Turns

namespace LuaPages.Document.Expansion

variable {σ ε : Type}

def comesTo (behaviour : Behaviour σ ε) (doc : Bytes) (x : Expansion σ) : Outcome σ ε :=
  ⟨(runFrom behaviour doc x).1.session, (runFrom behaviour doc x).1.out, (runFrom behaviour doc x).2,
    (turnsFrom behaviour doc x).flatMap (dispatchAt doc)⟩

section
variable (behaviour : Behaviour σ ε) (doc : Bytes) (x y : Expansion σ)

theorem comesTo_of_turn (h : x.cursor < doc.size)
    (hstep : step behaviour doc (doc.get x.cursor h) x = (y, none)) :
    comesTo behaviour doc x = (comesTo behaviour doc y).after (dispatchAt doc x) := by
  obtain ⟨hrun, hturns⟩ := rest_of_turn behaviour doc x y h hstep
  rw [comesTo, hrun, hturns, List.flatMap_cons]
  rfl

theorem comesTo_of_failure (f : Failure ε) (h : x.cursor < doc.size)
    (hstep : step behaviour doc (doc.get x.cursor h) x = (y, some f)) :
    comesTo behaviour doc x = ⟨y.session, y.out, some f, dispatchAt doc x⟩ := by
  obtain ⟨hrun, hturns⟩ := rest_of_failure behaviour doc x y f h hstep
  rw [comesTo, hrun, hturns, List.flatMap_singleton]

theorem comesTo_of_finish (h : doc.size ≤ x.cursor) :
    comesTo behaviour doc x =
      ⟨(finish behaviour doc x).1.session, (finish behaviour doc x).1.out,
        (finish behaviour doc x).2, dispatchAt doc x⟩ := by
  obtain ⟨hrun, hturns⟩ := rest_at_end behaviour doc x h
  rw [comesTo, hrun, hturns, List.flatMap_singleton]

theorem comesTo_of_quiet (xs : List (Expansion σ))
    (hxs : ∀ z ∈ xs, dispatchAt doc z = [] ∧ foundAt doc z = [])
    (hrun : runFrom behaviour doc x = runFrom behaviour doc y)
    (hturns : turnsFrom behaviour doc x = xs ++ turnsFrom behaviour doc y) :
    comesTo behaviour doc x = comesTo behaviour doc y := by
  have hquiet : xs.flatMap (dispatchAt doc) = [] := List.flatMap_eq_nil_iff.mpr fun z hz => (hxs z hz).1
  rw [comesTo, hrun, hturns, List.flatMap_append, hquiet]
  rfl

theorem dispatchAt_of_literal (hmode : x.mode = .literal) : dispatchAt doc x = [] := by
  simp [dispatchAt, runsPending, hmode]

theorem dispatchAt_of_close (hmode : x.mode = .inScript) (hclose : isCloseMarker doc x.cursor = true) :
    dispatchAt doc x = [(x.pending, x.out.written.size)] := by
  simp [dispatchAt, runsPending, hmode, hclose]

theorem dispatchAt_of_unclosed (hmode : x.mode = .inScript) (h : doc.size ≤ x.cursor)
    (hpending : x.pending.isEmpty = false) :
    dispatchAt doc x = [(x.pending, x.out.written.size)] := by
  simp [dispatchAt, runsPending, hmode, h, hpending]

end

theorem ran_running (behaviour : Behaviour σ ε) (line : Nat) (c : Bytes) (s : Session σ)
    (out : Destination) : (running behaviour line c s out).ran = [(c, out.written.size)] := by
  rcases h : s.exec behaviour c with ⟨s', _ | e⟩ <;> simp only [running, h]

section
variable (behaviour : Behaviour σ ε) (doc : Bytes) (x : Expansion σ) (j : Nat)

/-- Text is passed over. It is written later. -/
theorem comesTo_of_text (hmode : x.mode = .literal) (hij : x.cursor ≤ j) (hj : j ≤ doc.size)
    (hopen : ∀ k, x.cursor ≤ k → k < j → isOpenMarker doc k = false) :
    comesTo behaviour doc x = comesTo behaviour doc
      { x with cursor := j, line := x.line + Bytes.lineFeeds (doc.extract x.cursor j) } := by
  obtain ⟨xs, hxs, hrun, hturns⟩ := rest_of_text behaviour doc x j hmode hij hj hopen
  exact comesTo_of_quiet behaviour doc x _ xs hxs hrun hturns

/-- The source of a region is collected. -/
theorem comesTo_of_source (hmode : x.mode = .inScript) (hij : x.cursor ≤ j) (hj : j ≤ doc.size)
    (hclose : ∀ k, x.cursor ≤ k → k < j → isCloseMarker doc k = false) :
    comesTo behaviour doc x = comesTo behaviour doc
      { x with cursor := j, line := x.line + Bytes.lineFeeds (doc.extract x.cursor j),
               pending := x.pending ++ doc.extract x.cursor j } := by
  obtain ⟨xs, hxs, hrun, hturns⟩ := rest_of_source behaviour doc x j hmode hij hj hclose
  exact comesTo_of_quiet behaviour doc x _ xs hxs hrun hturns

/-- Where a region opens, the text before it is written. -/
theorem comesTo_of_open (hmode : x.mode = .literal) (hopen : isOpenMarker doc x.cursor = true) :
    comesTo behaviour doc x =
      (writing (doc.extract x.literalStart x.cursor) x.session x.out).andThen fun s out =>
        comesTo behaviour doc
          ⟨x.cursor + openMarker.size, x.line, .inScript, x.cursor, x.pending, s, out⟩ := by
  have hlt : x.cursor < doc.size := by have := isOpenMarker_lt doc _ hopen; omega
  cases hw : (x.out.write (doc.extract x.literalStart x.cursor)).2 with
  | true =>
    have hstep := step_open_taken behaviour doc x hlt hmode hopen hw
    rw [comesTo_of_turn _ _ _ _ hlt hstep, dispatchAt_of_literal _ _ hmode,
      Outcome.andThen_of_done _ _ (by rw [writing, hw]; rfl)]
    rfl
  | false =>
    obtain ⟨y, hstep, hsession, hout⟩ := step_open_refused behaviour doc x hlt hmode hopen hw
    rw [comesTo_of_failure _ _ _ _ _ hlt hstep, dispatchAt_of_literal _ _ hmode, hsession, hout,
      Outcome.andThen_of_failed _ _ (by rw [writing, hw]; exact Option.some_ne_none _), writing, hw]
    rfl

/-- Where a region ends, its source is run. -/
theorem comesTo_of_close (hmode : x.mode = .inScript) (hclose : isCloseMarker doc x.cursor = true) :
    comesTo behaviour doc x =
      (running behaviour x.line x.pending x.session x.out).andThen fun s out =>
        comesTo behaviour doc
          ⟨x.cursor + closeMarker.size, x.line, .literal, x.cursor + closeMarker.size, .empty, s,
            out⟩ := by
  have hlt : x.cursor < doc.size := by
    have := isCloseMarker_le doc _ hclose
    have := size_closeMarker
    omega
  obtain ⟨y, hstep, hsession, hout, hdone⟩ := step_close behaviour doc x hlt hmode hclose
  have hran := ran_running behaviour x.line x.pending x.session x.out
  rw [← dispatchAt_of_close doc x hmode hclose] at hran
  cases hf : (running behaviour x.line x.pending x.session x.out).failure with
  | none =>
    rw [hf] at hstep
    rw [comesTo_of_turn _ _ _ _ hlt hstep, Outcome.andThen_of_done _ _ hf, hran, hdone hf, hsession,
      hout]
  | some f =>
    rw [hf] at hstep
    rw [comesTo_of_failure _ _ _ _ _ hlt hstep,
      Outcome.andThen_of_failed _ _ (by rw [hf]; exact Option.some_ne_none _), hsession, hout, ← hf,
      ← hran]

theorem comesTo_at_end (hmode : x.mode = .literal) (h : doc.size ≤ x.cursor) :
    comesTo behaviour doc x = writing (doc.extract x.literalStart doc.size) x.session x.out := by
  rw [comesTo_of_finish _ _ _ h, dispatchAt_of_literal _ _ hmode]
  cases hw : (x.out.write (doc.extract x.literalStart doc.size)).2 <;>
    simp only [finish, hmode, flush, hw, writing, if_true, if_false, Bool.false_eq_true]

theorem comesTo_at_end_of_source (line textStart : Nat) (c : Bytes) (s : Session σ) (out : Destination)
    (hc : c.isEmpty = false) :
    comesTo behaviour doc ⟨doc.size, line, .inScript, textStart, c, s, out⟩ =
      running behaviour line c s out := by
  rw [comesTo_of_finish _ _ _ (Nat.le_refl _), dispatchAt_of_unclosed _ _ rfl (Nat.le_refl _) hc]
  rcases he : s.exec behaviour c with ⟨s', _ | e⟩ <;>
    simp only [finish, hc, Bool.false_eq_true, if_false, dispatch, running, he]

end

/-- From a position where text may begin, a run writes the text that is still to be written and goes
on to expand what stands in the document from there on. -/
theorem comesTo_eq_expand (behaviour : Behaviour σ ε) (doc : Bytes) (i : Nat) (l : List Segment)
    (h : Segment.Reads doc i l) (x : Expansion σ) (hmode : x.mode = .literal) (hcursor : x.cursor = i)
    (hstart : x.literalStart ≤ i) (hpending : x.pending = .empty) :
    comesTo behaviour doc x =
      (writing (doc.extract x.literalStart i) x.session x.out).andThen
        (Segment.expand behaviour l x.line) := by
  have hsize := size_openMarker
  -- by induction on what stands in the document; the text before `i` waits to be written
  induction h generalizing x with
  | done =>
    rw [comesTo_at_end _ _ _ hmode (Nat.le_of_eq hcursor.symm)]
    exact (Outcome.andThen_done _).symm
  | @text i j l hij hj hopen rest ih =>
    subst hcursor
    have hcut : doc.extract x.literalStart j =
        doc.extract x.literalStart x.cursor ++ doc.extract x.cursor j :=
      ByteArray.extract_eq_extract_append_extract _ hstart hij
    rw [comesTo_of_text behaviour doc x j hmode hij hj hopen,
      ih { x with cursor := j, line := x.line + _ } hmode rfl (Nat.le_trans hstart hij) hpending]
    simp only [hcut, writing_append, Outcome.andThen_assoc]
    rfl
  | @region i j l hopen hij hclose hj rest ih =>
    subst hcursor
    have hle := rest.le
    rw [comesTo_of_open behaviour doc x hmode hopen]
    congr 1
    funext s out
    rw [comesTo_of_source behaviour doc ⟨_, _, _, _, _, _, _⟩ j rfl hij (by omega) hclose,
      comesTo_of_close behaviour doc ⟨_, _, _, _, _, _, _⟩ rfl hj]
    simp only [hpending, ByteArray.empty_append, Segment.expand, Segment.perform, Segment.written,
      Bytes.lineFeeds_append, lineFeeds_openMarker, lineFeeds_closeMarker, Nat.zero_add, Nat.add_zero]
    congr 1
    funext s out
    rw [ih ⟨_, _, _, _, .empty, _, _⟩ rfl rfl (Nat.le_refl _) rfl, ByteArray.extract_same, writing_empty,
      Outcome.done_andThen]
  | @unclosed i hopen hclose =>
    subst hcursor
    have hlt := isOpenMarker_lt doc x.cursor hopen
    rw [comesTo_of_open behaviour doc x hmode hopen]
    congr 1
    funext s out
    have hne := Bytes.isEmpty_extract_size doc _ hlt
    rw [comesTo_of_source behaviour doc ⟨_, _, _, _, _, _, _⟩ doc.size rfl (by simp only; omega)
        (Nat.le_refl _) hclose]
    simp only [hpending, ByteArray.empty_append, Segment.expand, Segment.perform]
    rw [comesTo_at_end_of_source behaviour doc _ _ _ _ _ hne]
    exact (Outcome.andThen_done _).symm

def foundFrom (behaviour : Behaviour σ ε) (doc : Bytes) (x : Expansion σ) : List Segment :=
  (turnsFrom behaviour doc x).flatMap (foundAt doc)

section
variable (behaviour : Behaviour σ ε) (doc : Bytes) (x : Expansion σ)

theorem foundFrom_of_quiet (y : Expansion σ) (xs : List (Expansion σ))
    (hxs : ∀ z ∈ xs, dispatchAt doc z = [] ∧ foundAt doc z = [])
    (hturns : turnsFrom behaviour doc x = xs ++ turnsFrom behaviour doc y) :
    foundFrom behaviour doc x = foundFrom behaviour doc y := by
  have hquiet : xs.flatMap (foundAt doc) = [] := List.flatMap_eq_nil_iff.mpr fun z hz => (hxs z hz).2
  rw [foundFrom, hturns, List.flatMap_append, hquiet]
  rfl

theorem foundFrom_of_open (hmode : x.mode = .literal) (hopen : isOpenMarker doc x.cursor = true)
    (hdone : (runFrom behaviour doc x).2 = none) :
    ∃ s out, let y : Expansion σ :=
        ⟨x.cursor + openMarker.size, x.line, .inScript, x.cursor, x.pending, s, out⟩
      (runFrom behaviour doc y).2 = none ∧
        foundFrom behaviour doc x =
          .text (doc.extract x.literalStart x.cursor) :: foundFrom behaviour doc y := by
  obtain ⟨s, out, hrun, hturns⟩ := rest_of_open behaviour doc x hmode hopen hdone
  refine ⟨s, out, hrun ▸ hdone, ?_⟩
  rw [foundFrom, hturns, List.flatMap_cons, foundAt, hmode]
  simp only [hopen, if_true]
  rfl

theorem foundFrom_of_close (hmode : x.mode = .inScript) (hclose : isCloseMarker doc x.cursor = true)
    (hdone : (runFrom behaviour doc x).2 = none) :
    ∃ s out, let y : Expansion σ :=
        ⟨x.cursor + closeMarker.size, x.line, .literal, x.cursor + closeMarker.size, .empty, s, out⟩
      (runFrom behaviour doc y).2 = none ∧
        foundFrom behaviour doc x = .region x.pending :: foundFrom behaviour doc y := by
  obtain ⟨s, out, hrun, hturns⟩ := rest_of_close behaviour doc x hmode hclose hdone
  refine ⟨s, out, hrun ▸ hdone, ?_⟩
  rw [foundFrom, hturns, List.flatMap_cons, foundAt, hmode]
  simp only [hclose, if_true]
  rfl

theorem foundFrom_at_end (h : doc.size ≤ x.cursor) : foundFrom behaviour doc x = foundAt doc x := by
  rw [foundFrom, (rest_at_end behaviour doc x h).2, List.flatMap_singleton]

end

section
variable (behaviour : Behaviour σ ε) (state : σ) (doc : Bytes) (out : Destination)

/-- A run expands the segments that stand in the document. -/
theorem comesTo_start (l : List Segment) (h : Segment.Reads doc 0 l) :
    comesTo behaviour doc (start state out) = Segment.expand behaviour l 1 (.start state) out := by
  rw [comesTo_eq_expand behaviour doc 0 l h (start state out) rfl rfl (Nat.le_refl 0) rfl]
  change (writing (doc.extract 0 0) _ _).andThen _ = _
  rw [ByteArray.extract_same, writing_empty, Outcome.done_andThen]
  rfl

theorem expand_read (l : List Segment) (h : Segment.Reads doc 0 l) :
    Segment.expand behaviour (Segment.read doc) 1 (.start state) out =
      Segment.expand behaviour l 1 (.start state) out := by
  rw [← comesTo_start behaviour state doc out _ (Segment.reads_read doc),
    comesTo_start behaviour state doc out l h]

theorem run_session :
    (run behaviour state doc out).1.session =
      (Segment.expand behaviour (Segment.read doc) 1 (.start state) out).session := by
  rw [← comesTo_start behaviour state doc out _ (Segment.reads_read doc)]
  rfl

theorem run_out :
    (run behaviour state doc out).1.out =
      (Segment.expand behaviour (Segment.read doc) 1 (.start state) out).out := by
  rw [← comesTo_start behaviour state doc out _ (Segment.reads_read doc)]
  rfl

theorem run_failure :
    (run behaviour state doc out).2 =
      (Segment.expand behaviour (Segment.read doc) 1 (.start state) out).failure := by
  rw [← comesTo_start behaviour state doc out _ (Segment.reads_read doc)]
  rfl

theorem dispatches_eq_ran :
    dispatches behaviour state doc out =
      (Segment.expand behaviour (Segment.read doc) 1 (.start state) out).ran := by
  rw [← comesTo_start behaviour state doc out _ (Segment.reads_read doc)]
  rfl

theorem executed_eq_ran :
    executed behaviour state doc out =
      (Segment.expand behaviour (Segment.read doc) 1 (.start state) out).ran.map Prod.fst := by
  rw [executed, run_session]
  change (Segment.expand behaviour.logged _ 1 ((Session.start state).logged []) out).session.state.2 = _
  rw [Segment.expand_logged]
  exact List.nil_append _

end

end LuaPages.Document.Expansion
