import LuaPages.Proofs.Document.CheckedReads
import LuaPages.Proofs.Document.Delivery
/-!
What holds wherever a turn of an expansion begins: the destination has what the document expands to up to
the text that is still to be written, and the cursor, the line and the pending source are in step with the
document. It follows that no read is outside the document.
-/
namespace LuaPages.Document

variable {σ ε : Type}

namespace Expansion

/-- What a turn finds. Before it the document is expanded up to the text that is still to be written or,
within a region, up to the open marker of the region. -/
structure Reached (behaviour : Behaviour σ ε) (state : σ) (doc : Bytes) (out : Destination)
    (x : Expansion σ) : Prop where
  cursor_le : x.cursor ≤ doc.size
  start_le : x.literalStart ≤ x.cursor
  line_eq : x.line = 1 + Bytes.lineFeeds (doc.extract 0 x.cursor)
  expanded : ExpandedUpTo behaviour state doc out x.literalStart x.session x.out
  literal : x.mode = .literal →
    x.pending = .empty ∧ ∀ k, x.literalStart ≤ k → k < x.cursor → isOpenMarker doc k = false
  inScript : x.mode = .inScript →
    let first := x.literalStart + openMarker.size
    isOpenMarker doc x.literalStart = true ∧ first ≤ x.cursor ∧ x.pending = doc.extract first x.cursor ∧
      ∀ k, first ≤ k → k < x.cursor → isCloseMarker doc k = false

section
variable {behaviour : Behaviour σ ε} {state : σ} {doc : Bytes} {out : Destination} {x y : Expansion σ}

theorem reached_start : Reached behaviour state doc out (start state out) where
  cursor_le := Nat.zero_le _
  start_le := Nat.le_refl _
  line_eq := by
    change 1 = 1 + Bytes.lineFeeds (doc.extract 0 0)
    rw [ByteArray.extract_same, Bytes.lineFeeds_empty]
  expanded := .start
  literal _ := ⟨rfl, fun k _ hk => absurd hk (Nat.not_lt_zero k)⟩
  inScript hmode := nomatch hmode

/-- A test that fails up to a position and at it fails up to the next one. -/
theorem fails_succ {p : Nat → Bool} {i j : Nat} (h : ∀ k, i ≤ k → k < j → p k = false)
    (hj : p j = false) : ∀ k, i ≤ k → k < j + 1 → p k = false := by
  intro k hk hk'
  by_cases hkj : k = j
  · rw [hkj]
    exact hj
  · exact h k hk (by omega)

namespace Reached

/-- A byte of text is passed over. -/
theorem text (h : Reached behaviour state doc out x) (hlt : x.cursor < doc.size)
    (hmode : x.mode = .literal) (hopen : isOpenMarker doc x.cursor = false) :
    Reached behaviour state doc out
      { x with cursor := x.cursor + 1,
               line := x.line + (Bytes.singleton (doc.get x.cursor hlt)).lineFeeds } where
  cursor_le := hlt
  start_le := Nat.le_succ_of_le h.start_le
  line_eq := by
    rw [Bytes.extract_eq_append_singleton doc 0 x.cursor (Nat.zero_le _) hlt, Bytes.lineFeeds_append,
      ← Nat.add_assoc, ← h.line_eq]
  expanded := h.expanded
  literal _ := ⟨(h.literal hmode).1, fails_succ (h.literal hmode).2 hopen⟩
  inScript hscript := nomatch hmode.symm.trans hscript

/-- A byte joins the source of the region. -/
theorem source (h : Reached behaviour state doc out x) (hlt : x.cursor < doc.size)
    (hmode : x.mode = .inScript) (hclose : isCloseMarker doc x.cursor = false) :
    Reached behaviour state doc out
      { x with cursor := x.cursor + 1,
               line := x.line + (Bytes.singleton (doc.get x.cursor hlt)).lineFeeds,
               pending := x.pending ++ Bytes.singleton (doc.get x.cursor hlt) } where
  cursor_le := hlt
  start_le := Nat.le_succ_of_le h.start_le
  line_eq := by
    rw [Bytes.extract_eq_append_singleton doc 0 x.cursor (Nat.zero_le _) hlt, Bytes.lineFeeds_append,
      ← Nat.add_assoc, ← h.line_eq]
  expanded := h.expanded
  literal hliteral := nomatch hmode.symm.trans hliteral
  inScript _ := by
    obtain ⟨hopen, hfirst, hpending, hsource⟩ := h.inScript hmode
    refine ⟨hopen, Nat.le_succ_of_le hfirst, ?_, fails_succ hsource hclose⟩
    rw [Bytes.extract_eq_append_singleton doc _ x.cursor hfirst hlt, ← hpending]

/-- A region opens, and the text before it is taken. -/
theorem opening (h : Reached behaviour state doc out x) (hmode : x.mode = .literal)
    (hopen : isOpenMarker doc x.cursor = true)
    (hw : (x.out.write (doc.extract x.literalStart x.cursor)).2 = true) :
    Reached behaviour state doc out
      { x with out := (x.out.write (doc.extract x.literalStart x.cursor)).1, literalStart := x.cursor,
               mode := .inScript, cursor := x.cursor + openMarker.size } where
  cursor_le := Nat.le_of_lt (isOpenMarker_lt doc _ hopen)
  start_le := Nat.le_add_right _ _
  line_eq := by
    rw [Bytes.lineFeeds_extract_add, isOpenMarker_extract doc _ hopen, lineFeeds_openMarker, Nat.add_zero,
      ← h.line_eq]
  expanded := h.expanded.text h.start_le h.cursor_le (h.literal hmode).2 hw
  literal hliteral := nomatch hliteral
  inScript _ := by
    refine ⟨hopen, Nat.le_refl _, ?_, fun k hk hk' => absurd hk (Nat.not_le_of_lt hk')⟩
    rw [ByteArray.extract_same, (h.literal hmode).1]

/-- A region ends, and its source is run without failure. -/
theorem closing (h : Reached behaviour state doc out x) (hmode : x.mode = .inScript)
    (hclose : isCloseMarker doc x.cursor = true)
    (hdone : (running behaviour x.line x.pending x.session x.out).failure = none) :
    Reached behaviour state doc out
      ⟨x.cursor + closeMarker.size, x.line, .literal, x.cursor + closeMarker.size, .empty,
        (running behaviour x.line x.pending x.session x.out).session,
        (running behaviour x.line x.pending x.session x.out).out⟩ := by
  obtain ⟨hopen, hfirst, hpending, hsource⟩ := h.inScript hmode
  refine
    { cursor_le := isCloseMarker_le doc _ hclose
      start_le := Nat.le_refl _
      line_eq := ?_
      expanded := ?_
      literal := fun _ => ⟨rfl, fun k hk hk' => absurd hk (Nat.not_le_of_lt hk')⟩
      inScript := fun hscript => nomatch hscript }
  · rw [Bytes.lineFeeds_extract_add, isCloseMarker_extract doc _ hclose, lineFeeds_closeMarker, Nat.add_zero,
      ← h.line_eq]
  · rw [hpending] at hdone ⊢
    exact h.expanded.region hopen hfirst hsource hclose hdone

theorem step (h : Reached behaviour state doc out x) (hlt : x.cursor < doc.size)
    (hstep : Expansion.step behaviour doc (doc.get x.cursor hlt) x = (y, none)) :
    Reached behaviour state doc out y := by
  have hpasses := passes_of_step behaviour doc x hlt hstep
  cases hpasses with
  | text hmode hopen => exact h.text hlt hmode hopen
  | opening hmode hopen hw => exact h.opening hmode hopen hw
  | source hmode hclose => exact h.source hlt hmode hclose
  | closing hmode hclose hdone => exact h.closing hmode hclose hdone

/-- At the end of the document an open region has a source, as its marker has a byte after it. -/
theorem pending_at_end (h : Reached behaviour state doc out x) (hend : doc.size ≤ x.cursor)
    (hmode : x.mode = .inScript) : x.pending.isEmpty = false := by
  obtain ⟨hopen, -, hpending, -⟩ := h.inScript hmode
  have hcursor : x.cursor = doc.size := Nat.le_antisymm h.cursor_le hend
  rw [hpending, hcursor]
  exact Bytes.isEmpty_extract_size doc _ (isOpenMarker_lt doc _ hopen)

theorem turns (h : Reached behaviour state doc out x) (fuel : Nat) :
    ∀ y ∈ Expansion.turns behaviour doc fuel x, Reached behaviour state doc out y := by
  induction fuel generalizing x with
  | zero =>
    intro y hy
    rwa [List.mem_singleton.mp hy]
  | succ fuel ih =>
    by_cases hlt : x.cursor < doc.size
    · rcases hstep : Expansion.step behaviour doc (doc.get x.cursor hlt) x with ⟨z, _ | f⟩
      · rw [(advance_of_turn behaviour doc fuel x z hlt hstep).2]
        exact List.forall_mem_cons.mpr ⟨h, ih (h.step hlt hstep)⟩
      · rw [(advance_of_failure behaviour doc fuel x z f hlt hstep).2]
        exact List.forall_mem_singleton.mpr h
    · rw [(advance_at_end behaviour doc (fuel + 1) x (Nat.le_of_not_lt hlt)).2]
      exact List.forall_mem_singleton.mpr h

end Reached

end

end Expansion

theorem isOpenMarker?_eq_some (doc : Bytes) (i : Nat) :
    isOpenMarker? doc i = some (isOpenMarker doc i) := by
  rw [isOpenMarker?, isOpenMarker, Bytes.matchesAt]
  by_cases hend : doc.size ≤ i + openMarker.size
  · rw [if_pos hend, decide_eq_false (Nat.not_lt_of_le hend), Bool.false_and]
  · have hle : i + openMarker.size ≤ doc.size := by omega
    rw [if_neg hend, Bytes.slice?_eq_some doc (Nat.le_add_right _ _) hle,
      decide_eq_true (Nat.lt_of_not_le hend), decide_eq_true hle, Bool.true_and, Bool.true_and]
    rfl

theorem isCloseMarker_eq (doc : Bytes) (i : Nat) (h : i + 1 < doc.size) :
    isCloseMarker doc i = (doc.get i (by omega) == 63 && doc.get (i + 1) h == 62) := by
  have hcut : doc.extract i (i + closeMarker.size) =
      Bytes.singleton (doc.get i (by omega)) ++ Bytes.singleton (doc.get (i + 1) h) := by
    rw [size_closeMarker, Bytes.extract_eq_append_singleton doc i (i + 1) (by omega) h,
      Bytes.extract_eq_append_singleton doc i i (Nat.le_refl i) (by omega), ByteArray.extract_same,
      ByteArray.empty_append]
  rw [Bool.eq_iff_iff, isCloseMarker, Bytes.matchesAt_iff_extract, hcut, Bool.and_eq_true, beq_iff_eq,
    beq_iff_eq]
  constructor
  · rintro ⟨-, hbytes⟩
    have hlist : [doc.get i (by omega), doc.get (i + 1) h] = [63, 62] := by
      rw [← toList_closeMarker, ← hbytes, ByteArray.toList_data_append]
      rfl
    obtain ⟨hfirst, hrest⟩ := List.cons.inj hlist
    exact ⟨hfirst, (List.cons.inj hrest).1⟩
  · rintro ⟨hfirst, hsecond⟩
    rw [hfirst, hsecond]
    exact ⟨h, rfl⟩

theorem isCloseMarker?_eq_some (doc : Bytes) (i : Nat) :
    isCloseMarker? doc i = some (isCloseMarker doc i) := by
  rw [isCloseMarker?]
  by_cases hend : doc.size ≤ i + 1
  · have hfalse : isCloseMarker doc i = false := by
      rw [Bool.eq_false_iff]
      intro h
      have := isCloseMarker_le doc i h
      rw [size_closeMarker] at this
      omega
    rw [if_pos hend, hfalse]
  · have hlt : i + 1 < doc.size := by omega
    rw [if_neg hend, isCloseMarker_eq doc i hlt, getElem?_pos doc i (by omega), getElem?_pos doc (i + 1) hlt]
    change (if doc.get i _ == 63 then some (doc.get (i + 1) hlt == 62) else some false) = _
    cases doc.get i (by omega) == 63 <;> rfl

namespace Expansion

theorem flush?_eq_some (doc : Bytes) (stop : Nat) (x : Expansion σ) (hstart : x.literalStart ≤ stop)
    (hstop : stop ≤ doc.size) :
    (flush? doc stop x : Option (_ × Option (Failure ε))) = some (flush doc stop x) := by
  rw [flush?, flush]
  by_cases hlt : x.literalStart < stop
  · rw [if_pos hlt, Bytes.slice?_eq_some doc hstart hstop]
    rfl
  · have heq : x.literalStart = stop := by omega
    rw [if_neg hlt, heq, ByteArray.extract_same, Destination.write_empty]
    rfl

namespace Reached

variable {behaviour : Behaviour σ ε} {state : σ} {doc : Bytes} {out : Destination} {x : Expansion σ}

/-- All reads of a turn are in the document. -/
theorem step?_eq_some (h : Reached behaviour state doc out x) (hlt : x.cursor < doc.size) :
    step? behaviour doc x = some (Expansion.step behaviour doc (doc.get x.cursor hlt) x) := by
  have hbyte : doc[x.cursor]? = some (doc.get x.cursor hlt) := getElem?_pos doc x.cursor hlt
  generalize doc.get x.cursor hlt = b at hbyte ⊢
  rw [step?, hbyte, Option.bind_some, Expansion.step]
  cases hmode : x.mode with
  | literal =>
    simp only [isOpenMarker?_eq_some, Option.bind_some]
    cases isOpenMarker doc x.cursor with
    | false => rfl
    | true =>
      let passed : Expansion σ :=
        { x with mode := .literal, line := if b == 10 then x.line + 1 else x.line }
      exact congrArg (Option.map _) (flush?_eq_some doc x.cursor passed h.start_le h.cursor_le)
  | inScript =>
    simp only [isCloseMarker?_eq_some, Option.bind_some, hbyte]
    cases isCloseMarker doc x.cursor <;> rfl

theorem finish?_eq_some (h : Reached behaviour state doc out x) (hend : doc.size ≤ x.cursor) :
    finish? behaviour doc x = some (finish behaviour doc x) := by
  rw [finish?, finish]
  cases hmode : x.mode with
  | literal => exact flush?_eq_some doc _ x (Nat.le_trans h.start_le h.cursor_le) (Nat.le_refl _)
  | inScript =>
    simp only [h.pending_at_end hend hmode]
    rfl

/-- All reads are in the document, and as many turns as there are bytes left are enough. -/
theorem advance?_eq_some (h : Reached behaviour state doc out x) (fuel : Nat)
    (hfuel : doc.size - x.cursor ≤ fuel) :
    advance? behaviour doc fuel x = some (advance behaviour doc fuel x) := by
  induction fuel generalizing x with
  | zero =>
    have hend : doc.size ≤ x.cursor := by omega
    rw [advance?, if_neg (Nat.not_lt_of_le hend), h.finish?_eq_some hend]
    rfl
  | succ fuel ih =>
    by_cases hlt : x.cursor < doc.size
    · rw [advance?, if_pos hlt, h.step?_eq_some hlt, advance_succ behaviour doc fuel x hlt]
      rcases hstep : Expansion.step behaviour doc (doc.get x.cursor hlt) x with ⟨y, _ | f⟩
      · have hy := cursor_lt_of_step behaviour doc x hlt y hstep
        exact ih (h.step hlt hstep) (by omega)
      · rfl
    · have hend := Nat.le_of_not_lt hlt
      rw [advance?, if_neg hlt, h.finish?_eq_some hend,
        (advance_at_end behaviour doc (fuel + 1) x hend).1]

end Reached

/-- A state is in step with the document. `literalStart` is where the text begins that is still to be
written, or where the open marker of the region stands, and the destination has what the document before
it expands to. -/
structure InStep (behaviour : Behaviour σ ε) (state : σ) (doc : Bytes) (out : Destination)
    (x : Expansion σ) : Prop where
  cursor_le : x.cursor ≤ doc.size
  line_eq : x.line = 1 + Bytes.lineFeeds (doc.extract 0 x.cursor)
  sink_eq : x.session.sink = .empty
  expanded :
    let before := doc.extract 0 x.literalStart
    let r := run behaviour state before out
    r.2 = none ∧ r.1.session = x.session ∧ r.1.out = x.out ∧
      Segment.Delivers behaviour (Segment.read before) state out x.session x.out
  literal : x.mode = .literal →
    x.pending = .empty ∧ x.literalStart ≤ x.cursor ∧
      ∀ k, x.literalStart ≤ k → k < x.cursor → isOpenMarker doc k = false
  inScript : x.mode = .inScript →
    let first := x.literalStart + openMarker.size
    isOpenMarker doc x.literalStart = true ∧ first ≤ x.cursor ∧ x.pending = doc.extract first x.cursor ∧
      ∀ k, first ≤ k → k < x.cursor → isCloseMarker doc k = false

theorem Reached.inStep {behaviour : Behaviour σ ε} {state : σ} {doc : Bytes} {out : Destination}
    {x : Expansion σ} (h : Reached behaviour state doc out x) : InStep behaviour state doc out x := by
  obtain ⟨ran, hexpand⟩ := h.expanded.expand_beginning (Nat.le_trans h.start_le h.cursor_le)
  have hdelivers := Segment.delivers_of_expand behaviour (Segment.read (doc.extract 0 x.literalStart)) 1
    state out (by rw [hexpand])
  rw [hexpand] at hdelivers
  refine
    { cursor_le := h.cursor_le
      line_eq := h.line_eq
      sink_eq := ?_
      expanded := ⟨?_, ?_, ?_, hdelivers⟩
      literal := fun hmode => ⟨(h.literal hmode).1, h.start_le, (h.literal hmode).2⟩
      inScript := h.inScript }
  · obtain ⟨last, -, -, hsession, -⟩ := hdelivers
    change x.session = _ at hsession
    rw [hsession]
    rfl
  · rw [run_failure, hexpand]
  · rw [run_session, hexpand]
  · rw [run_out, hexpand]

/-- The turns of a run from a state on, without a bound on their number: the states in which they begin,
the one in which the run ends, and what the run comes to. The cursor moves on at each turn. -/
inductive Trace (behaviour : Behaviour σ ε) (doc : Bytes) :
    Expansion σ → List (Expansion σ) → Expansion σ × Option (Failure ε) → Prop
  | finished {x : Expansion σ} (h : doc.size ≤ x.cursor) : Trace behaviour doc x [x] (finish behaviour doc x)
  | stopped {x y : Expansion σ} {f : Failure ε} (h : x.cursor < doc.size)
      (hstep : step behaviour doc (doc.get x.cursor h) x = (y, some f)) :
      Trace behaviour doc x [x] (y, some f)
  | turn {x y : Expansion σ} {xs : List (Expansion σ)} {r : Expansion σ × Option (Failure ε)}
      (h : x.cursor < doc.size) (hstep : step behaviour doc (doc.get x.cursor h) x = (y, none))
      (hcursor : x.cursor < y.cursor) (rest : Trace behaviour doc y xs r) :
      Trace behaviour doc x (x :: xs) r

theorem trace_turns (behaviour : Behaviour σ ε) (doc : Bytes) (fuel : Nat) (x : Expansion σ)
    (hfuel : doc.size - x.cursor ≤ fuel) :
    Trace behaviour doc x (turns behaviour doc fuel x) (advance behaviour doc fuel x) := by
  induction fuel generalizing x with
  | zero => exact .finished (by omega)
  | succ fuel ih =>
    by_cases hlt : x.cursor < doc.size
    · rcases hstep : step behaviour doc (doc.get x.cursor hlt) x with ⟨y, _ | f⟩
      · obtain ⟨hadvance, hturns⟩ := advance_of_turn behaviour doc fuel x y hlt hstep
        have hcursor := cursor_lt_of_step behaviour doc x hlt y hstep
        rw [hadvance, hturns]
        exact .turn hlt hstep hcursor (ih y (by omega))
      · obtain ⟨hadvance, hturns⟩ := advance_of_failure behaviour doc fuel x y f hlt hstep
        rw [hadvance, hturns]
        exact .stopped hlt hstep
    · have hend := Nat.le_of_not_lt hlt
      obtain ⟨hadvance, hturns⟩ := advance_at_end behaviour doc (fuel + 1) x hend
      rw [hadvance, hturns]
      exact .finished hend

/-- Wherever a turn of a run begins, and where the run ends, its state is in step with the document. The
cursor moves on at each turn, every read is in the document, and a region that is open at the end of the
document has a source. -/
theorem every_turn_in_step (behaviour : Behaviour σ ε) (state : σ) (doc : Bytes) (out : Destination) :
    let first := start state out
    let r := run behaviour state doc out
    let xs := turns behaviour doc doc.size first
    Trace behaviour doc first xs r ∧ (∀ x ∈ xs, InStep behaviour state doc out x) ∧
      (∀ x ∈ xs, doc.size ≤ x.cursor → x.mode = .inScript → x.pending.isEmpty = false) ∧
      run? behaviour state doc out = some r := by
  intro first r xs
  have hstart : Reached behaviour state doc out first := reached_start
  have hreached := hstart.turns doc.size
  refine ⟨trace_turns behaviour doc doc.size first (Nat.sub_le _ _), ?_, ?_, ?_⟩
  · intro x hx
    exact (hreached x hx).inStep
  · intro x hx hend hmode
    exact (hreached x hx).pending_at_end hend hmode
  · exact hstart.advance?_eq_some doc.size (Nat.sub_le _ _)

end Expansion

end LuaPages.Document
