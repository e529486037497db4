import LuaPages.Proofs.Document.Driver
/-!
A machine that expands a document byte by byte: outside regions each byte is written at once, inside it
joins the pending source. An expansion, which writes whole runs of text, does the same. Both are compared
with the segments that stand in the document.
-/
namespace LuaPages.Document

/-- A machine between two bytes. -/
structure ByteMachine (σ : Type) where
  mode : Mode
  pending : Bytes
  line : Nat
  session : Session σ
  out : Destination

namespace ByteMachine

variable {σ ε : Type}

def start (state : σ) (out : Destination) : ByteMachine σ := ⟨.literal, .empty, 1, .start state, out⟩

/-- Whether the bytes from here on begin with an open marker and at least one byte more. -/
def opensRegion (rest : List UInt8) : Bool :=
  openMarker.data.toList.isPrefixOf rest && openMarker.size < rest.length

def closesRegion (rest : List UInt8) : Bool := closeMarker.data.toList.isPrefixOf rest

def dispatch (behaviour : Behaviour σ ε) (m : ByteMachine σ) : ByteMachine σ × Option (Failure ε) :=
  match m.session.exec behaviour m.pending with
  | (session, some e) => ({ m with session := session }, some (.script m.line e))
  | (session, none) =>
    let (session, out, taken) := session.drain m.out
    ({ m with pending := .empty, session := session, out := out }, if taken then none else some .refused)

/-- Passes one byte; `rest` starts with it. The result tells how many bytes to pass over after it. -/
def step (behaviour : Behaviour σ ε) (m : ByteMachine σ) (b : UInt8) (rest : List UInt8) :
    ByteMachine σ × Nat × Option (Failure ε) :=
  let m := { m with line := if b == 10 then m.line + 1 else m.line }
  match m.mode with
  | .literal =>
    if opensRegion rest then ({ m with mode := .inScript }, openMarker.size - 1, none)
    else
      let (out, taken) := m.out.write (.singleton b)
      ({ m with out := out }, 0, if taken then none else some .refused)
  | .inScript =>
    if closesRegion rest then
      match dispatch behaviour m with
      | (m, none) => ({ m with mode := .literal }, closeMarker.size - 1, none)
      | (m, some f) => (m, 0, some f)
    else ({ m with pending := m.pending.push b }, 0, none)

/-- Reads the rest of a document, of which the first `skip` bytes belong to a marker. -/
def feed (behaviour : Behaviour σ ε) : Nat → List UInt8 → ByteMachine σ → ByteMachine σ × Option (Failure ε)
  | _, [], m =>
    match m.mode with
    | .literal => (m, none)
    | .inScript => if m.pending.isEmpty then (m, none) else dispatch behaviour m
  | skip + 1, _ :: r, m => feed behaviour skip r m
  | 0, b :: r, m =>
    match step behaviour m b (b :: r) with
    | (m, skip, none) => feed behaviour skip r m
    | (m, _, some f) => (m, some f)

def run (behaviour : Behaviour σ ε) (state : σ) (doc : Bytes) (out : Destination) :
    ByteMachine σ × Option (Failure ε) :=
  feed behaviour 0 doc.data.toList (start state out)

end ByteMachine

namespace Outcome

variable {σ ε : Type}

/-- What came of a run, but for the chunks it ran. -/
def ending (o : Outcome σ ε) : Session σ × Destination × Option (Failure ε) :=
  (o.session, o.out, o.failure)

theorem ending_andThen_of_done (o : Outcome σ ε) (next : Session σ → Destination → Outcome σ ε)
    (h : o.failure = none) : (o.andThen next).ending = (next o.session o.out).ending := by
  rw [andThen_of_done o next h]
  rfl

end Outcome

namespace ByteMachine

variable {σ ε : Type}

def ending (r : ByteMachine σ × Option (Failure ε)) : Session σ × Destination × Option (Failure ε) :=
  (r.1.session, r.1.out, r.2)

/-- The chunks of a run of the machine in order, as the session saw them. -/
def executed (behaviour : Behaviour σ ε) (state : σ) (doc : Bytes) (out : Destination) : List Bytes :=
  (run behaviour.logged (state, []) doc out).1.session.state.2

theorem opensRegion_drop (doc : Bytes) (i : Nat) :
    opensRegion (doc.data.toList.drop i) = isOpenMarker doc i := by
  rw [Bool.eq_iff_iff, isOpenMarker_iff, opensRegion, Bool.and_eq_true, List.isPrefixOf_iff_prefix,
    decide_eq_true_eq, List.length_drop, Bytes.length_toList,
    Bytes.matchesAt_iff_prefix_drop doc openMarker i (by decide)]
  constructor
  · rintro ⟨hmatch, hlen⟩
    exact ⟨by omega, hmatch⟩
  · rintro ⟨hlen, hmatch⟩
    exact ⟨hmatch, by omega⟩

theorem closesRegion_drop (doc : Bytes) (i : Nat) :
    closesRegion (doc.data.toList.drop i) = isCloseMarker doc i := by
  rw [Bool.eq_iff_iff, closesRegion, List.isPrefixOf_iff_prefix, isCloseMarker,
    Bytes.matchesAt_iff_prefix_drop doc closeMarker i (by decide)]

theorem feed_skip (behaviour : Behaviour σ ε) (skip : Nat) (l : List UInt8) (m : ByteMachine σ) :
    feed behaviour skip l m = feed behaviour 0 (l.drop skip) m := by
  induction skip generalizing l with
  | zero => rw [List.drop_zero]
  | succ skip ih =>
    cases l with
    | nil => rw [List.drop_nil, feed, feed]
    | cons b r => rw [List.drop_succ_cons, feed, ih]

section
variable (behaviour : Behaviour σ ε) (doc : Bytes) (i : Nat) (m : ByteMachine σ)

def feedFrom : ByteMachine σ × Option (Failure ε) := feed behaviour 0 (doc.data.toList.drop i) m

theorem feedFrom_of_lt (h : i < doc.size) :
    feedFrom behaviour doc i m =
      match step behaviour m (doc.get i h) (doc.data.toList.drop i) with
      | (m, skip, none) => feedFrom behaviour doc (i + 1 + skip) m
      | (m, _, some f) => (m, some f) := by
  rw [feedFrom, Bytes.toList_drop_eq_cons doc i h, feed]
  rcases step behaviour m _ _ with ⟨m', skip, _ | f⟩
  · dsimp only
    rw [feed_skip, List.drop_drop, feedFrom]
  · rfl

theorem feedFrom_of_text (h : i < doc.size) (hmode : m.mode = .literal)
    (hopen : isOpenMarker doc i = false) (next : Session σ → Destination → Outcome σ ε)
    (hnext : ∀ s out, ending (feedFrom behaviour doc (i + 1)
        { m with line := m.line + (Bytes.singleton (doc.get i h)).lineFeeds,
                 session := s, out := out }) =
      (next s out).ending) :
    ending (feedFrom behaviour doc i m) =
      ((writing (.singleton (doc.get i h)) m.session m.out).andThen next).ending := by
  rw [feedFrom_of_lt behaviour doc i m h]
  generalize doc.get i h = b at hnext ⊢
  cases hw : (m.out.write (.singleton b)).2 with
  | true =>
    rw [Outcome.ending_andThen_of_done _ _ (by rw [writing, hw]; rfl)]
    simp only [step, Expansion.passLine_eq, opensRegion_drop, hmode, hopen, hw, if_true,
      Bool.false_eq_true, if_false, Nat.add_zero]
    have hrest := hnext m.session (m.out.write (.singleton b)).1
    rw [hmode] at hrest
    exact hrest
  | false =>
    rw [Outcome.andThen_of_failed _ _ (by rw [writing, hw]; exact Option.some_ne_none _)]
    simp only [step, opensRegion_drop, hmode, hopen, hw, Bool.false_eq_true, if_false, ending, writing,
      Outcome.ending]

theorem feedFrom_of_source (h : i < doc.size) (hmode : m.mode = .inScript)
    (hclose : isCloseMarker doc i = false) :
    feedFrom behaviour doc i m = feedFrom behaviour doc (i + 1)
      { m with line := m.line + (Bytes.singleton (doc.get i h)).lineFeeds,
               pending := m.pending ++ Bytes.singleton (doc.get i h) } := by
  rw [feedFrom_of_lt behaviour doc i m h]
  generalize doc.get i h = b
  simp only [step, Expansion.passLine_eq, closesRegion_drop, hmode, hclose, Bool.false_eq_true,
    if_false, Bytes.push_eq_append_singleton, Nat.add_zero]

theorem feedFrom_of_open (hmode : m.mode = .literal) (hopen : isOpenMarker doc i = true) :
    feedFrom behaviour doc i m =
      feedFrom behaviour doc (i + openMarker.size) { m with mode := .inScript } := by
  have hlt := isOpenMarker_lt doc i hopen
  have hsize := size_openMarker
  have hline := Expansion.lineFeeds_get_of_marker doc openMarker i (by decide) lineFeeds_openMarker
    (Nat.le_of_lt hlt) (isOpenMarker_extract doc i hopen)
  -- the step passes one byte of the marker, and the bytes to skip are the others
  have hskip : i + 1 + (openMarker.size - 1) = i + openMarker.size := by omega
  rw [feedFrom_of_lt behaviour doc i m (by omega)]
  generalize doc.get i _ = b at hline ⊢
  simp only [step, Expansion.passLine_eq, hline, opensRegion_drop, hmode, hopen, if_true, Nat.add_zero,
    hskip]

theorem feedFrom_of_close (hmode : m.mode = .inScript) (hclose : isCloseMarker doc i = true)
    (next : Session σ → Destination → Outcome σ ε)
    (hnext : ∀ s out, ending (feedFrom behaviour doc (i + closeMarker.size)
        ⟨.literal, .empty, m.line, s, out⟩) = (next s out).ending) :
    ending (feedFrom behaviour doc i m) =
      ((running behaviour m.line m.pending m.session m.out).andThen next).ending := by
  have hle := isCloseMarker_le doc i hclose
  have hsize := size_closeMarker
  have hline := Expansion.lineFeeds_get_of_marker doc closeMarker i (by decide) lineFeeds_closeMarker
    hle (isCloseMarker_extract doc i hclose)
  have hskip : i + 1 + (closeMarker.size - 1) = i + closeMarker.size := by omega
  rw [feedFrom_of_lt behaviour doc i m (by omega)]
  generalize doc.get i _ = b at hline ⊢
  rcases he : m.session.exec behaviour m.pending with ⟨s, _ | e⟩
  · cases ht : (s.drain m.out).2.2 with
    | true =>
      rw [Outcome.ending_andThen_of_done _ _ (by simp only [running, he, ht, if_true])]
      simp only [step, Expansion.passLine_eq, hline, closesRegion_drop, hmode, hclose, dispatch, running,
        he, ht, if_true, Nat.add_zero, hskip]
      exact hnext _ _
    | false =>
      rw [Outcome.andThen_of_failed _ _ (by
        simp only [running, he, ht, Bool.false_eq_true, if_false]
        exact Option.some_ne_none _)]
      simp only [step, closesRegion_drop, hmode, hclose, dispatch, running, he, ht, if_true,
        Bool.false_eq_true, if_false, ending, Outcome.ending]
  · rw [Outcome.andThen_of_failed _ _ (by simp only [running, he]; exact Option.some_ne_none _)]
    simp only [step, Expansion.passLine_eq, hline, closesRegion_drop, hmode, hclose, dispatch, running,
      he, if_true, Nat.add_zero, ending, Outcome.ending]

/-- Text is written byte by byte. That is the same as one write of all of it. -/
theorem feedFrom_of_textUpTo (j : Nat) (hmode : m.mode = .literal) (hij : i ≤ j) (hj : j ≤ doc.size)
    (hopen : ∀ k, i ≤ k → k < j → isOpenMarker doc k = false)
    (next : Session σ → Destination → Outcome σ ε)
    (hnext : ∀ s out, ending (feedFrom behaviour doc j
        { m with line := m.line + Bytes.lineFeeds (doc.extract i j), session := s, out := out }) =
      (next s out).ending) :
    ending (feedFrom behaviour doc i m) =
      ((writing (doc.extract i j) m.session m.out).andThen next).ending := by
  obtain ⟨n, hn⟩ : ∃ n, n = j - i := ⟨_, rfl⟩
  induction n generalizing i m with
  | zero =>
    have he : j = i := by omega
    subst he
    rw [ByteArray.extract_same, writing_empty, Outcome.done_andThen, ← hnext, ByteArray.extract_same,
      Bytes.lineFeeds_empty, Nat.add_zero]
  | succ n ih =>
    -- one write of all the text is a write of its first byte and one of the others
    have hlt : i < doc.size := by omega
    have hcut := Bytes.extract_eq_singleton_append doc i j (by omega) hj
    rw [hcut, writing_append, Outcome.andThen_assoc]
    refine feedFrom_of_text behaviour doc i m hlt hmode (hopen i (Nat.le_refl i) (by omega)) _
      fun s out => ?_
    refine ih (i + 1) _ hmode (by omega) (fun k hk => hopen k (by omega)) (fun s out => ?_) (by omega)
    rw [← hnext, hcut, Bytes.lineFeeds_append, Nat.add_assoc]

theorem feedFrom_of_sourceUpTo (j : Nat) (hmode : m.mode = .inScript) (hij : i ≤ j) (hj : j ≤ doc.size)
    (hclose : ∀ k, i ≤ k → k < j → isCloseMarker doc k = false) :
    feedFrom behaviour doc i m = feedFrom behaviour doc j
      { m with line := m.line + Bytes.lineFeeds (doc.extract i j),
               pending := m.pending ++ doc.extract i j } := by
  obtain ⟨n, hn⟩ : ∃ n, n = j - i := ⟨_, rfl⟩
  induction n generalizing i m with
  | zero =>
    have he : j = i := by omega
    rw [he, ByteArray.extract_same, Bytes.lineFeeds_empty, Nat.add_zero, ByteArray.append_empty]
  | succ n ih =>
    have hlt : i < doc.size := by omega
    have hcut := Bytes.extract_eq_singleton_append doc i j (by omega) hj
    rw [feedFrom_of_source behaviour doc i m hlt hmode (hclose i (Nat.le_refl i) (by omega))]
    generalize doc.get i hlt = b at hcut ⊢
    rw [ih (i + 1) ⟨m.mode, m.pending ++ .singleton b, m.line + (Bytes.singleton b).lineFeeds, m.session,
        m.out⟩ hmode (by omega) (fun k hk => hclose k (by omega)) (by omega), hcut]
    simp only [Bytes.lineFeeds_append, Nat.add_assoc, ByteArray.append_assoc]

theorem feedFrom_at_end : feedFrom behaviour doc doc.size m =
    match m.mode with
    | .literal => (m, none)
    | .inScript => if m.pending.isEmpty then (m, none) else dispatch behaviour m := by
  rw [feedFrom, Bytes.toList_drop_eq_nil doc _ (Nat.le_refl _)]
  rfl

end

/-- From a position where text may begin, the machine expands what stands in the document from there
on. -/
theorem ending_feedFrom_eq_expand (behaviour : Behaviour σ ε) (doc : Bytes) (i : Nat)
    (l : List Segment) (h : Segment.Reads doc i l) (line : Nat) (s : Session σ) (out : Destination) :
    ending (feedFrom behaviour doc i ⟨.literal, .empty, line, s, out⟩) =
      (Segment.expand behaviour l line s out).ending := by
  have hsize := size_openMarker
  induction h generalizing line s out with
  | done => rw [feedFrom_at_end]; rfl
  | @text i j l hij hj hopen rest ih =>
    exact feedFrom_of_textUpTo behaviour doc i _ j rfl hij hj hopen _ fun s out => ih _ s out
  | @region i j l hopen hij hclose hj rest ih =>
    have hle := rest.le
    rw [feedFrom_of_open behaviour doc i _ rfl hopen,
      feedFrom_of_sourceUpTo behaviour doc _ _ j rfl hij (by omega) hclose]
    simp only [ByteArray.empty_append, Segment.expand, Segment.perform, Segment.written,
      Bytes.lineFeeds_append, lineFeeds_openMarker, lineFeeds_closeMarker, Nat.zero_add, Nat.add_zero]
    exact feedFrom_of_close behaviour doc j _ rfl hj _ fun s out => ih _ s out
  | @unclosed i hopen hclose =>
    have hlt := isOpenMarker_lt doc i hopen
    have hne := Bytes.isEmpty_extract_size doc _ hlt
    -- the region is cut off, so its source is run where the document ends
    rw [feedFrom_of_open behaviour doc i _ rfl hopen,
      feedFrom_of_sourceUpTo behaviour doc _ _ doc.size rfl (by omega) (Nat.le_refl _) hclose,
      feedFrom_at_end]
    simp only [ByteArray.empty_append, hne, Bool.false_eq_true, if_false, Segment.expand,
      Segment.perform]
    change _ = ((running behaviour _ _ s out).andThen Outcome.done).ending
    rw [Outcome.andThen_done]
    rcases he : s.exec behaviour (doc.extract (i + openMarker.size) doc.size) with ⟨s', _ | e⟩ <;>
      simp only [dispatch, running, he, ending, Outcome.ending]

theorem ending_run_eq (behaviour : Behaviour σ ε) (state : σ) (doc : Bytes) (out : Destination) :
    ending (run behaviour state doc out) =
      ((Expansion.run behaviour state doc out).1.session,
        (Expansion.run behaviour state doc out).1.out, (Expansion.run behaviour state doc out).2) := by
  have h := ending_feedFrom_eq_expand behaviour doc 0 _ (Segment.reads_read doc) 1 (.start state) out
  rw [Expansion.run_session, Expansion.run_out, Expansion.run_failure]
  exact h

end ByteMachine

/-- For every document, behaviour and destination an expansion and the machine leave the destination
and the session alike, stop for the same reason and at the same line if they do, and run the same
chunks in the same order. -/
theorem Expansion.run_agrees_with_byteMachine {σ ε : Type} (behaviour : Behaviour σ ε) (state : σ)
    (doc : Bytes) (out : Destination) :
    let x := Expansion.run behaviour state doc out
    let m := ByteMachine.run behaviour state doc out
    x.1.out = m.1.out ∧ x.1.session = m.1.session ∧ x.2 = m.2 ∧
      Expansion.executed behaviour state doc out = ByteMachine.executed behaviour state doc out := by
  have h := ByteMachine.ending_run_eq behaviour state doc out
  -- the chunks are part of the session of a behaviour that keeps them
  have hlogged := ByteMachine.ending_run_eq behaviour.logged (state, []) doc out
  simp only [ByteMachine.ending, Prod.mk.injEq] at h hlogged
  obtain ⟨hsession, hout, hfailure⟩ := h
  refine ⟨hout.symm, hsession.symm, hfailure.symm, ?_⟩
  rw [Expansion.executed, ByteMachine.executed, hlogged.1]

end LuaPages.Document
