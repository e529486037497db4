import LuaPages.Proofs.Document.Interpret
import LuaPages.Proofs.Document.Layout

namespace LuaPages.Document

variable {σ ε : Type}

def Failure.below (lines : Nat) : Failure ε → Failure ε
  | .script line e => .script (line + lines) e
  | .refused => .refused

def Outcome.below (lines : Nat) (o : Outcome σ ε) : Outcome σ ε :=
  { o with failure := o.failure.map (Failure.below lines) }

theorem Outcome.below_andThen (lines : Nat) (o : Outcome σ ε)
    (next : Session σ → Destination → Outcome σ ε) :
    (o.andThen next).below lines = (o.below lines).andThen fun s out => (next s out).below lines := by
  obtain ⟨s, out, _ | f, ran⟩ := o <;> rfl

theorem writing_below (lines : Nat) (b : Bytes) (s : Session σ) (out : Destination) :
    (writing b s out : Outcome σ ε).below lines = writing b s out := by
  cases h : (out.write b).2 <;> simp [writing, Outcome.below, Failure.below, h]

theorem running_below (behaviour : Behaviour σ ε) (line lines : Nat) (c : Bytes) (s : Session σ)
    (out : Destination) :
    (running behaviour line c s out).below lines = running behaviour (line + lines) c s out := by
  rcases he : s.exec behaviour c with ⟨s', _ | e⟩
  · cases ht : (s'.drain out).2.2 <;> simp [running, Outcome.below, Failure.below, he, ht]
  · simp [running, Outcome.below, Failure.below, he]

namespace Segment

theorem perform_below (behaviour : Behaviour σ ε) (x : Segment) (line lines : Nat) (s : Session σ)
    (out : Destination) :
    (x.perform behaviour line s out).below lines = x.perform behaviour (line + lines) s out := by
  cases x with
  | text b => exact writing_below lines b s out
  | region c | unclosed c =>
    rw [perform, perform, running_below, Nat.add_right_comm]

/-- Segments do the same further down, but for the line of their failure. -/
theorem expand_below (behaviour : Behaviour σ ε) (l : List Segment) (line lines : Nat) (s : Session σ)
    (out : Destination) :
    (expand behaviour l line s out).below lines = expand behaviour l (line + lines) s out := by
  induction l generalizing line s out with
  | nil => rfl
  | cons x l ih =>
    rw [expand, expand, Outcome.below_andThen, perform_below]
    congr 1
    funext s out
    rw [ih, Nat.add_right_comm]

theorem sink_running (behaviour : Behaviour σ ε) (line : Nat) (c : Bytes) (s : Session σ)
    (out : Destination) (hdone : (running behaviour line c s out).failure = none) :
    (running behaviour line c s out).session.sink = .empty := by
  rcases he : s.exec behaviour c with ⟨s', _ | e⟩
  · simp only [running, he]
    rfl
  · simp only [running, he] at hdone
    cases hdone

/-- Segments that are expanded without failure leave nothing in the sink. -/
theorem sink_expand (behaviour : Behaviour σ ε) (l : List Segment) (line : Nat) (s : Session σ)
    (out : Destination) (hsink : s.sink = .empty)
    (hdone : (expand behaviour l line s out).failure = none) :
    (expand behaviour l line s out).session.sink = .empty := by
  induction l generalizing line s out with
  | nil => exact hsink
  | cons x l ih =>
    rw [expand] at hdone ⊢
    cases hx : (x.perform behaviour line s out).failure with
    | some f =>
      rw [Outcome.andThen_of_failed _ _ (hx ▸ Option.some_ne_none f), hx] at hdone
      cases hdone
    | none =>
      rw [Outcome.andThen_of_done _ _ hx] at hdone ⊢
      refine ih _ _ _ ?_ hdone
      cases x with
      | text b => exact hsink
      | region c | unclosed c => exact sink_running behaviour _ c s out hx

/-- What stands in a document stands in it behind another one. -/
theorem Reads.behind {b : Bytes} {i : Nat} {l : List Segment} (h : Reads b i l) (a : Bytes) :
    Reads (a ++ b) (a.size + i) l := by
  have hopen (k : Nat) : isOpenMarker (a ++ b) (a.size + k) = isOpenMarker b k :=
    isOpenMarker_append_right a b k
  have hclose (k : Nat) : isCloseMarker (a ++ b) (a.size + k) = isCloseMarker b k :=
    isCloseMarker_append_right a b k
  have hcut (i j : Nat) : (a ++ b).extract (a.size + i) (a.size + j) = b.extract i j :=
    ByteArray.extract_append_size_add
  have hsize : (a ++ b).size = a.size + b.size := ByteArray.size_append
  -- a test that fails in the second document fails at the same places behind the first one
  have hfails {p q : Nat → Bool} (hpq : ∀ k, p (a.size + k) = q k) {i j : Nat}
      (h : ∀ k, i ≤ k → k < j → q k = false) : ∀ k, a.size + i ≤ k → k < a.size + j → p k = false := by
    intro k hk hk'
    obtain ⟨m, rfl⟩ := Nat.exists_eq_add_of_le (Nat.le_trans (Nat.le_add_right _ _) hk)
    rw [hpq]
    exact h m (by omega) (by omega)
  induction h with
  | done =>
    rw [← hsize]
    exact .done
  | @text i j l hij hj hnone rest ih =>
    rw [← hcut]
    exact .text (by omega) (by omega) (hfails hopen hnone) ih
  | @region i j l hopens hij hsource hcloses rest ih =>
    rw [← hcut, ← Nat.add_assoc]
    refine .region ((hopen i).trans hopens) (by omega) ?_ ((hclose j).trans hcloses) ?_
    · rw [Nat.add_assoc]
      exact hfails hclose hsource
    · rwa [Nat.add_assoc]
  | @unclosed i hopens hsource =>
    rw [← hcut, ← hsize, ← Nat.add_assoc]
    refine .unclosed ((hopen i).trans hopens) ?_
    rw [Nat.add_assoc, hsize]
    exact hfails hclose hsource

end Segment

def idle : Behaviour Unit Empty := fun _ _ => ((), .empty, none)

def scanned (doc : Bytes) : Expansion Unit :=
  (Expansion.turns idle doc doc.size (.start () .unlimited)).getLastD (.start () .unlimited)

/-- A scan runs to its end, as its regions have no error to fail with. -/
theorem run_idle (doc : Bytes) : (Expansion.run idle () doc .unlimited).2 = none := by
  rcases run_cases idle () doc with hdone | ⟨_, _, e, _⟩
  · exact hdone
  · exact e.elim

def Layout.lastText : Layout → Option Bytes
  | last t => some t
  | cut _ _ => none
  | region _ _ rest => rest.lastText

theorem Layout.lastText_of_pieces {l : Layout} {t : Bytes} (h : l.pieces.getLast? = some (.text t)) :
    l.lastText = some t := by
  induction l with
  | last b =>
    cases h
    rfl
  | cut b s => cases h
  | region b s rest ih =>
    obtain ⟨first, more, hrest⟩ : ∃ first more, rest.pieces = first :: more := by
      cases rest <;> exact ⟨_, _, rfl⟩
    apply ih
    rw [hrest]
    rwa [pieces, hrest, List.getLast?_cons_cons, List.getLast?_cons_cons] at h

open Expansion in
/-- A scan that ends in text ends in the text that the layout ends in. -/
theorem lastText_read {doc : Bytes} (hmode : (scanned doc).mode = .literal) :
    (Layout.read doc).lastText = some (doc.extract (scanned doc).literalStart doc.size) := by
  let x : Expansion Unit := .start () .unlimited
  obtain ⟨xs, z, hturns, hend⟩ := exists_last_turn idle doc x (run_idle doc)
  have hscanned : scanned doc = z := by
    -- a run from the beginning has as much fuel as there are bytes left
    change (turnsFrom idle doc x).getLastD x = z
    rw [hturns, List.getLastD_concat]
  have hfound := (Layout.stands_read doc).foundFrom idle x rfl rfl rfl rfl (run_idle doc)
  have hlast : foundAt doc z = [.text (doc.extract z.literalStart doc.size)] := by
    rw [hscanned] at hmode
    simp only [foundAt, hmode, Layout.isOpenMarker_of_size_le doc _ hend, hend, if_true, Bool.false_eq_true,
      if_false]
  rw [Expansion.foundFrom, hturns, List.flatMap_append, List.flatMap_singleton, hlast] at hfound
  apply Layout.lastText_of_pieces
  rw [← hfound, List.getLast?_concat, hscanned]

theorem isOpenMarker_extract_zero (doc : Bytes) (n k : Nat) (hn : n ≤ doc.size)
    (hk : k + openMarker.size < n) : isOpenMarker (doc.extract 0 n) k = isOpenMarker doc k := by
  rw [Bool.eq_iff_iff, Segment.isOpenMarker_extract_zero_iff doc n k hn]
  exact and_iff_right hk

theorem isCloseMarker_extract_zero (doc : Bytes) (n k : Nat) (hn : n ≤ doc.size)
    (hk : k + closeMarker.size ≤ n) : isCloseMarker (doc.extract 0 n) k = isCloseMarker doc k := by
  rw [Bool.eq_iff_iff, Segment.isCloseMarker_extract_zero_iff doc n k hn]
  exact and_iff_right hk

/-- What stands in the beginning of a document stands in the document, and more may follow where the last
text of the beginning has no open marker in the document. -/
theorem Layout.Stands.reads_append {doc t : Bytes} {i n : Nat} {l : Layout} {r : List Segment}
    (h : Layout.Stands (doc.extract 0 n) i l) (hn : n ≤ doc.size) (hlast : l.lastText = some t)
    (hseam : ∀ k, n - t.size ≤ k → k < n → isOpenMarker doc k = false) (hr : Segment.Reads doc n r) :
    Segment.Reads doc i (l.pieces ++ r) := by
  have hsize : (doc.extract 0 n).size = n := Bytes.size_extract_of_le doc 0 n hn
  induction h with
  | @last i hi hnone =>
    have htext : (doc.extract 0 n).extract i (doc.extract 0 n).size = doc.extract i n := by
      rw [hsize, Segment.extract_extract_zero doc i n n (Nat.le_refl n)]
    rw [hsize] at hi
    rw [htext] at hlast ⊢
    cases hlast
    -- the end of the beginning is no end of the text any more, and only the seam tells what begins in it
    refine .text hi hn (fun k hk hk' => hseam k ?_ hk') hr
    rw [Bytes.size_extract_of_le doc i n hn]
    omega
  | cut => cases hlast
  | @region i j k rest hij hbefore hopen hjk hsource hclose hrest ih =>
    have hlt := isOpenMarker_lt _ j hopen
    have hle := isCloseMarker_le _ k hclose
    rw [hsize] at hlt hle
    -- the markers of the region end before the document is cut, so they are markers of all of it
    have htext := Segment.extract_extract_zero doc i n j (by omega)
    have hcut := Segment.extract_extract_zero doc (j + openMarker.size) n k (by omega)
    rw [htext, hcut]
    have hbefore' : ∀ m, i ≤ m → m < j → isOpenMarker doc m = false := by
      intro m hm hm'
      rw [← isOpenMarker_extract_zero doc n m hn (by omega)]
      exact hbefore m hm hm'
    have hsource' : ∀ m, j + openMarker.size ≤ m → m < k → isCloseMarker doc m = false := by
      intro m hm hm'
      rw [← isCloseMarker_extract_zero doc n m hn (by omega)]
      exact hsource m hm hm'
    rw [isOpenMarker_extract_zero doc n j hn hlt] at hopen
    rw [isCloseMarker_extract_zero doc n k hn hle] at hclose
    exact .text hij (by omega) hbefore' (.region hopen hjk hsource' hclose (ih hlast))

section
variable {a b : Bytes} (hmode : (scanned a).mode = .literal)
  (hseam : ∀ k, (scanned a).literalStart ≤ k → k < a.size → isOpenMarker (a ++ b) k = false)
include hmode hseam

/-- The segments of two documents stand in the joined one, the first one's and then the second one's. -/
theorem reads_joined : Segment.Reads (a ++ b) 0 ((Layout.read a).pieces ++ Segment.read b) := by
  have hbeginning : (a ++ b).extract 0 a.size = a := ByteArray.extract_append_eq_left rfl
  have hstands : Layout.Stands ((a ++ b).extract 0 a.size) 0 (Layout.read a) := by
    rw [hbeginning]
    exact Layout.stands_read a
  have hrest : Segment.Reads (a ++ b) a.size (Segment.read b) := (Segment.reads_read b).behind a
  have hsize : a.size ≤ (a ++ b).size := by
    rw [ByteArray.size_append]
    omega
  apply hstands.reads_append hsize (lastText_read hmode) ?_ hrest
  intro k hk hk'
  rw [Bytes.size_extract_of_le a _ _ (Nat.le_refl _)] at hk
  exact hseam k (by omega) hk'

/-- The segments of the joined document do what those of the first one do, and then, unless one of these
fails, what those of the second one do. -/
theorem expand_joined (behaviour : Behaviour σ ε) (state : σ) (out : Destination) :
    Segment.expand behaviour (Segment.read (a ++ b)) 1 (.start state) out =
      (Segment.expand behaviour (Segment.read a) 1 (.start state) out).andThen fun s out =>
        (Segment.expand behaviour (Segment.read b) 1 s out).below a.lineFeeds := by
  have hlines : Segment.assemble (Layout.read a).pieces = a := Layout.document_read a
  have hnext : (fun s out => (Segment.expand behaviour (Segment.read b) 1 s out).below a.lineFeeds) =
      Segment.expand behaviour (Segment.read b) (1 + a.lineFeeds) := by
    funext s out
    exact Segment.expand_below behaviour _ 1 a.lineFeeds s out
  calc Segment.expand behaviour (Segment.read (a ++ b)) 1 (.start state) out
      = Segment.expand behaviour ((Layout.read a).pieces ++ Segment.read b) 1 (.start state) out :=
        Expansion.expand_read behaviour state (a ++ b) out _ (reads_joined hmode hseam)
    _ = (Segment.expand behaviour (Layout.read a).pieces 1 (.start state) out).andThen
          (Segment.expand behaviour (Segment.read b) (1 + a.lineFeeds)) := by
        rw [Segment.expand_append, hlines]
    _ = _ := by
        rw [hnext, Expansion.expand_read behaviour state a out _ (Layout.stands_read a).reads]

end

open Expansion in
/-- Two joined documents, of which the first one ends in text, are expanded one after the other if no open
marker of the joined document begins in that text. If the first one fails, that is all. Otherwise the
second one goes on in the same session and into the same destination, and the line of its error counts
from the beginning of the first one. -/
theorem joined_documents_run_in_turn (behaviour : Behaviour σ ε) (state : σ) (a b : Bytes)
    (out : Destination) (hmode : (scanned a).mode = .literal)
    (hseam : ∀ k, (scanned a).literalStart ≤ k → k < a.size → isOpenMarker (a ++ b) k = false) :
    let first := run behaviour state a out
    let second := run behaviour first.1.session.state b first.1.out
    let whole := run behaviour state (a ++ b) out
    (first.2 ≠ none →
      whole.1.session = first.1.session ∧ whole.1.out = first.1.out ∧ whole.2 = first.2 ∧
        executed behaviour state (a ++ b) out = executed behaviour state a out) ∧
    (first.2 = none →
      first.1.session = .start first.1.session.state ∧
        whole.1.session = second.1.session ∧ whole.1.out = second.1.out ∧
        whole.2 = second.2.map (Failure.below a.lineFeeds) ∧
        executed behaviour state (a ++ b) out =
          executed behaviour state a out ++ executed behaviour first.1.session.state b first.1.out) := by
  intro first second whole
  have hjoined := expand_joined hmode hseam behaviour state out
  simp only [first, second, whole, run_session, run_out, run_failure, executed_eq_ran, hjoined]
  generalize ho : Segment.expand behaviour (Segment.read a) 1 (.start state) out = o
  constructor
  · intro hfailed
    rw [Outcome.andThen_of_failed o _ hfailed]
    exact ⟨rfl, rfl, rfl, rfl⟩
  · intro hdone
    -- nothing waits in the sink, so the session is as the second run finds it
    have hsink : o.session.sink = .empty := by
      subst ho
      exact Segment.sink_expand behaviour _ 1 _ out rfl hdone
    have hsession : o.session = .start o.session.state := by
      rw [Session.start, ← hsink]
    rw [Outcome.andThen_of_done o _ hdone, ← hsession]
    exact ⟨rfl, rfl, rfl, rfl, List.map_append⟩

open Expansion in
/-- The first document ends in the beginning of an open marker, which the second one does not complete.
The region of the second one fails on its second line, which is the third one of the joined document. -/
theorem joined_documents_run_in_turn_to_second_failure :
    let a : Bytes := "p\n<?lua one ?>q<?lu"
    let b : Bytes := "e\n<?lua two ?>"
    let behaviour : Behaviour Nat Unit := fun n chunk => (n + 1, chunk, if n = 1 then some () else none)
    let chunks : List Bytes := [(" one " : String), (" two " : String)]
    let whole := run behaviour 0 (a ++ b) .unlimited
    (run behaviour 0 a .unlimited).2 = none ∧ whole.2 = some (.script 3 ()) ∧
      whole.1.out.written = "p\n one q<?lue\n" ∧
      executed behaviour 0 (a ++ b) .unlimited = chunks := by
  intro a b behaviour chunks whole
  let first := run behaviour 0 a .unlimited
  let second := run behaviour first.1.session.state b first.1.out
  have hmode : (scanned a).mode = .literal := by decide +kernel
  have hseam : ∀ k, k < a.size → (scanned a).literalStart ≤ k → isOpenMarker (a ++ b) k = false := by
    decide +kernel
  have hdone : first.2 = none := by decide +kernel
  have hfailure : second.2.map (Failure.below a.lineFeeds) = some (.script 3 ()) := by decide +kernel
  have hout : second.1.out.written = "p\n one q<?lue\n" := by decide +kernel
  have hchunks : executed behaviour 0 a .unlimited ++
      executed behaviour first.1.session.state b first.1.out = chunks := by decide +kernel
  clear_value a b behaviour chunks
  obtain ⟨-, hturn⟩ :=
    joined_documents_run_in_turn behaviour 0 a b .unlimited hmode fun k hk hk' => hseam k hk' hk
  obtain ⟨-, -, hout', hfailure', hexecuted⟩ := hturn hdone
  exact ⟨hdone, hfailure'.trans hfailure, (congrArg Destination.written hout').trans hout,
    hexecuted.trans hchunks⟩

end LuaPages.Document
