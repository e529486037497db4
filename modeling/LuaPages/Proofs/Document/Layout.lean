import LuaPages.Proofs.Document.Driver
/-!
Documents and layouts. A layout is what a document is made of: texts and regions by turns, where a text
may be empty. Each document has exactly one well-formed layout, and that is what a run finds.
-/
namespace LuaPages.Document

/-- Texts and the sources of regions by turns: up to a last text, or up to a region that the end of
the document cuts off. -/
inductive Layout where
  | last (text : Bytes)
  | cut (text source : Bytes)
  | region (text source : Bytes) (rest : Layout)
  deriving DecidableEq

namespace Layout

def pieces : Layout → List Segment
  | last t => [.text t]
  | cut t s => [.text t, .unclosed s]
  | region t s rest => .text t :: .region s :: rest.pieces

def document (l : Layout) : Bytes := Segment.assemble l.pieces

def sources (l : Layout) : List Bytes := Segment.sources l.pieces

/-- What a document can be made of. A text that a region follows has no open marker in it, and the
last text has one at its very end at most. A source has no close marker in it, and the one that the
end of the document cuts off is not empty. -/
def WellFormed : Layout → Prop
  | last t => ∀ i, t.matchesAt i openMarker = true → i + openMarker.size = t.size
  | cut t s => ¬ Bytes.Contains t openMarker ∧ ¬ Bytes.Contains s closeMarker ∧ s ≠ .empty
  | region t s rest => ¬ Bytes.Contains t openMarker ∧ ¬ Bytes.Contains s closeMarker ∧ rest.WellFormed

def prepend (b : Bytes) : Layout → Layout
  | last t => last (b ++ t)
  | cut t s => cut (b ++ t) s
  | region t s rest => region (b ++ t) s rest

def ofSegments : List Segment → Layout
  | [] => last .empty
  | .text b :: r => (ofSegments r).prepend b
  | .region s :: r => region .empty s (ofSegments r)
  | .unclosed s :: _ => cut .empty s

def read (doc : Bytes) : Layout := ofSegments (Segment.read doc)

/-- `Stands doc i l`: from position `i` on, where text may begin, the document is laid out as `l`. -/
inductive Stands (doc : Bytes) : Nat → Layout → Prop
  | last {i : Nat} (hi : i ≤ doc.size) (hnone : ∀ k, i ≤ k → k < doc.size → isOpenMarker doc k = false) :
      Stands doc i (.last (doc.extract i doc.size))
  | cut {i j : Nat} (hij : i ≤ j) (hbefore : ∀ k, i ≤ k → k < j → isOpenMarker doc k = false)
      (hopen : isOpenMarker doc j = true)
      (hnone : ∀ k, j + openMarker.size ≤ k → k < doc.size → isCloseMarker doc k = false) :
      Stands doc i (.cut (doc.extract i j) (doc.extract (j + openMarker.size) doc.size))
  | region {i j k : Nat} {rest : Layout} (hij : i ≤ j)
      (hbefore : ∀ m, i ≤ m → m < j → isOpenMarker doc m = false) (hopen : isOpenMarker doc j = true)
      (hjk : j + openMarker.size ≤ k)
      (hsource : ∀ m, j + openMarker.size ≤ m → m < k → isCloseMarker doc m = false)
      (hclose : isCloseMarker doc k = true) (hrest : Stands doc (k + closeMarker.size) rest) :
      Stands doc i (.region (doc.extract i j) (doc.extract (j + openMarker.size) k) rest)

variable {doc : Bytes} {i : Nat} {l : Layout}

theorem Stands.prepend {j : Nat} (h : Stands doc j l) (hij : i ≤ j)
    (hbefore : ∀ k, i ≤ k → k < j → isOpenMarker doc k = false) :
    Stands doc i (l.prepend (doc.extract i j)) := by
  have hjoin (p : Nat → Prop) (hlow : ∀ k, i ≤ k → k < j → p k) (m : Nat)
      (hhigh : ∀ k, j ≤ k → k < m → p k) :
      ∀ k, i ≤ k → k < m → p k := by
    intro k hk hk'
    by_cases hkj : k < j
    · exact hlow k hk hkj
    · exact hhigh k (by omega) hk'
  cases h with
  | last hj hnone =>
    rw [Layout.prepend, ← ByteArray.extract_eq_extract_append_extract j hij hj]
    exact .last (Nat.le_trans hij hj) (hjoin _ hbefore _ hnone)
  | cut hjk hbefore' hopen hnone =>
    rw [Layout.prepend, ← ByteArray.extract_eq_extract_append_extract j hij hjk]
    exact .cut (Nat.le_trans hij hjk) (hjoin _ hbefore _ hbefore') hopen hnone
  | region hjk hbefore' hopen hsize hsource hclose hrest =>
    rw [Layout.prepend, ← ByteArray.extract_eq_extract_append_extract j hij hjk]
    exact .region (Nat.le_trans hij hjk) (hjoin _ hbefore _ hbefore') hopen hsize hsource hclose hrest

/-- Segments that stand in a document are a layout of it, however the text is cut. -/
theorem stands_of_reads {r : List Segment} (h : Segment.Reads doc i r) :
    Stands doc i (ofSegments r) := by
  induction h with
  | done =>
    have h : Stands doc doc.size (.last (doc.extract doc.size doc.size)) :=
      .last (Nat.le_refl _) fun k hk hk' => absurd hk' (by omega)
    rwa [ByteArray.extract_same] at h
  | text hij hj hopen rest ih => exact ih.prepend hij hopen
  | @region i j l hopen hij hclose hj rest ih =>
    have h : Stands doc i (.region (doc.extract i i) _ _) :=
      .region (Nat.le_refl i) (fun k hk hk' => absurd hk' (by omega)) hopen hij hclose hj ih
    rwa [ByteArray.extract_same] at h
  | @unclosed i hopen hclose =>
    have h : Stands doc i (.cut (doc.extract i i) _) :=
      .cut (Nat.le_refl i) (fun k hk hk' => absurd hk' (by omega)) hopen hclose
    rwa [ByteArray.extract_same] at h

theorem stands_read (doc : Bytes) : Stands doc 0 (read doc) := stands_of_reads (Segment.reads_read doc)

theorem Stands.reads (h : Stands doc i l) : Segment.Reads doc i l.pieces := by
  induction h with
  | last hi hnone => exact .text hi (Nat.le_refl _) hnone .done
  | cut hij hbefore hopen hnone =>
    have hlt := isOpenMarker_lt doc _ hopen
    exact .text hij (by omega) hbefore (.unclosed hopen hnone)
  | region hij hbefore hopen hjk hsource hclose hrest ih =>
    have hlt := isOpenMarker_lt doc _ hopen
    exact .text hij (by omega) hbefore (.region hopen hjk hsource hclose ih)

theorem not_contains_openMarker {j : Nat} (hbefore : ∀ k, i ≤ k → k < j → isOpenMarker doc k = false)
    (hopen : isOpenMarker doc j = true) : ¬ Bytes.Contains (doc.extract i j) openMarker := by
  rintro ⟨m, hm⟩
  have hlt := isOpenMarker_lt doc j hopen
  obtain ⟨hend, hmatch⟩ :=
    (Bytes.matchesAt_extract_iff doc openMarker i j m (by omega) (by decide)).mp hm
  have hsize := size_openMarker
  have hnot := hbefore (i + m) (by omega) (by omega)
  rw [(isOpenMarker_iff doc (i + m)).mpr ⟨by omega, hmatch⟩] at hnot
  exact absurd hnot (by decide)

theorem not_contains_closeMarker {j : Nat} (hj : j ≤ doc.size)
    (hsource : ∀ k, i ≤ k → k < j → isCloseMarker doc k = false) :
    ¬ Bytes.Contains (doc.extract i j) closeMarker := by
  rintro ⟨m, hm⟩
  obtain ⟨hend, hmatch⟩ := (Bytes.matchesAt_extract_iff doc closeMarker i j m hj (by decide)).mp hm
  have hsize := size_closeMarker
  have hnot := hsource (i + m) (by omega) (by omega)
  rw [isCloseMarker, hmatch] at hnot
  exact absurd hnot (by decide)

theorem Stands.wellFormed (h : Stands doc i l) : l.WellFormed := by
  induction h with
  | @last i hi hnone =>
    intro m hm
    obtain ⟨hend, hmatch⟩ :=
      (Bytes.matchesAt_extract_iff doc openMarker i doc.size m (Nat.le_refl _) (by decide)).mp hm
    have hsize := size_openMarker
    rw [Bytes.size_extract_of_le _ _ _ (Nat.le_refl _)]
    -- an open marker with a byte after it would have opened a region
    by_cases hlt : i + m + openMarker.size < doc.size
    · have hnot := hnone (i + m) (by omega) (by omega)
      rw [(isOpenMarker_iff doc (i + m)).mpr ⟨hlt, hmatch⟩] at hnot
      exact absurd hnot (by decide)
    · omega
  | @cut i j hij hbefore hopen hnone =>
    have hne := Bytes.isEmpty_extract_size doc _ (isOpenMarker_lt doc j hopen)
    refine ⟨not_contains_openMarker hbefore hopen, not_contains_closeMarker (Nat.le_refl _) hnone, ?_⟩
    intro he
    rw [he] at hne
    exact absurd hne (by decide)
  | @region i j k rest hij hbefore hopen hjk hsource hclose hrest ih =>
    have hle := isCloseMarker_le doc k hclose
    exact ⟨not_contains_openMarker hbefore hopen, not_contains_closeMarker (by omega) hsource, ih⟩

theorem isOpenMarker_append_self (a r : Bytes) (hr : 0 < r.size) :
    isOpenMarker (a ++ (openMarker ++ r)) a.size = true := by
  have h := isOpenMarker_append_right a (openMarker ++ r) 0
  rw [Nat.add_zero] at h
  rw [h, isOpenMarker_iff, ByteArray.size_append]
  exact ⟨by omega, Bytes.matchesAt_append_self openMarker r⟩

theorem isCloseMarker_append_self (a r : Bytes) :
    isCloseMarker (a ++ (closeMarker ++ r)) a.size = true := by
  have h := isCloseMarker_append_right a (closeMarker ++ r) 0
  rw [Nat.add_zero] at h
  rw [h]
  exact Bytes.matchesAt_append_self closeMarker r

/-- No open marker begins in a text without one, not even where the next one begins. -/
theorem isOpenMarker_eq_false (a t r : Bytes) (h : ¬ Bytes.Contains t openMarker) (k : Nat)
    (hk : a.size ≤ k) (hk' : k < a.size + t.size) :
    isOpenMarker (a ++ (t ++ (openMarker ++ r))) k = false := by
  obtain ⟨m, rfl⟩ := Nat.exists_eq_add_of_le hk
  rw [isOpenMarker_append_right, Bool.eq_false_iff]
  intro hopen
  exact h ⟨m, Bytes.matchesAt_of_append_self openMarker t r _ _ m toList_openMarker (by decide)
    (by omega) ((isOpenMarker_iff _ m).mp hopen).2⟩

theorem isCloseMarker_eq_false (a s r : Bytes) (h : ¬ Bytes.Contains s closeMarker) (k : Nat)
    (hk : a.size ≤ k) (hk' : k < a.size + s.size) :
    isCloseMarker (a ++ (s ++ (closeMarker ++ r))) k = false := by
  obtain ⟨m, rfl⟩ := Nat.exists_eq_add_of_le hk
  rw [isCloseMarker_append_right, Bool.eq_false_iff]
  intro hclose
  exact h ⟨m, Bytes.matchesAt_of_append_self closeMarker s r _ _ m toList_closeMarker (by decide)
    (by omega) hclose⟩

theorem stands_last (pre t : Bytes)
    (ht : ∀ i, t.matchesAt i openMarker = true → i + openMarker.size = t.size) :
    Stands (pre ++ t) pre.size (.last t) := by
  have hcut : (pre ++ t).extract pre.size (pre ++ t).size = t := by
    have h := Bytes.extract_append_middle pre t .empty
    rwa [ByteArray.append_empty, ← ByteArray.size_append] at h
  have hstands : Stands (pre ++ t) pre.size (.last ((pre ++ t).extract pre.size (pre ++ t).size)) := by
    refine .last (by rw [ByteArray.size_append]; omega) fun k hk hk' => ?_
    obtain ⟨m, rfl⟩ := Nat.exists_eq_add_of_le hk
    rw [isOpenMarker_append_right, Bool.eq_false_iff]
    intro hopen
    obtain ⟨hlt, hmatch⟩ := (isOpenMarker_iff t m).mp hopen
    have hend := ht m hmatch
    omega
  rwa [hcut] at hstands

theorem stands_cut (pre t s : Bytes) (ht : ¬ Bytes.Contains t openMarker)
    (hs : ¬ Bytes.Contains s closeMarker) (hne : s ≠ .empty) :
    Stands (pre ++ (t ++ (openMarker ++ s))) pre.size (.cut t s) := by
  have hpos : 0 < s.size := Nat.pos_of_ne_zero fun h0 => hne (ByteArray.size_eq_zero_iff.mp h0)
  -- the document gets a name, so that its parts can be put together as each fact needs them
  generalize hdoc : pre ++ (t ++ (openMarker ++ s)) = doc
  have hdoc₁ : (pre ++ t) ++ (openMarker ++ s) = doc := by rw [← hdoc, ByteArray.append_assoc]
  have hdoc₂ : (pre ++ t ++ openMarker) ++ s = doc := by rw [← hdoc₁, ByteArray.append_assoc]
  have hsize : doc.size = (pre ++ t ++ openMarker).size + s.size := by
    rw [← hdoc₂, ByteArray.size_append]
  have htext : doc.extract pre.size (pre ++ t).size = t := by
    rw [← hdoc, ByteArray.size_append]
    exact Bytes.extract_append_middle pre t _
  have hsource : doc.extract ((pre ++ t).size + openMarker.size) doc.size = s := by
    have h := Bytes.extract_append_middle (pre ++ t ++ openMarker) s .empty
    rwa [ByteArray.append_empty, ← hsize, hdoc₂, ByteArray.size_append] at h
  have hstands : Stands doc pre.size (.cut (doc.extract pre.size (pre ++ t).size)
      (doc.extract ((pre ++ t).size + openMarker.size) doc.size)) := by
    refine .cut (by rw [ByteArray.size_append]; omega) ?_ ?_ ?_
    · intro k hk hk'
      rw [← hdoc]
      exact isOpenMarker_eq_false pre t s ht k hk (by rwa [← ByteArray.size_append])
    · rw [← hdoc₁]
      exact isOpenMarker_append_self (pre ++ t) s hpos
    · intro k hk hk'
      rw [← ByteArray.size_append] at hk
      obtain ⟨m, rfl⟩ := Nat.exists_eq_add_of_le hk
      rw [← hdoc₂, isCloseMarker_append_right, Bool.eq_false_iff]
      exact fun hclose => hs ⟨m, hclose⟩
  rwa [htext, hsource] at hstands

theorem stands_region (pre t s d : Bytes) (rest : Layout) (ht : ¬ Bytes.Contains t openMarker)
    (hs : ¬ Bytes.Contains s closeMarker)
    (hrest : Stands (pre ++ t ++ openMarker ++ s ++ closeMarker ++ d)
      (pre ++ t ++ openMarker ++ s ++ closeMarker).size rest) :
    Stands (pre ++ (t ++ (openMarker ++ (s ++ (closeMarker ++ d))))) pre.size (.region t s rest) := by
  -- the document, cut before each of its parts
  generalize hdoc : pre ++ (t ++ (openMarker ++ (s ++ (closeMarker ++ d)))) = doc
  have hdoc₁ : (pre ++ t) ++ (openMarker ++ (s ++ (closeMarker ++ d))) = doc := by
    rw [← hdoc, ByteArray.append_assoc]
  have hdoc₂ : (pre ++ t ++ openMarker) ++ (s ++ (closeMarker ++ d)) = doc := by
    rw [← hdoc₁, ByteArray.append_assoc]
  have hdoc₃ : (pre ++ t ++ openMarker ++ s) ++ (closeMarker ++ d) = doc := by
    rw [← hdoc₂, ByteArray.append_assoc]
  have hdoc₄ : (pre ++ t ++ openMarker ++ s ++ closeMarker) ++ d = doc := by
    rw [← hdoc₃, ByteArray.append_assoc]
  have htext : doc.extract pre.size (pre ++ t).size = t := by
    rw [← hdoc, ByteArray.size_append]
    exact Bytes.extract_append_middle pre t _
  have hsource :
      doc.extract ((pre ++ t).size + openMarker.size) (pre ++ t ++ openMarker ++ s).size = s := by
    have h := Bytes.extract_append_middle (pre ++ t ++ openMarker) s (closeMarker ++ d)
    rwa [hdoc₂, ← ByteArray.size_append, ByteArray.size_append] at h
  have hstands : Stands doc pre.size (.region (doc.extract pre.size (pre ++ t).size)
      (doc.extract ((pre ++ t).size + openMarker.size) (pre ++ t ++ openMarker ++ s).size) rest) := by
    refine .region (by rw [ByteArray.size_append]; omega) ?_ ?_ ?_ ?_ ?_ ?_
    · intro k hk hk'
      rw [← hdoc]
      exact isOpenMarker_eq_false pre t _ ht k hk (by rwa [← ByteArray.size_append])
    · have hclose := size_closeMarker
      rw [← hdoc₁]
      exact isOpenMarker_append_self (pre ++ t) _ (by simp only [ByteArray.size_append]; omega)
    · simp only [ByteArray.size_append]
      omega
    · intro k hk hk'
      rw [← hdoc₂]
      rw [← ByteArray.size_append] at hk
      exact isCloseMarker_eq_false _ s _ hs k hk (by rwa [← ByteArray.size_append])
    · rw [← hdoc₃]
      exact isCloseMarker_append_self _ _
    · rwa [hdoc₄, ByteArray.size_append] at hrest
  rwa [htext, hsource] at hstands

theorem document_last (t : Bytes) : (last t).document = t := ByteArray.empty_append

theorem document_cut (t s : Bytes) : (cut t s).document = t ++ (openMarker ++ s) := by
  simp only [document, pieces, Segment.assemble_eq_concat, List.map_cons, List.map_nil, Bytes.concat,
    Segment.written, ByteArray.append_empty]

theorem document_region (t s : Bytes) (rest : Layout) :
    (region t s rest).document = t ++ (openMarker ++ (s ++ (closeMarker ++ rest.document))) := by
  simp only [document, pieces, Segment.assemble_cons, Segment.written, ByteArray.append_assoc]

/-- A well-formed layout stands in the document that it stands for, whatever comes before. -/
theorem stands_of_wellFormed (l : Layout) (h : l.WellFormed) (pre : Bytes) :
    Stands (pre ++ l.document) pre.size l := by
  induction l generalizing pre with
  | last t =>
    rw [document_last]
    exact stands_last pre t h
  | cut t s =>
    rw [document_cut]
    exact stands_cut pre t s h.1 h.2.1 h.2.2
  | region t s rest ih =>
    rw [document_region]
    exact stands_region pre t s _ rest h.1 h.2.1 (ih h.2.2 _)

theorem ofSegments_textUpTo (doc : Bytes) {i j : Nat} (hij : i ≤ j) (r : List Segment) :
    ofSegments ((if i < j then [Segment.text (doc.extract i j)] else []) ++ r) =
      (ofSegments r).prepend (doc.extract i j) := by
  by_cases h : i < j
  · rw [if_pos h]
    rfl
  · have he : i = j := by omega
    rw [if_neg h, he, ByteArray.extract_same, List.nil_append]
    cases ofSegments r <;> simp only [prepend, ByteArray.empty_append]

theorem ofSegments_readFrom (h : Stands doc i l) (fuel : Nat) (hfuel : doc.size - i < fuel) :
    ofSegments (Segment.readFrom doc fuel i) = l := by
  have hsizeOpen := size_openMarker
  have hsizeClose := size_closeMarker
  -- what the layout says of the next markers is what the reader finds when it looks for them
  induction h generalizing fuel with
  | @last i hi hnone =>
    obtain ⟨fuel, rfl⟩ : ∃ n, fuel = n + 1 := ⟨fuel - 1, by omega⟩
    have hseek : Segment.seek (isOpenMarker doc) (doc.size - i) i = none :=
      (Segment.seek_eq_none_iff _ _ _).mpr fun k hk hk' => hnone k hk (by omega)
    have h := ofSegments_textUpTo doc hi []
    rw [List.append_nil] at h
    simp only [Segment.readFrom, hseek]
    rw [h, ofSegments, prepend, ByteArray.append_empty]
  | @cut i j hij hbefore hopen hnone =>
    obtain ⟨fuel, rfl⟩ : ∃ n, fuel = n + 1 := ⟨fuel - 1, by omega⟩
    have hlt := isOpenMarker_lt doc j hopen
    have hseek : Segment.seek (isOpenMarker doc) (doc.size - i) i = some j :=
      (Segment.seek_eq_some_iff _ _ _ _).mpr ⟨hij, by omega, hopen, hbefore⟩
    have hseek' : Segment.seek (isCloseMarker doc) (doc.size - (j + openMarker.size))
        (j + openMarker.size) = none :=
      (Segment.seek_eq_none_iff _ _ _).mpr fun k hk hk' => hnone k hk (by omega)
    simp only [Segment.readFrom, hseek, hseek']
    rw [ofSegments_textUpTo doc hij, ofSegments, prepend, ByteArray.append_empty]
  | @region i j k rest hij hbefore hopen hjk hsource hclose hrest ih =>
    obtain ⟨fuel, rfl⟩ : ∃ n, fuel = n + 1 := ⟨fuel - 1, by omega⟩
    have hlt := isOpenMarker_lt doc j hopen
    have hle := isCloseMarker_le doc k hclose
    have hseek : Segment.seek (isOpenMarker doc) (doc.size - i) i = some j :=
      (Segment.seek_eq_some_iff _ _ _ _).mpr ⟨hij, by omega, hopen, hbefore⟩
    have hseek' : Segment.seek (isCloseMarker doc) (doc.size - (j + openMarker.size))
        (j + openMarker.size) = some k :=
      (Segment.seek_eq_some_iff _ _ _ _).mpr ⟨hjk, by omega, hclose, hsource⟩
    simp only [Segment.readFrom, hseek, hseek']
    rw [ofSegments_textUpTo doc hij, ofSegments, prepend, ByteArray.append_empty, ih fuel (by omega)]

theorem read_document (l : Layout) (h : l.WellFormed) : read l.document = l := by
  have hstands := stands_of_wellFormed l h .empty
  rw [ByteArray.empty_append] at hstands
  exact ofSegments_readFrom hstands _ (Nat.lt_succ_of_le (Nat.sub_le _ _))

theorem document_read (doc : Bytes) : (read doc).document = doc := by
  rw [document, (stands_read doc).reads.assemble_eq, ByteArray.extract_zero_size]

theorem isOpenMarker_of_size_le (doc : Bytes) (k : Nat) (h : doc.size ≤ k) :
    isOpenMarker doc k = false := by
  rw [Bool.eq_false_iff]
  intro hopen
  have hlt := isOpenMarker_lt doc k hopen
  omega

theorem isCloseMarker_of_size_le (doc : Bytes) (k : Nat) (h : doc.size ≤ k) :
    isCloseMarker doc k = false := by
  rw [Bool.eq_false_iff]
  intro hclose
  have hle := isCloseMarker_le doc k hclose
  have hsize := size_closeMarker
  omega

open Expansion in
/-- A run that does not stop finds exactly the pieces of the layout. -/
theorem Stands.foundFrom {σ ε : Type} (behaviour : Behaviour σ ε) (h : Stands doc i l) (x : Expansion σ)
    (hmode : x.mode = .literal) (hcursor : x.cursor = i) (hstart : x.literalStart = i)
    (hpending : x.pending = .empty) (hdone : (runFrom behaviour doc x).2 = none) :
    foundFrom behaviour doc x = l.pieces := by
  induction h generalizing x with
  | @last i hi hnone =>
    subst hcursor
    obtain ⟨xs, hxs, -, hturns⟩ :=
      rest_of_text behaviour doc x doc.size hmode hi (Nat.le_refl _) hnone
    rw [foundFrom_of_quiet behaviour doc x _ xs hxs hturns,
      foundFrom_at_end behaviour doc _ (Nat.le_refl _), foundAt]
    simp only [hmode, isOpenMarker_of_size_le doc _ (Nat.le_refl _), Bool.false_eq_true, if_false,
      Nat.le_refl, if_true, hstart, pieces]
  | @cut i j hij hbefore hopen hnone =>
    subst hcursor
    have hlt := isOpenMarker_lt doc j hopen
    let y : Expansion σ :=
      { x with cursor := j, line := x.line + Bytes.lineFeeds (doc.extract x.cursor j) }
    obtain ⟨xs, hxs, hrun, hturns⟩ := rest_of_text behaviour doc x j hmode hij (by omega) hbefore
    obtain ⟨s, out, -, hfound⟩ := foundFrom_of_open behaviour doc y hmode hopen (hrun ▸ hdone)
    let z : Expansion σ := ⟨j + openMarker.size, y.line, .inScript, j, x.pending, s, out⟩
    obtain ⟨ys, hys, -, hturns'⟩ :=
      rest_of_source behaviour doc z doc.size rfl (Nat.le_of_lt hlt) (Nat.le_refl _) hnone
    rw [foundFrom_of_quiet behaviour doc x y xs hxs hturns, hfound,
      foundFrom_of_quiet behaviour doc z _ ys hys hturns',
      foundFrom_at_end behaviour doc _ (Nat.le_refl _), foundAt]
    simp only [y, z, hpending, ByteArray.empty_append, isCloseMarker_of_size_le doc _ (Nat.le_refl _),
      Bool.false_eq_true, if_false, Nat.le_refl, Bytes.isEmpty_extract_size doc _ hlt, and_self, if_true,
      hstart, pieces]
  | @region i j k rest hij hbefore hopen hjk hsource hclose hrest ih =>
    subst hcursor
    have hlt := isOpenMarker_lt doc j hopen
    have hle := isCloseMarker_le doc k hclose
    -- `y` stands at the open marker, `z` behind it, and `w` at the close marker
    let y : Expansion σ :=
      { x with cursor := j, line := x.line + Bytes.lineFeeds (doc.extract x.cursor j) }
    obtain ⟨xs, hxs, hrun, hturns⟩ := rest_of_text behaviour doc x j hmode hij (by omega) hbefore
    obtain ⟨s, out, hdone', hfound⟩ := foundFrom_of_open behaviour doc y hmode hopen (hrun ▸ hdone)
    let z : Expansion σ := ⟨j + openMarker.size, y.line, .inScript, j, x.pending, s, out⟩
    let w : Expansion σ :=
      { z with cursor := k, line := z.line + Bytes.lineFeeds (doc.extract z.cursor k),
               pending := z.pending ++ doc.extract z.cursor k }
    obtain ⟨ys, hys, hrun', hturns'⟩ := rest_of_source behaviour doc z k rfl hjk (by omega) hsource
    obtain ⟨s', out', hdone'', hfound'⟩ :=
      foundFrom_of_close behaviour doc w rfl hclose (hrun' ▸ hdone')
    rw [foundFrom_of_quiet behaviour doc x y xs hxs hturns, hfound,
      foundFrom_of_quiet behaviour doc z w ys hys hturns', hfound', ih _ rfl rfl rfl rfl hdone'']
    simp only [y, z, w, hpending, ByteArray.empty_append, hstart, pieces]

end Layout

open Expansion in
/-- Documents and well-formed layouts correspond one to one. A run whose chunks all succeed finds
exactly the layout of its document: each source is run once and in order, and each text and each
output is written in its place. -/
theorem Layout.correspondence {σ ε : Type} :
    (∀ doc : Bytes, (Layout.read doc).WellFormed ∧ (Layout.read doc).document = doc) ∧
    (∀ l : Layout, l.WellFormed → Layout.read l.document = l) ∧
    ∀ (behaviour : Behaviour σ ε) (state last : σ) (doc : Bytes) (outputs : List Bytes),
      behaviour.runAll state (Layout.read doc).sources = some (last, outputs) →
        let r := run behaviour state doc .unlimited
        r.2 = none ∧ r.1.session.state = last ∧
          found behaviour state doc .unlimited = (Layout.read doc).pieces ∧
          executed behaviour state doc .unlimited = (Layout.read doc).sources ∧
          r.1.out.written = Bytes.concat (writes (Layout.read doc).pieces outputs) := by
  refine ⟨fun doc => ⟨(stands_read doc).wellFormed, document_read doc⟩, read_document, ?_⟩
  intro behaviour state last doc outputs hall r
  obtain ⟨ran, hran, hexpand⟩ :=
    Segment.expand_of_runAll behaviour (read doc).pieces 1 state last outputs .empty hall
  have hread := expand_read behaviour state doc .unlimited _ (stands_read doc).reads
  change _ = Segment.expand behaviour (read doc).pieces 1 ⟨state, .empty⟩ ⟨.empty, none⟩ at hread
  rw [hexpand] at hread
  have hdone : r.2 = none := by rw [run_failure, hread]
  refine ⟨hdone, by rw [run_session, hread], ?_, ?_, ?_⟩
  · exact (stands_read doc).foundFrom behaviour (start state .unlimited) rfl rfl rfl rfl hdone
  · rw [executed_eq_ran, hread, hran, sources]
  · rw [run_out, hread, ByteArray.empty_append]

open Expansion in
/-- The correspondence at a document whose last region is cut off after a question mark. -/
theorem Layout.correspondence_at_cut_region :
    let doc : Bytes := "a<?lua x ?><<?luay?"
    let l : Layout := .region "a" " x " (.cut "<" "y?")
    let behaviour : Behaviour Nat Unit := fun n chunk => (n + 1, chunk, none)
    let chunks : List Bytes := [(" x " : String), ("y?" : String)]
    l.WellFormed ∧ Layout.read doc = l ∧ Layout.read l.document = l ∧
      behaviour.runAll 0 l.sources = some (2, chunks) ∧
      executed behaviour 0 doc .unlimited = chunks ∧
      (run behaviour 0 doc .unlimited).1.out.written = "a x <y?" := by
  intro doc l behaviour chunks
  have hread : Layout.read doc = l := by decide
  have hall : behaviour.runAll 0 l.sources = some (2, chunks) := rfl
  have hsources : l.sources = chunks := rfl
  have hwrites : Bytes.concat (writes l.pieces chunks) = ("a x <y?" : String) := by decide
  clear_value doc l behaviour chunks
  subst hread
  obtain ⟨hdocument, hinverse, hrun⟩ := correspondence (σ := Nat) (ε := Unit)
  have hwell := (hdocument doc).1
  obtain ⟨-, -, -, hexecuted, hwritten⟩ := hrun behaviour 0 2 doc chunks hall
  exact ⟨hwell, rfl, hinverse _ hwell, hall, hexecuted.trans hsources, hwritten.trans hwrites⟩

end LuaPages.Document
