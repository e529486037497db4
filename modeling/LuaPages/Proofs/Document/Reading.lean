import LuaPages.Document.Segment
import LuaPages.Proofs.Text.Bytes

namespace LuaPages.Document

theorem toList_openMarker : openMarker.data.toList = 60 :: [63, 108, 117, 97] := rfl

theorem toList_closeMarker : closeMarker.data.toList = 63 :: [62] := rfl

theorem size_openMarker : openMarker.size = 5 := rfl

theorem size_closeMarker : closeMarker.size = 2 := rfl

theorem lineFeeds_openMarker : openMarker.lineFeeds = 0 := rfl

theorem lineFeeds_closeMarker : closeMarker.lineFeeds = 0 := rfl

theorem isOpenMarker_iff (doc : Bytes) (i : Nat) :
    isOpenMarker doc i = true ↔ i + openMarker.size < doc.size ∧ doc.matchesAt i openMarker = true := by
  rw [isOpenMarker, Bool.and_eq_true, decide_eq_true_eq]

theorem isOpenMarker_append_right (a b : Bytes) (i : Nat) :
    isOpenMarker (a ++ b) (a.size + i) = isOpenMarker b i := by
  rw [isOpenMarker, isOpenMarker, Bytes.matchesAt_append_right, ByteArray.size_append, Nat.add_assoc]
  simp only [Nat.add_lt_add_iff_left]

theorem isCloseMarker_append_right (a b : Bytes) (i : Nat) :
    isCloseMarker (a ++ b) (a.size + i) = isCloseMarker b i :=
  Bytes.matchesAt_append_right a b closeMarker i

theorem isOpenMarker_extract (doc : Bytes) (i : Nat) (h : isOpenMarker doc i = true) :
    doc.extract i (i + openMarker.size) = openMarker :=
  ((Bytes.matchesAt_iff_extract _ _ _).mp ((isOpenMarker_iff doc i).mp h).2).2

theorem isOpenMarker_lt (doc : Bytes) (i : Nat) (h : isOpenMarker doc i = true) :
    i + openMarker.size < doc.size :=
  ((isOpenMarker_iff doc i).mp h).1

theorem isCloseMarker_extract (doc : Bytes) (i : Nat) (h : isCloseMarker doc i = true) :
    doc.extract i (i + closeMarker.size) = closeMarker :=
  ((Bytes.matchesAt_iff_extract _ _ _).mp h).2

theorem isCloseMarker_le (doc : Bytes) (i : Nat) (h : isCloseMarker doc i = true) :
    i + closeMarker.size ≤ doc.size :=
  ((Bytes.matchesAt_iff_extract _ _ _).mp h).1

namespace Segment

def written : Segment → Bytes
  | text b => b
  | region s => openMarker ++ s ++ closeMarker
  | unclosed s => openMarker ++ s

def assemble (segments : List Segment) : Bytes := segments.foldl (fun acc s => acc ++ s.written) .empty

def sources : List Segment → List Bytes
  | [] => []
  | text _ :: r => sources r
  | region s :: r | unclosed s :: r => s :: sources r

theorem seek_eq_none_iff (p : Nat → Bool) (fuel i : Nat) :
    seek p fuel i = none ↔ ∀ k, i ≤ k → k < i + fuel → p k = false := by
  induction fuel generalizing i with
  | zero => simp only [seek, true_iff]; intro k hk hk'; omega
  | succ fuel ih =>
    rw [seek]
    by_cases hp : p i = true
    · rw [if_pos hp]
      refine ⟨fun h => (nomatch h), fun h => ?_⟩
      rw [h i (Nat.le_refl i) (by omega)] at hp
      exact absurd hp (by decide)
    · rw [if_neg hp, ih]
      constructor
      · intro h k hk hk'
        by_cases hki : k = i
        · rw [hki, Bool.eq_false_iff]; exact hp
        · exact h k (by omega) (by omega)
      · intro h k hk hk'
        exact h k (by omega) (by omega)

theorem seek_eq_some_iff (p : Nat → Bool) (fuel i j : Nat) :
    seek p fuel i = some j ↔
      i ≤ j ∧ j < i + fuel ∧ p j = true ∧ ∀ k, i ≤ k → k < j → p k = false := by
  induction fuel generalizing i with
  | zero =>
    simp only [seek]
    exact ⟨fun h => (nomatch h), fun h => absurd h.2.1 (by omega)⟩
  | succ fuel ih =>
    rw [seek]
    by_cases hp : p i = true
    · rw [if_pos hp, Option.some.injEq]
      constructor
      · rintro rfl
        exact ⟨Nat.le_refl i, by omega, hp, fun k hk hk' => absurd hk' (by omega)⟩
      · rintro ⟨hij, -, -, hbefore⟩
        refine Nat.le_antisymm hij (Nat.le_of_not_lt fun hlt => ?_)
        rw [hbefore i (Nat.le_refl i) hlt] at hp
        exact absurd hp (by decide)
    · rw [if_neg hp, ih]
      constructor
      · rintro ⟨hij, hj, hpj, hbefore⟩
        refine ⟨by omega, by omega, hpj, fun k hk hk' => ?_⟩
        by_cases hki : k = i
        · rw [hki, Bool.eq_false_iff]; exact hp
        · exact hbefore k (by omega) hk'
      · rintro ⟨hij, hj, hpj, hbefore⟩
        have hne : i ≠ j := by rintro rfl; exact hp hpj
        exact ⟨by omega, by omega, hpj, fun k hk hk' => hbefore k (by omega) hk'⟩

/-- `Reads doc i l`: from position `i` on, where text may begin, the document is made of the segments
`l`. Text has no open marker in it, and the source of a region no close marker. Text may be cut
anywhere, so that a document has more than one such list. -/
inductive Reads (doc : Bytes) : Nat → List Segment → Prop
  | done : Reads doc doc.size []
  | text {i j : Nat} {l : List Segment} (hij : i ≤ j) (hj : j ≤ doc.size)
      (hopen : ∀ k, i ≤ k → k < j → isOpenMarker doc k = false) (rest : Reads doc j l) :
      Reads doc i (.text (doc.extract i j) :: l)
  | region {i j : Nat} {l : List Segment} (hopen : isOpenMarker doc i = true)
      (hij : i + openMarker.size ≤ j)
      (hclose : ∀ k, i + openMarker.size ≤ k → k < j → isCloseMarker doc k = false)
      (hj : isCloseMarker doc j = true) (rest : Reads doc (j + closeMarker.size) l) :
      Reads doc i (.region (doc.extract (i + openMarker.size) j) :: l)
  | unclosed {i : Nat} (hopen : isOpenMarker doc i = true)
      (hclose : ∀ k, i + openMarker.size ≤ k → k < doc.size → isCloseMarker doc k = false) :
      Reads doc i [.unclosed (doc.extract (i + openMarker.size) doc.size)]

theorem Reads.le {doc : Bytes} {i : Nat} {l : List Segment} (h : Reads doc i l) : i ≤ doc.size := by
  cases h with
  | done => exact Nat.le_refl _
  | text hij hj => exact Nat.le_trans hij hj
  | region hopen => have := isOpenMarker_lt doc i hopen; omega
  | unclosed hopen => have := isOpenMarker_lt doc i hopen; omega

/-- Text without bytes can be left out. -/
theorem Reads.textUpTo {doc : Bytes} {i j : Nat} {l : List Segment} (hij : i ≤ j) (hj : j ≤ doc.size)
    (hopen : ∀ k, i ≤ k → k < j → isOpenMarker doc k = false) (rest : Reads doc j l) :
    Reads doc i ((if i < j then [Segment.text (doc.extract i j)] else []) ++ l) := by
  by_cases h : i < j
  · rw [if_pos h]
    exact .text hij hj hopen rest
  · have he : i = j := by omega
    subst he
    rw [if_neg h]
    exact rest

/-- What the reader finds stands in the document. -/
theorem reads_readFrom (doc : Bytes) (fuel i : Nat) (hi : i ≤ doc.size) (hfuel : doc.size - i < fuel) :
    Reads doc i (readFrom doc fuel i) := by
  -- each region takes at least one byte, so the fuel stays above what is left
  induction fuel generalizing i with
  | zero => omega
  | succ fuel ih =>
    simp only [readFrom]
    cases hseek : seek (isOpenMarker doc) (doc.size - i) i with
    | none =>
      have hopen := (seek_eq_none_iff _ _ _).mp hseek
      have h : Reads doc i ((if i < doc.size then [text (doc.extract i doc.size)] else []) ++ []) :=
        .textUpTo hi (Nat.le_refl _) (fun k hk hk' => hopen k hk (by omega)) .done
      rwa [List.append_nil] at h
    | some j =>
      obtain ⟨hij, -, hj, hbefore⟩ := (seek_eq_some_iff _ _ _ _).mp hseek
      have hlt := isOpenMarker_lt doc j hj
      have hsize := size_openMarker
      dsimp only
      cases hseek' : seek (isCloseMarker doc) (doc.size - (j + openMarker.size))
          (j + openMarker.size) with
      | none =>
        have hclose := (seek_eq_none_iff _ _ _).mp hseek'
        exact .textUpTo hij (by omega) hbefore (.unclosed hj fun k hk hk' => hclose k hk (by omega))
      | some k =>
        obtain ⟨hjk, -, hk, hbefore'⟩ := (seek_eq_some_iff _ _ _ _).mp hseek'
        have hle := isCloseMarker_le doc k hk
        exact .textUpTo hij (by omega) hbefore (.region hj hjk hbefore' hk (ih _ hle (by omega)))

theorem reads_read (doc : Bytes) : Reads doc 0 (read doc) :=
  reads_readFrom doc _ 0 (Nat.zero_le _) (by omega)

theorem assemble_eq_concat (l : List Segment) : assemble l = Bytes.concat (l.map written) := by
  rw [assemble, Bytes.foldl_append_eq_concat, ByteArray.empty_append]

theorem assemble_cons (s : Segment) (l : List Segment) :
    assemble (s :: l) = s.written ++ assemble l := by
  rw [assemble_eq_concat, assemble_eq_concat, List.map_cons, Bytes.concat]

theorem written_region_eq (doc : Bytes) (i j : Nat) (hopen : isOpenMarker doc i = true)
    (hij : i + openMarker.size ≤ j) (hj : isCloseMarker doc j = true) :
    (region (doc.extract (i + openMarker.size) j)).written = doc.extract i (j + closeMarker.size) := by
  calc
    _ = doc.extract i (i + openMarker.size) ++ doc.extract (i + openMarker.size) j ++
        doc.extract j (j + closeMarker.size) := by
      rw [written, isOpenMarker_extract doc i hopen, isCloseMarker_extract doc j hj]
    _ = doc.extract i (j + closeMarker.size) := by
      rw [← ByteArray.extract_eq_extract_append_extract _ (by omega) hij,
        ← ByteArray.extract_eq_extract_append_extract _ (by omega) (by omega)]

theorem written_unclosed_eq (doc : Bytes) (i : Nat) (hopen : isOpenMarker doc i = true) :
    (unclosed (doc.extract (i + openMarker.size) doc.size)).written = doc.extract i doc.size := by
  have hlt := isOpenMarker_lt doc i hopen
  calc
    _ = doc.extract i (i + openMarker.size) ++ doc.extract (i + openMarker.size) doc.size := by
      rw [written, isOpenMarker_extract doc i hopen]
    _ = doc.extract i doc.size :=
      (ByteArray.extract_eq_extract_append_extract _ (by omega) (by omega)).symm

/-- The segments that stand in a document from a position on make up the rest of it. -/
theorem Reads.assemble_eq {doc : Bytes} {i : Nat} {l : List Segment} (h : Reads doc i l) :
    assemble l = doc.extract i doc.size := by
  induction h with
  | done => exact ByteArray.extract_same.symm
  | @text i j l hij hj hopen rest ih =>
    rw [assemble_cons, ih, written, ← ByteArray.extract_eq_extract_append_extract j hij hj]
  | @region i j l hopen hij hclose hj rest ih =>
    have hle := rest.le
    rw [assemble_cons, ih, written_region_eq doc i j hopen hij hj,
      ← ByteArray.extract_eq_extract_append_extract _ (by omega) hle]
  | @unclosed i hopen hclose =>
    rw [assemble_cons, written_unclosed_eq doc i hopen]
    exact ByteArray.append_empty

theorem isOpenMarker_extract_zero_iff (doc : Bytes) (j k : Nat) (hj : j ≤ doc.size) :
    isOpenMarker (doc.extract 0 j) k = true ↔ k + openMarker.size < j ∧ isOpenMarker doc k = true := by
  rw [isOpenMarker_iff, isOpenMarker_iff, Bytes.size_extract_of_le doc 0 j hj,
    Bytes.matchesAt_extract_iff doc openMarker 0 j k hj (by decide), Nat.zero_add]
  constructor
  · rintro ⟨hlt, -, hmatch⟩
    exact ⟨by omega, by omega, hmatch⟩
  · rintro ⟨hlt, -, hmatch⟩
    exact ⟨by omega, by omega, hmatch⟩

theorem isCloseMarker_extract_zero_iff (doc : Bytes) (j k : Nat) (hj : j ≤ doc.size) :
    isCloseMarker (doc.extract 0 j) k = true ↔
      k + closeMarker.size ≤ j ∧ isCloseMarker doc k = true := by
  rw [isCloseMarker, Bytes.matchesAt_extract_iff doc closeMarker 0 j k hj (by decide), Nat.zero_add]
  rfl

theorem extract_extract_zero (doc : Bytes) (i j k : Nat) (h : k ≤ j) :
    (doc.extract 0 j).extract i k = doc.extract i k := by
  rw [ByteArray.extract_extract, Nat.zero_add, Nat.zero_add, Nat.min_eq_left h]

/-- Where a list of segments goes on with more, its first part stands in the beginning of the document
by itself. -/
theorem Reads.split {doc : Bytes} {i : Nat} {l r : List Segment} (h : Reads doc i (l ++ r))
    (hr : r ≠ []) :
    ∃ j, i ≤ j ∧ assemble l = doc.extract i j ∧ Reads (doc.extract 0 j) i l ∧ Reads doc j r := by
  -- induction on the first part, since the list of `h` has to be known to end in `r`
  induction l generalizing i with
  | nil =>
    have hi : (doc.extract 0 i).size = i := Bytes.size_extract_of_le doc 0 i h.le
    have hdone : Reads (doc.extract 0 i) (doc.extract 0 i).size [] := .done
    rw [hi] at hdone
    exact ⟨i, Nat.le_refl i, ByteArray.extract_same.symm, hdone, h⟩
  | cons x l ih =>
    rw [List.cons_append] at h
    generalize ht : l ++ r = t at h
    cases h with
    | @text i j l' hij hj hopen rest =>
      subst ht
      obtain ⟨m, hjm, hassemble, hstands, hrest⟩ := ih rest
      have hm := hrest.le
      refine ⟨m, by omega, ?_, ?_, hrest⟩
      · rw [assemble_cons, hassemble, written, ← ByteArray.extract_eq_extract_append_extract j hij hjm]
      · rw [← extract_extract_zero doc i m j hjm]
        refine .text hij (by rwa [Bytes.size_extract_of_le doc 0 m hm]) (fun k hk hk' => ?_) hstands
        rw [Bool.eq_false_iff, Ne, isOpenMarker_extract_zero_iff doc m k hm, hopen k hk hk']
        exact fun h => Bool.false_ne_true h.2
    | @region i j l' hopen hij hclose hj rest =>
      subst ht
      obtain ⟨m, hjm, hassemble, hstands, hrest⟩ := ih rest
      have hm := hrest.le
      have hsize := size_closeMarker
      refine ⟨m, by omega, ?_, ?_, hrest⟩
      · rw [assemble_cons, hassemble, written_region_eq doc i j hopen hij hj,
          ← ByteArray.extract_eq_extract_append_extract _ (by omega) hjm]
      · rw [← extract_extract_zero doc _ m j (by omega)]
        refine .region ?_ hij (fun k hk hk' => ?_) ?_ hstands
        · exact (isOpenMarker_extract_zero_iff doc m i hm).mpr ⟨by omega, hopen⟩
        · rw [Bool.eq_false_iff, Ne, isCloseMarker_extract_zero_iff doc m k hm, hclose k hk hk']
          exact fun h => Bool.false_ne_true h.2
        · exact (isCloseMarker_extract_zero_iff doc m j hm).mpr ⟨hjm, hj⟩
    | unclosed => exact absurd (List.append_eq_nil_iff.mp ht).2 hr

end Segment

end LuaPages.Document
