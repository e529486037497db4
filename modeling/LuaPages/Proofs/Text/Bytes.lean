import LuaPages.Text.Bytes

namespace LuaPages.Bytes

def concat : List Bytes → Bytes
  | [] => .empty
  | b :: r => b ++ concat r

theorem concat_append (l r : List Bytes) : concat (l ++ r) = concat l ++ concat r := by
  induction l with
  | nil => simp [concat]
  | cons b l ih => simp only [List.cons_append, concat, ih, ByteArray.append_assoc]

theorem concat_filterMap_cons {α : Type} (f : α → Option Bytes) (x : α) (l : List α) :
    concat ((x :: l).filterMap f) = concat (f x).toList ++ concat (l.filterMap f) := by
  rw [← concat_append]
  cases h : f x with
  | none => rw [List.filterMap_cons_none h]; rfl
  | some b => rw [List.filterMap_cons_some h]; rfl

theorem foldl_append_eq_concat {α : Type} (f : α → Bytes) (l : List α) (start : Bytes) :
    l.foldl (fun acc x => acc ++ f x) start = start ++ concat (l.map f) := by
  induction l generalizing start with
  | nil => simp [concat]
  | cons x l ih => rw [List.foldl_cons, ih, List.map_cons, concat, ByteArray.append_assoc]

theorem push_eq_append_singleton (b : Bytes) (x : UInt8) : b.push x = b ++ singleton x :=
  ByteArray.append_toByteArray_singleton.symm

/-- The bytes between two positions start with the byte at the first one. -/
theorem extract_eq_singleton_append (b : Bytes) (i j : Nat) (hij : i < j) (hj : j ≤ b.size) :
    b.extract i j = singleton (b.get i (by omega)) ++ b.extract (i + 1) j := by
  rw [ByteArray.extract_eq_extract_append_extract (i + 1) (by omega) hij,
    ByteArray.extract_add_one (by omega)]
  rfl

/-- The bytes between two positions and the next byte. -/
theorem extract_eq_append_singleton (b : Bytes) (i j : Nat) (hij : i ≤ j) (hj : j < b.size) :
    b.extract i (j + 1) = b.extract i j ++ singleton (b.get j hj) := by
  rw [ByteArray.extract_eq_extract_append_extract j hij (Nat.le_succ j), ByteArray.extract_add_one hj]
  rfl

theorem size_extract_of_le (b : Bytes) (i j : Nat) (hj : j ≤ b.size) :
    (b.extract i j).size = j - i := by
  rw [ByteArray.size_extract, Nat.min_eq_left hj]

theorem extract_append_middle (a b c : Bytes) :
    (a ++ (b ++ c)).extract a.size (a.size + b.size) = b := by
  have h := ByteArray.extract_append_size_add (a := a) (b := b ++ c) (i := 0) (j := b.size)
  rw [Nat.add_zero] at h
  rw [h]
  exact ByteArray.extract_append_eq_left rfl

theorem isEmpty_extract_size (b : Bytes) (i : Nat) (h : i < b.size) :
    (b.extract i b.size).isEmpty = false := by
  rw [ByteArray.isEmpty, size_extract_of_le b i _ (Nat.le_refl _), beq_eq_false_iff_ne]
  omega

theorem extract_zero_append (a b : Bytes) (n : Nat) :
    (a ++ b).extract 0 n = a.extract 0 n ++ b.extract 0 (n - a.size) := by
  rw [ByteArray.extract_append, Nat.zero_sub]

theorem extract_zero_of_le (b : Bytes) (n : Nat) (h : b.size ≤ n) : b.extract 0 n = b := by
  have hmax : max n b.size = n := Nat.max_eq_left h
  rw [← hmax, ByteArray.extract_zero_max_size]

theorem length_toList (b : Bytes) : b.data.toList.length = b.size := Array.length_toList

theorem toList_extract (b : Bytes) (i j : Nat) :
    (b.extract i j).data.toList = (b.data.toList.drop i).take (j - i) := by
  rw [ByteArray.data_extract, Array.toList_extract, List.extract_eq_take_drop]

theorem eq_of_toList_eq {a b : Bytes} (h : a.data.toList = b.data.toList) : a = b :=
  ByteArray.ext (Array.toList_inj.mp h)

theorem toList_drop_eq_cons (b : Bytes) (i : Nat) (h : i < b.size) :
    b.data.toList.drop i = b.get i h :: b.data.toList.drop (i + 1) := by
  have hl : i < b.data.toList.length := (length_toList b).symm ▸ h
  rw [List.drop_eq_getElem_cons hl]
  rfl

theorem toList_drop_eq_nil (b : Bytes) (i : Nat) (h : b.size ≤ i) : b.data.toList.drop i = [] :=
  List.drop_eq_nil_of_le ((length_toList b).symm ▸ h)

theorem toList_join (sep : Bytes) (l : List Bytes) :
    (join sep l).data.toList = sep.data.toList.intercalate (l.map (·.data.toList)) := by
  cases l with
  | nil => rfl
  | cons b l =>
    have hfold : (l.foldl (fun acc y => acc ++ sep ++ y) b).data.toList =
        sep.data.toList.intercalate (b.data.toList :: l.map (·.data.toList)) := by
      induction l generalizing b with
      | nil => exact (List.intercalate_singleton ..).symm
      | cons y l ih =>
        rw [List.foldl_cons, ih, ByteArray.toList_data_append, ByteArray.toList_data_append,
          List.map_cons, List.intercalate_cons_cons, List.append_assoc]
        cases l <;> simp [List.intercalate_cons_cons]
    cases l with
    | nil => exact hfold
    | cons y l => exact hfold

def lineFeeds (b : Bytes) : Nat := b.data.toList.count 10

theorem lineFeeds_empty : lineFeeds .empty = 0 := rfl

theorem lineFeeds_append (a b : Bytes) : lineFeeds (a ++ b) = lineFeeds a + lineFeeds b := by
  simp only [lineFeeds, ByteArray.toList_data_append, List.count_append]

theorem lineFeeds_singleton (b : UInt8) : lineFeeds (singleton b) = if b == 10 then 1 else 0 :=
  List.count_singleton

theorem lineFeeds_extract_add (b : Bytes) (i n : Nat) :
    lineFeeds (b.extract 0 (i + n)) = lineFeeds (b.extract 0 i) + lineFeeds (b.extract i (i + n)) := by
  rw [← lineFeeds_append,
    ← ByteArray.extract_eq_extract_append_extract i (Nat.zero_le i) (Nat.le_add_right i n)]

def Contains (b p : Bytes) : Prop := ∃ i, b.matchesAt i p = true

theorem eq_of_beq_iff (a b : Bytes) : (a == b) = true ↔ a = b := by
  change (a.data == b.data) = true ↔ a = b
  rw [beq_iff_eq, ByteArray.ext_iff]

theorem matchesAt_iff_extract (b p : Bytes) (i : Nat) :
    b.matchesAt i p = true ↔ i + p.size ≤ b.size ∧ b.extract i (i + p.size) = p := by
  simp only [matchesAt, Bool.and_eq_true, decide_eq_true_eq, eq_of_beq_iff]

/-- A match is a beginning of the list of bytes from there on. -/
theorem matchesAt_iff_prefix_drop (b p : Bytes) (i : Nat) (hp : 0 < p.size) :
    b.matchesAt i p = true ↔ p.data.toList <+: b.data.toList.drop i := by
  have hcut : (b.extract i (i + p.size)).data.toList = (b.data.toList.drop i).take p.size := by
    rw [toList_extract, Nat.add_sub_cancel_left]
  rw [matchesAt_iff_extract, List.prefix_iff_eq_take, length_toList]
  constructor
  · rintro ⟨-, h⟩
    rw [← hcut, h]
  · intro h
    have hlen := congrArg List.length h
    rw [List.length_take, List.length_drop, length_toList, length_toList] at hlen
    exact ⟨by omega, eq_of_toList_eq (hcut.trans h.symm)⟩

theorem matchesAt_append_right (a b p : Bytes) (i : Nat) :
    (a ++ b).matchesAt (a.size + i) p = b.matchesAt i p := by
  rw [Bool.eq_iff_iff, matchesAt_iff_extract, matchesAt_iff_extract, Nat.add_assoc,
    ByteArray.extract_append_size_add, ByteArray.size_append, Nat.add_le_add_iff_left]

theorem matchesAt_append_self (p r : Bytes) : (p ++ r).matchesAt 0 p = true := by
  rw [matchesAt_iff_extract, Nat.zero_add, ByteArray.size_append]
  exact ⟨Nat.le_add_right _ _, ByteArray.extract_append_eq_left rfl⟩

/-- The matches inside a cut are those in the whole that end inside it. -/
theorem matchesAt_extract_iff (b p : Bytes) (i j k : Nat) (hj : j ≤ b.size) (hp : 0 < p.size) :
    matchesAt (b.extract i j) k p = true ↔ i + k + p.size ≤ j ∧ b.matchesAt (i + k) p = true := by
  rw [matchesAt_iff_extract, matchesAt_iff_extract, size_extract_of_le b i j hj,
    ByteArray.extract_extract, ← Nat.add_assoc]
  constructor
  · rintro ⟨hsize, hcut⟩
    have hend : min (i + k + p.size) j = i + k + p.size := by omega
    rw [hend] at hcut
    exact ⟨by omega, by omega, hcut⟩
  · rintro ⟨hsize, -, hcut⟩
    rw [Nat.min_eq_left hsize]
    exact ⟨by omega, hcut⟩

/-- A match that starts in the first of two lists does not reach into a second one that begins with
the same match, if the first element of the match does not come again in it. -/
theorem prefix_drop_of_prefix_drop_append {α : Type} (a q r : List α) (c : α) (i : Nat)
    (hc : c ∉ q) (hi : i < a.length) (h : c :: q <+: (a ++ (c :: q ++ r)).drop i) :
    c :: q <+: a.drop i := by
  rw [List.drop_append_of_le_length (Nat.le_of_lt hi)] at h
  have hlen : (a.drop i).length = a.length - i := List.length_drop
  by_cases hfit : (c :: q).length ≤ (a.drop i).length
  · exact List.prefix_of_prefix_length_le h (List.prefix_append _ _) hfit
  · -- the element of the match that stands where the second list begins is its first one again
    obtain ⟨k, hk⟩ : ∃ k, (a.drop i).length = k + 1 := ⟨a.length - i - 1, by omega⟩
    obtain ⟨t, ht⟩ := h
    have hget := congrArg (fun l => l[k + 1]?) ht
    rw [List.getElem?_append_left (by omega), List.getElem?_append_right (by omega), hk,
      Nat.sub_self, List.getElem?_cons_succ] at hget
    exact absurd (List.mem_of_getElem? hget) hc

/-- A text followed by `p` has no match of `p` from before its end that it does not have by itself. -/
theorem matchesAt_of_append_self (p t r : Bytes) (c : UInt8) (q : List UInt8) (i : Nat)
    (hp : p.data.toList = c :: q) (hc : c ∉ q) (hi : i < t.size)
    (h : (t ++ (p ++ r)).matchesAt i p = true) : t.matchesAt i p = true := by
  have hpos : 0 < p.size := by rw [← length_toList, hp, List.length_cons]; omega
  rw [matchesAt_iff_prefix_drop _ _ _ hpos, hp] at h ⊢
  rw [ByteArray.toList_data_append, ByteArray.toList_data_append, hp] at h
  exact prefix_drop_of_prefix_drop_append _ q _ c i hc ((length_toList t).symm ▸ hi) h

end LuaPages.Bytes
