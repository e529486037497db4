import LuaPages.Text.Parts

namespace LuaPages.Parts

theorem split_ne_nil (separator : Char) (l : List Char) : split separator l ≠ [] := by
  cases l with
  | nil => simp [split]
  | cons c r =>
    simp only [split]
    split
    · simp
    · split <;> simp

theorem split_append (separator : Char) (a b : List Char) :
    split separator (a ++ separator :: b) = split separator a ++ split separator b := by
  induction a with
  | nil =>
    simp only [List.nil_append, split]
    split
    · exact absurd ‹_› (split_ne_nil separator b)
    · simp_all
  | cons c r ih =>
    simp only [List.cons_append, split, ih]
    match h : split separator r with
    | [] => exact absurd h (split_ne_nil separator r)
    | p :: ps => by_cases hc : c = separator <;> simp [hc]

variable {separator : Char}

theorem split_eq_splitOn (separator : Char) (l : List Char) :
    split separator l = l.splitOn separator := by
  induction l with
  | nil => rw [split, List.splitOn_nil]
  | cons c r ih =>
    obtain ⟨p, ps, hr⟩ := List.exists_cons_of_ne_nil (split_ne_nil separator r)
    rw [List.splitOn_cons_eq_if_modifyHead, ← ih, split, hr]
    by_cases hc : c = separator <;> simp [hc]

theorem split_intercalate {parts : List (List Char)} (hne : parts ≠ [])
    (h : ∀ p ∈ parts, separator ∉ p) : split separator ([separator].intercalate parts) = parts := by
  rw [split_eq_splitOn, List.splitOn_intercalate separator h hne]

theorem not_mem_of_mem_split {l p : List Char} (h : p ∈ split separator l) : separator ∉ p := by
  induction l generalizing p with
  | nil =>
    rw [split, List.mem_singleton] at h
    rw [h]
    exact List.not_mem_nil
  | cons c r ih =>
    obtain ⟨q, qs, hr⟩ := List.exists_cons_of_ne_nil (split_ne_nil separator r)
    rw [hr] at ih
    simp only [split, hr] at h
    by_cases hc : c = separator
    · rw [if_pos hc] at h
      rcases List.mem_cons.mp h with rfl | h
      · exact List.not_mem_nil
      · exact ih h
    · rw [if_neg hc] at h
      rcases List.mem_cons.mp h with rfl | h
      · intro hmem
        rcases List.mem_cons.mp hmem with hmem | hmem
        · exact hc hmem.symm
        · exact ih List.mem_cons_self hmem
      · exact ih (List.mem_cons_of_mem q h)

theorem exists_mem_split_iff {l : List Char} {c : Char} (hc : c ≠ separator) :
    (∃ p ∈ split separator l, c ∈ p) ↔ c ∈ l := by
  induction l with
  | nil => simp [split]
  | cons d r ih =>
    obtain ⟨q, qs, hr⟩ := List.exists_cons_of_ne_nil (split_ne_nil separator r)
    rw [hr] at ih
    simp only [split, hr, List.mem_cons, ← ih]
    by_cases hd : d = separator
    · simp [hd, hc]
    · simp [hd, or_assoc]

theorem split_append_of_not_mem {a b p : List Char} {ps : List (List Char)} (h : separator ∉ a)
    (hb : split separator b = p :: ps) : split separator (a ++ b) = (a ++ p) :: ps := by
  induction a with
  | nil => exact hb
  | cons c a ih =>
    rw [List.mem_cons, not_or] at h
    rw [List.cons_append, split, ih h.2]
    simp [Ne.symm h.1]

/-- What stands before a text that joined names end in goes to the parts as it is. -/
theorem split_intercalate_append (names : List (List Char)) (last b : List Char)
    (h : ∀ p ∈ names, separator ∉ p) :
    split separator ([separator].intercalate (names ++ [last]) ++ b) =
      names ++ split separator (last ++ b) := by
  induction names with
  | nil => simp
  | cons p names ih =>
    have hne : names ++ [last] ≠ [] := List.append_ne_nil_of_right_ne_nil _ (List.cons_ne_nil _ _)
    have hp : split separator p = [p] := by
      rw [split_eq_splitOn, List.splitOn_eq_singleton (h p List.mem_cons_self)]
    calc split separator ([separator].intercalate (p :: (names ++ [last])) ++ b)
        = split separator (p ++ separator :: ([separator].intercalate (names ++ [last]) ++ b)) := by
          rw [List.intercalate_cons_of_ne_nil hne]
          simp only [List.append_assoc, List.cons_append, List.nil_append]
      _ = p :: (names ++ split separator (last ++ b)) := by
          rw [split_append, hp, ih fun q hq => h q (List.mem_cons_of_mem p hq)]
          rfl

/-- Joined names begin with the first of them, of which the last may be cut short. -/
theorem intercalate_prefix (names : List (List Char)) (last more : List Char)
    (rest : List (List Char)) :
    [separator].intercalate (names ++ [last]) <+:
      [separator].intercalate (names ++ (last ++ more) :: rest) := by
  induction names with
  | nil =>
    rw [List.nil_append, List.nil_append, List.intercalate_singleton]
    cases rest with
    | nil =>
      rw [List.intercalate_singleton]
      exact List.prefix_append last more
    | cons r rest =>
      rw [List.intercalate_cons_of_ne_nil (List.cons_ne_nil r rest), List.append_assoc, List.append_assoc]
      exact List.prefix_append last _
  | cons p names ih =>
    have hne (l : List Char) (ls : List (List Char)) : names ++ l :: ls ≠ [] :=
      List.append_ne_nil_of_right_ne_nil names (List.cons_ne_nil l ls)
    rw [List.cons_append, List.cons_append, List.intercalate_cons_of_ne_nil (hne last []),
      List.intercalate_cons_of_ne_nil (hne (last ++ more) rest), List.prefix_append_right_inj]
    exact ih

end LuaPages.Parts
