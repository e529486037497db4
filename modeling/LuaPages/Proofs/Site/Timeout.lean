import LuaPages.Proofs.Number.RealText
import LuaPages.Site.Timeout

namespace LuaPages

section
variable {x : Binary64} {d : Duration}

/-- A number that is read as a duration is not below zero, and up to half a nanosecond it gives none. -/
theorem Duration.of_ofSeconds? (h : ofSeconds? x = some d) :
    x.isFinite = true ∧ (x.isNegative = true → x.isZero = true) ∧
      (d.nanos = 0 ↔ x.absolute ≤ 1 / 2000000000) := by
  obtain ⟨hpos, hratio⟩ := x.ratio_spec
  rw [ofSeconds?] at h
  generalize x.ratio = r at *
  obtain ⟨n, m⟩ := r
  by_cases hrefused : (!x.isFinite || (x.isNegative && !x.isZero)) = true
  · rw [if_pos hrefused] at h
    cases h
  rw [if_neg hrefused, Option.ite_none_right_eq_some, Option.some.injEq] at h
  obtain ⟨-, rfl⟩ := h
  simp only [Bool.or_eq_true, Bool.not_eq_true', Bool.and_eq_true, not_or, not_and,
    Bool.not_eq_false] at hrefused
  refine ⟨hrefused.1, hrefused.2, ?_⟩
  rw [roundDiv_eq_zero_iff hpos, ← hratio, nanosPerSecond]
  push_cast
  rw [mul_div_right_comm]
  constructor <;> intro h <;> linarith

end

namespace Site

/-- Half of the least positive binary number: up to here a number is read as zero. -/
def zeroBound : ℚ := 1 / 2 * 2 ^ (-1074 : Int)

/-- The midpoint of the two binary numbers next to half a nanosecond: up to here a number is read as no
nanoseconds. -/
def nanosecondBound : ℚ := (4835703278458516 + 1 / 2) * 2 ^ (-83 : Int)

/-- The deadline that is read from a number of seconds. -/
structure IsDeadlineFor (v : ℚ) (r : Option Duration) : Prop where
  none_iff : r = none ↔ |v| ≤ zeroBound
  zero_iff : r = some ⟨0⟩ ↔ zeroBound < v ∧ v ≤ nanosecondBound
  positive_iff : (∃ d, r = some d ∧ 0 < d.nanos) ↔ nanosecondBound < v

theorem between_zero : Binary64.Between 0 (-1074) 0 :=
  ⟨Even.zero, .inr rfl, by decide, le_rfl, by simp, by positivity⟩

theorem between_half_nanosecond : Binary64.Between 4835703278458516 (-83) (1 / 2000000000) :=
  ⟨by decide, .inl (by decide), by decide, by decide, by norm_num, by norm_num⟩

theorem zeroBound_le_nanosecondBound : zeroBound ≤ nanosecondBound := by
  rw [zeroBound, nanosecondBound]
  gcongr
  · norm_num
  · exact one_le_two
  · decide

variable {x : Binary64} {negative : Bool} {v : ℚ}

theorem isZero_iff_le_zeroBound (h : x.Approximates negative v) :
    x.isZero = true ↔ v ≤ zeroBound := by
  have habsolute : 0 ≤ x.absolute := by
    rw [Binary64.absolute]
    positivity
  rw [h.zero, ← habsolute.ge_iff_eq', h.le_iff between_zero, Nat.cast_zero, zero_add, zeroBound]

theorem nanos_eq_zero_iff {d : Duration} (h : x.Approximates negative v)
    (hd : Duration.ofSeconds? x = some d) : d.nanos = 0 ↔ v ≤ nanosecondBound := by
  rw [(Duration.of_ofSeconds? hd).2.2, h.le_iff between_half_nanosecond, nanosecondBound]
  norm_cast

theorem isDeadlineFor_none (h : |v| ≤ zeroBound) : IsDeadlineFor v none := by
  have hle : v ≤ zeroBound := (le_abs_self v).trans h
  refine ⟨iff_of_true rfl h, iff_of_false nofun ?_, iff_of_false nofun ?_⟩
  · rintro ⟨hlt, -⟩
    exact hle.not_gt hlt
  · exact (hle.trans zeroBound_le_nanosecondBound).not_gt

theorem isDeadlineFor_some {d : Duration} (hv : zeroBound < v) (hd : d.nanos = 0 ↔ v ≤ nanosecondBound) :
    IsDeadlineFor v (some d) := by
  refine ⟨iff_of_false nofun (hv.trans_le (le_abs_self v)).not_ge, ?_, ?_⟩
  · rw [Option.some.injEq, and_iff_right hv, ← hd]
    exact ⟨congrArg Duration.nanos, congrArg Duration.mk⟩
  · rw [← not_le, ← hd]
    simp [Nat.pos_iff_ne_zero]

/-- A text that is accepted is read as zero or as a duration. -/
theorem readTimeout_cases {text : String} {r : Option Duration} (h : readTimeout text = .ok r) :
    ∃ x, RealText.read? text.toList = some x ∧
      (x.isZero = true ∧ r = none ∨
        ¬ x.isZero = true ∧ ∃ d, Duration.ofSeconds? x = some d ∧ r = some d) := by
  rw [readTimeout] at h
  cases hread : RealText.read? text.toList with
  | none =>
    rw [hread] at h
    cases h
  | some x =>
    rw [hread] at h
    dsimp only at h
    by_cases hzero : x.isZero = true
    · rw [if_pos hzero] at h
      cases h
      exact ⟨x, rfl, .inl ⟨hzero, rfl⟩⟩
    · rw [if_neg hzero] at h
      cases hd : Duration.ofSeconds? x with
      | none =>
        rw [hd] at h
        cases h
      | some d =>
        rw [hd] at h
        cases h
        exact ⟨x, rfl, .inr ⟨hzero, d, hd, rfl⟩⟩

/-- A text that is accepted denotes a number, and the deadline is the one for it. -/
theorem isDeadlineFor_of_readTimeout {text : String} {r : Option Duration}
    (h : readTimeout text = .ok r) :
    ∃ v, RealText.denoted? text.toList = some v ∧ IsDeadlineFor v r := by
  obtain ⟨x, hread, ⟨hzero, rfl⟩ | ⟨hzero, d, hd, rfl⟩⟩ := readTimeout_cases h
  · obtain ⟨negative, w, happrox, hw, hdenoted⟩ :=
      RealText.approximates_of_read? hread (Binary64.isFinite_of_isZero hzero)
    refine ⟨_, hdenoted, isDeadlineFor_none ?_⟩
    have habs : |(if negative then -1 else 1) * w| = w := by
      cases negative <;> simp [abs_of_nonneg hw]
    rw [habs]
    exact (isZero_iff_le_zeroBound happrox).mp hzero
  · obtain ⟨hfinite, hsign, -⟩ := Duration.of_ofSeconds? hd
    obtain ⟨negative, w, happrox, -, hdenoted⟩ := RealText.approximates_of_read? hread hfinite
    -- a number below zero is no duration
    have hpositive : negative = false := by
      rw [← Bool.not_eq_true, ← happrox.sign]
      exact mt hsign hzero
    subst hpositive
    rw [if_neg Bool.false_ne_true, one_mul] at hdenoted
    refine ⟨w, hdenoted, isDeadlineFor_some ?_ (nanos_eq_zero_iff happrox hd)⟩
    rw [← not_le, ← isZero_iff_le_zeroBound happrox]
    exact hzero

/-- Half a nanosecond is above the bound, since the number next to it is. -/
example : readTimeout "5e-10" = .ok (some ⟨1⟩) := by decide +kernel

end Site

end LuaPages
