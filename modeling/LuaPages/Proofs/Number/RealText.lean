import LuaPages.Number.RealText
import LuaPages.Proofs.Number.Rounding

namespace LuaPages

theorem tenTo_cast (k : Nat) : (tenTo k : ℚ) = 10 ^ k := by
  rw [tenTo, Nat.pow_eq]
  push_cast
  rfl

theorem length_toString (c : Nat) : (toString c).length = (Nat.toDigits 10 c).length := String.length_ofList

theorem lt_ten_pow_length (c : Nat) : c < 10 ^ (toString c).length := by
  have hpos : 0 < (Nat.toDigits 10 c).length := List.length_pos_of_ne_nil Nat.toDigits_ne_nil
  rw [length_toString]
  exact (Nat.length_toDigits_le_iff (by decide) hpos).mp le_rfl

namespace Binary64

variable {negative : Bool} {c : Nat} {e : Int}

/-- The cut-off for small numbers is below half of the least positive number. -/
theorem cutoff_le : (10 : ℚ) ^ (-400 : Int) ≤ 1 / 2 * 2 ^ (-1074 : Int) := by
  have hpowers : (2 : ℚ) * 2 ^ 1074 ≤ 10 ^ 400 := by
    calc (2 : ℚ) * 2 ^ 1074 = 2 ^ 1075 := (pow_succ' 2 1074).symm
      _ ≤ 2 ^ (3 * 400) := pow_le_pow_right₀ one_le_two (by decide)
      _ = 8 ^ 400 := by rw [pow_mul]; norm_num only
      _ ≤ 10 ^ 400 := by gcongr; norm_num only
  have hinv := inv_anti₀ (by positivity) hpowers
  rw [mul_inv] at hinv
  rwa [one_div, zpow_neg, zpow_neg, zpow_ofNat, zpow_ofNat]

/-- The cut-offs for very large and very small numbers change nothing. -/
theorem approximates_ofDecimal (hfinite : (ofDecimal negative c e).isFinite = true) :
    Approximates (ofDecimal negative c e) negative (c * 10 ^ e) := by
  rw [ofDecimal] at hfinite ⊢
  split_ifs at hfinite ⊢ with hc hlarge hsmall he
  · subst hc
    exact approximates_zero (by simp) negative 1
  · rw [isFinite_infinity] at hfinite
    cases hfinite
  · apply approximates_zero
    have hdigits : (c : ℚ) ≤ 10 ^ (toString c).length := by exact_mod_cast (lt_ten_pow_length c).le
    calc (c * 10 ^ e : ℚ) ≤ 10 ^ (toString c).length * 10 ^ e := by gcongr
      _ = 10 ^ ((toString c).length + e) := by rw [zpow_add₀ (by norm_num), zpow_natCast]
      _ ≤ 10 ^ (-400 : Int) := zpow_le_zpow_right₀ (by norm_num) hsmall.le
      _ ≤ 1 / 2 * 2 ^ (-1074 : Int) := cutoff_le
  · obtain ⟨k, rfl⟩ := Int.eq_ofNat_of_zero_le he
    have h := approximates_ofRatio one_pos hfinite
    simpa [tenTo_cast] using h
  · obtain ⟨k, rfl⟩ := Int.exists_eq_neg_ofNat (Int.not_le.mp he).le
    have hpos : 0 < tenTo (-(-(k : Int))).toNat := Nat.pow_pos (by decide)
    have h := approximates_ofRatio hpos hfinite
    simpa [tenTo_cast, div_eq_mul_inv] using h

end Binary64

namespace RealText

/-- The number that a text denotes. The words for infinite numbers and for what is no number denote
none. -/
def denoted? (l : List Char) : Option ℚ :=
  let (negative, r) := readSign l
  (readNumeral? r).map fun n => (if negative then -1 else 1) * (n.digits * 10 ^ n.exponent)

theorem approximates_of_read? {l : List Char} {x : Binary64} (h : read? l = some x)
    (hfinite : x.isFinite = true) :
    ∃ negative v, x.Approximates negative v ∧ 0 ≤ v ∧
      denoted? l = some ((if negative then -1 else 1) * v) := by
  rcases hsign : readSign l with ⟨negative, r⟩
  rw [read?, hsign] at h
  rw [denoted?, hsign]
  dsimp only at h ⊢
  split_ifs at h
  · cases h
    rw [Binary64.isFinite_infinity] at hfinite
    cases hfinite
  · cases h
    cases hfinite
  · obtain ⟨n, hn, rfl⟩ := Option.map_eq_some_iff.mp h
    rw [hn]
    exact ⟨negative, _, Binary64.approximates_ofDecimal hfinite, by positivity, rfl⟩

end RealText

end LuaPages
