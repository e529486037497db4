import Mathlib.Algebra.Order.Ring.Int
import Mathlib.Tactic.Linarith
import Mathlib.Tactic.NormNum
import Mathlib.Tactic.Positivity
import LuaPages.Proofs.Number.Binary64

namespace LuaPages

section
variable {n d k : Nat}

/-- Quotient and remainder, and which way the remainder rounds. -/
theorem exists_roundDiv (n : Nat) (hd : 0 < d) :
    ∃ a r, n = d * a + r ∧ r < d ∧
      roundDiv n d = if 2 * r < d then a else if d < 2 * r then a + 1 else a + a % 2 :=
  ⟨n / d, n % d, (Nat.div_add_mod n d).symm, Nat.mod_lt n hd, rfl⟩

theorem ratio_le_half_iff (hd : 0 < d) : (n / d : ℚ) ≤ k + 1 / 2 ↔ 2 * n ≤ (2 * k + 1) * d := by
  rw [div_le_iff₀ (by exact_mod_cast hd)]
  constructor
  · intro h
    have : (2 * n : ℚ) ≤ (2 * k + 1) * d := by linarith
    exact_mod_cast this
  · intro h
    have : (2 * n : ℚ) ≤ (2 * k + 1) * d := by exact_mod_cast h
    linarith

theorem roundDiv_le_iff (hd : 0 < d) (hk : Even k) : roundDiv n d ≤ k ↔ (n / d : ℚ) ≤ k + 1 / 2 := by
  obtain ⟨a, r, rfl, hr, hround⟩ := exists_roundDiv n hd
  have hparity : k % 2 = 0 := Nat.even_iff.mp hk
  rw [ratio_le_half_iff hd, hround]
  rcases Nat.lt_trichotomy a k with hlt | rfl | hgt
  · have hmul : d * (a + 1) ≤ d * k := Nat.mul_le_mul_left d hlt
    have hle : 2 * (d * a + r) ≤ (2 * k + 1) * d := by nlinarith
    split_ifs <;> omega
  · have hle : 2 * (d * a + r) ≤ (2 * a + 1) * d ↔ 2 * r ≤ d := by
      constructor <;> intro h <;> nlinarith
    rw [hle]
    split_ifs <;> omega
  · have hmul : d * (k + 1) ≤ d * a := Nat.mul_le_mul_left d hgt
    have hlt : (2 * k + 1) * d < 2 * (d * a + r) := by nlinarith
    split_ifs <;> omega

theorem le_roundDiv (hd : 0 < d) (h : (k : ℚ) ≤ n / d) : k ≤ roundDiv n d := by
  rw [le_div_iff₀ (by exact_mod_cast hd)] at h
  have hk : k ≤ n / d := (Nat.le_div_iff_mul_le hd).mpr (by exact_mod_cast h)
  rw [roundDiv]
  split_ifs <;> omega

theorem roundDiv_le (hd : 0 < d) (h : (n / d : ℚ) ≤ k) : roundDiv n d ≤ k := by
  rw [div_le_iff₀ (by exact_mod_cast hd)] at h
  have hk : n ≤ k * d := by exact_mod_cast h
  obtain ⟨a, r, rfl, hr, hround⟩ := exists_roundDiv n hd
  rw [hround]
  rcases Nat.lt_or_ge a k with hlt | hge
  · split_ifs <;> omega
  -- nothing is left over, so nothing is rounded
  · have hmul : d * k ≤ d * a := Nat.mul_le_mul_left d hge
    obtain rfl : r = 0 := by nlinarith
    have ha : a ≤ k := Nat.le_of_mul_le_mul_left (by linarith) hd
    rw [if_pos (by omega)]
    exact ha

theorem roundDiv_eq_zero_iff (hd : 0 < d) : roundDiv n d = 0 ↔ (n / d : ℚ) ≤ 1 / 2 := by
  have h := roundDiv_le_iff (n := n) hd Even.zero
  rwa [Nat.le_zero, Nat.cast_zero, zero_add] at h

end

namespace Binary64

section
variable {n d : Nat} {q : Int}

theorem fits_iff (hd : 0 < d) (e : Int) :
    (if 0 ≤ e then d <<< e.toNat ≤ n else d ≤ n <<< (-e).toNat) ↔ (2 : ℚ) ^ e ≤ n / d := by
  have hdq : (0 : ℚ) < d := by exact_mod_cast hd
  rw [le_div_iff₀ hdq]
  split_ifs with he
  · obtain ⟨k, rfl⟩ := Int.eq_ofNat_of_zero_le he
    rw [Int.toNat_natCast, Nat.shiftLeft_eq, zpow_natCast, mul_comm]
    norm_cast
  · obtain ⟨k, rfl⟩ := Int.exists_eq_neg_ofNat (Int.not_le.mp he).le
    rw [neg_neg, Int.toNat_natCast, Nat.shiftLeft_eq, zpow_neg, zpow_natCast,
      inv_mul_le_iff₀ (by positivity), mul_comm]
    norm_cast

theorem floorLog2_spec (hn : 0 < n) (hd : 0 < d) :
    (2 : ℚ) ^ floorLog2 n d ≤ n / d ∧ (n / d : ℚ) < 2 ^ (floorLog2 n d + 1) := by
  have hdq : (0 : ℚ) < d := by exact_mod_cast hd
  have hnlow : (2 : ℚ) ^ (n.log2 : Int) ≤ n := by
    rw [zpow_natCast]
    exact_mod_cast Nat.log2_self_le hn.ne'
  have hnhigh : (n : ℚ) < 2 ^ (n.log2 + 1 : Int) := by
    exact_mod_cast Nat.lt_log2_self (n := n)
  have hdlow : (2 : ℚ) ^ (d.log2 : Int) ≤ d := by
    rw [zpow_natCast]
    exact_mod_cast Nat.log2_self_le hd.ne'
  have hdhigh : (d : ℚ) < 2 ^ (d.log2 + 1 : Int) := by
    exact_mod_cast Nat.lt_log2_self (n := d)
  -- the exponent of the ratio is the difference of the exponents, or one less
  let e : Int := (n.log2 : Int) - d.log2
  have habove : (n / d : ℚ) < 2 ^ (e + 1) := by
    rw [div_lt_iff₀ hdq]
    calc (n : ℚ) < 2 ^ (n.log2 + 1 : Int) := hnhigh
      _ = 2 ^ (e + 1) * 2 ^ (d.log2 : Int) := by
        rw [← zpow_add₀ two_ne_zero]
        congr 1
        omega
      _ ≤ 2 ^ (e + 1) * d := by gcongr
  have hbelow : (2 : ℚ) ^ (e - 1) ≤ n / d := by
    rw [le_div_iff₀ hdq]
    calc (2 : ℚ) ^ (e - 1) * d ≤ 2 ^ (e - 1) * 2 ^ (d.log2 + 1 : Int) := by gcongr
      _ = 2 ^ (n.log2 : Int) := by
        rw [← zpow_add₀ two_ne_zero]
        congr 1
        omega
      _ ≤ n := hnlow
  have hfloor : floorLog2 n d = if (2 : ℚ) ^ e ≤ n / d then e else e - 1 := by
    rw [floorLog2]
    exact if_congr (fits_iff hd e) rfl rfl
  rw [hfloor]
  split_ifs with hfits
  · exact ⟨hfits, habove⟩
  · rw [sub_add_cancel]
    exact ⟨hbelow, not_le.mp hfits⟩

/-- The exponent of two of the last place that is kept of a ratio. -/
def lastPlace (n d : Nat) : Int := max (floorLog2 n d - 52) (-1074)

def significand (n d : Nat) (q : Int) : Nat :=
  if 0 ≤ q then roundDiv n (d <<< q.toNat) else roundDiv (n <<< (-q).toNat) d

theorem exists_significand (hd : 0 < d) (n : Nat) (q : Int) :
    ∃ a b, 0 < b ∧ significand n d q = roundDiv a b ∧ (a / b : ℚ) = n / d / 2 ^ q := by
  have hdq : (d : ℚ) ≠ 0 := by exact_mod_cast hd.ne'
  rw [significand]
  split_ifs with hq
  · obtain ⟨k, rfl⟩ := Int.eq_ofNat_of_zero_le hq
    refine ⟨n, d <<< k, ?_, rfl, ?_⟩
    · rw [Nat.shiftLeft_eq]
      positivity
    · rw [Nat.shiftLeft_eq, zpow_natCast, div_div]
      norm_cast
  · obtain ⟨k, rfl⟩ := Int.exists_eq_neg_ofNat (Int.not_le.mp hq).le
    refine ⟨n <<< k, d, hd, by rw [neg_neg, Int.toNat_natCast], ?_⟩
    rw [Nat.shiftLeft_eq, zpow_neg, zpow_natCast]
    push_cast
    field_simp

theorem significand_le_iff (hd : 0 < d) {k : Nat} (hk : Even k) :
    significand n d q ≤ k ↔ (n / d : ℚ) ≤ (k + 1 / 2) * 2 ^ q := by
  obtain ⟨a, b, hb, hround, hratio⟩ := exists_significand hd n q
  rw [hround, roundDiv_le_iff hb hk, hratio, div_le_iff₀ (by positivity)]

theorem le_significand (hd : 0 < d) {k : Nat} (h : k * 2 ^ q ≤ (n / d : ℚ)) : k ≤ significand n d q := by
  obtain ⟨a, b, hb, hround, hratio⟩ := exists_significand hd n q
  rw [hround]
  apply le_roundDiv hb
  rwa [hratio, le_div_iff₀ (by positivity)]

theorem significand_le (hd : 0 < d) {k : Nat} (h : (n / d : ℚ) ≤ k * 2 ^ q) : significand n d q ≤ k := by
  obtain ⟨a, b, hb, hround, hratio⟩ := exists_significand hd n q
  rw [hround]
  apply roundDiv_le hb
  rwa [hratio, div_le_iff₀ (by positivity)]

theorem ratio_le_twice (hn : 0 < n) (hd : 0 < d) :
    (n / d : ℚ) ≤ (2 * leadingBit : Nat) * 2 ^ lastPlace n d := by
  have hplace : floorLog2 n d + 1 ≤ 53 + lastPlace n d := by
    rw [lastPlace]
    omega
  calc (n / d : ℚ) ≤ 2 ^ (floorLog2 n d + 1) := (floorLog2_spec hn hd).2.le
    _ ≤ 2 ^ (53 + lastPlace n d) := zpow_le_zpow_right₀ one_le_two hplace
    _ = (2 * leadingBit : Nat) * 2 ^ lastPlace n d := by
      rw [zpow_add₀ two_ne_zero]
      norm_num [leadingBit]

/-- A significand has no more than the bits of a full one, apart from rounding up to the next power. -/
theorem significand_lastPlace_le (hn : 0 < n) (hd : 0 < d) :
    significand n d (lastPlace n d) ≤ 2 * leadingBit := significand_le hd (ratio_le_twice hn hd)

/-- Above the least unit a significand is full. -/
theorem leadingBit_le_ratio (hn : 0 < n) (hd : 0 < d) (h : -1074 < lastPlace n d) :
    leadingBit * 2 ^ lastPlace n d ≤ (n / d : ℚ) := by
  have hplace : floorLog2 n d = 52 + lastPlace n d := by
    rw [lastPlace] at h ⊢
    omega
  calc leadingBit * 2 ^ lastPlace n d = (2 : ℚ) ^ (52 + lastPlace n d) := by
        rw [zpow_add₀ two_ne_zero]
        norm_num [leadingBit]
    _ ≤ n / d := hplace ▸ (floorLog2_spec hn hd).1

/-- The nearest number to a ratio, by its significand and the unit of its last place. -/
theorem ofRatio_eq (hn : 0 < n) (negative : Bool) (d : Nat) :
    ofRatio negative n d =
      let q := lastPlace n d
      let m := significand n d q
      if m = 2 * leadingBit then
        if 971 < q + 1 then infinity negative else pack negative (normalBits leadingBit (q + 1))
      else if 971 < q then infinity negative
      else if m < leadingBit then pack negative m
      else pack negative (normalBits m q) := by
  have hunfold : ofRatio negative n d =
      let q := lastPlace n d
      let m := significand n d q
      let r := if m = 2 * leadingBit then (leadingBit, q + 1) else (m, q)
      if 971 < r.2 then infinity negative
      else if r.1 < leadingBit then pack negative r.1
      else pack negative (normalBits r.1 r.2) := if_neg hn.ne'
  rw [hunfold]
  dsimp only
  split_ifs <;> simp_all

theorem represents_ofRatio (hn : 0 < n) (hd : 0 < d) {negative : Bool}
    (hfinite : (ofRatio negative n d).isFinite = true) :
    Represents (ofRatio negative n d) negative
      (significand n d (lastPlace n d) * 2 ^ lastPlace n d) := by
  have hmost := significand_lastPlace_le hn hd
  have hleast : -1074 ≤ lastPlace n d := le_max_right _ _
  have hfull : -1074 < lastPlace n d → leadingBit ≤ significand n d (lastPlace n d) := fun h =>
    le_significand hd (leadingBit_le_ratio hn hd h)
  rw [ofRatio_eq hn] at hfinite ⊢
  dsimp only at hfinite ⊢
  generalize significand n d (lastPlace n d) = m at *
  generalize lastPlace n d = q at *
  split_ifs at hfinite ⊢ with hcarry hover hover hsmall
  · rw [isFinite_infinity] at hfinite
    cases hfinite
  -- rounding up reached the next power of two
  · have hvalue : (m * 2 ^ q : ℚ) = leadingBit * 2 ^ (q + 1) := by
      rw [hcarry, zpow_add_one₀ two_ne_zero]
      push_cast
      ring
    rw [hvalue]
    exact represents_pack_normalBits ⟨le_rfl, by decide, by omega, by omega⟩ negative
  · rw [isFinite_infinity] at hfinite
    cases hfinite
  · obtain rfl : q = -1074 := by omega
    exact represents_pack_of_lt hsmall negative
  · exact represents_pack_normalBits ⟨by omega, by omega, by omega, by omega⟩ negative

theorem represents_ofRatio_zero (negative : Bool) (d : Nat) :
    Represents (ofRatio negative 0 d) negative 0 := by
  have h := represents_pack_of_lt (k := 0) (by decide) negative
  have hzero : ofRatio negative 0 d = pack negative 0 := by
    rw [ofRatio, if_pos rfl, pack]
    simp
  rw [hzero]
  simpa using h

/-- A bound that lies between a number with an even significand and the next one. -/
structure Between (k : Nat) (q : Int) (bound : ℚ) : Prop where
  even : Even k
  full : leadingBit ≤ k ∨ q = -1074
  high : k < 2 * leadingBit
  least : -1074 ≤ q
  above : k * 2 ^ q ≤ bound
  below : bound < (k + 1) * 2 ^ q

variable {k : Nat} {bound : ℚ}

theorem Between.nonneg (h : Between k q bound) : 0 ≤ bound :=
  le_trans (by positivity) h.above

/-- A ratio with a finer last place lies below the number, and so does what it is rounded to. -/
theorem rounded_le_of_finer (hn : 0 < n) (hd : 0 < d) (h : Between k q bound) (hlt : lastPlace n d < q) :
    (significand n d (lastPlace n d) * 2 ^ lastPlace n d : ℚ) ≤ bound ∧
      (n / d : ℚ) ≤ (k + 1 / 2) * 2 ^ q := by
  -- with a finer last place the ratio is below the power of two at which `k` begins
  have hleast : -1074 ≤ lastPlace n d := le_max_right _ _
  have hmost : (significand n d (lastPlace n d) : ℚ) ≤ 2 * leadingBit := by
    exact_mod_cast significand_lastPlace_le hn hd
  have hratio : (n / d : ℚ) ≤ 2 * leadingBit * 2 ^ lastPlace n d := by
    exact_mod_cast ratio_le_twice hn hd
  have hfull : (leadingBit : ℚ) ≤ k := by
    have := h.full.resolve_right (by omega)
    exact_mod_cast this
  have htop : (2 * leadingBit * 2 ^ lastPlace n d : ℚ) ≤ k * 2 ^ q := by
    calc (2 * leadingBit * 2 ^ lastPlace n d : ℚ) = leadingBit * 2 ^ (lastPlace n d + 1) := by
          rw [zpow_add_one₀ two_ne_zero]
          ring
      _ ≤ leadingBit * 2 ^ q := by
          gcongr
          · exact one_le_two
          · exact hlt
      _ ≤ k * 2 ^ q := by gcongr
  constructor
  · calc (significand n d (lastPlace n d) * 2 ^ lastPlace n d : ℚ)
        ≤ 2 * leadingBit * 2 ^ lastPlace n d := by gcongr
      _ ≤ bound := htop.trans h.above
  · have hhalf : (0 : ℚ) ≤ 1 / 2 * 2 ^ q := by positivity
    linarith

/-- A ratio with a coarser last place lies above the next number, and so does what it is rounded to. -/
theorem lt_rounded_of_coarser (hn : 0 < n) (hd : 0 < d) (h : Between k q bound)
    (hgt : q < lastPlace n d) :
    bound < (significand n d (lastPlace n d) * 2 ^ lastPlace n d : ℚ) ∧
      (k + 1 / 2) * 2 ^ q < (n / d : ℚ) := by
  have hratio := leadingBit_le_ratio hn hd (h.least.trans_lt hgt)
  have hsignificand : (leadingBit : ℚ) ≤ significand n d (lastPlace n d) := by
    exact_mod_cast le_significand hd hratio
  have hhigh : (k + 1 : ℚ) ≤ 2 * leadingBit := by exact_mod_cast h.high
  have htop : ((k + 1) * 2 ^ q : ℚ) ≤ leadingBit * 2 ^ lastPlace n d := by
    calc ((k + 1) * 2 ^ q : ℚ) ≤ 2 * leadingBit * 2 ^ q := by gcongr
      _ = leadingBit * 2 ^ (q + 1) := by
          rw [zpow_add_one₀ two_ne_zero]
          ring
      _ ≤ leadingBit * 2 ^ lastPlace n d := by
          gcongr
          · exact one_le_two
          · exact hgt
  constructor
  · calc bound < (k + 1) * 2 ^ q := h.below
      _ ≤ leadingBit * 2 ^ lastPlace n d := htop
      _ ≤ significand n d (lastPlace n d) * 2 ^ lastPlace n d := by gcongr
  · have hhalf : (0 : ℚ) < 1 / 2 * 2 ^ q := by positivity
    linarith

/-- At the same last place it is a matter of rounding to a natural number. -/
theorem significand_mul_le_iff (hd : 0 < d) (h : Between k q bound) :
    (significand n d q * 2 ^ q : ℚ) ≤ bound ↔ (n / d : ℚ) ≤ (k + 1 / 2) * 2 ^ q := by
  have hpow : (0 : ℚ) < 2 ^ q := by positivity
  rw [← significand_le_iff hd h.even]
  constructor
  · intro hle
    have hlt : (significand n d q : ℚ) < k + 1 := lt_of_mul_lt_mul_right (hle.trans_lt h.below) hpow.le
    exact Nat.lt_succ_iff.mp (by exact_mod_cast hlt)
  · intro hle
    have hle : (significand n d q : ℚ) ≤ k := by exact_mod_cast hle
    exact (mul_le_mul_of_nonneg_right hle hpow.le).trans h.above

theorem rounded_le_iff (hn : 0 < n) (hd : 0 < d) (h : Between k q bound) :
    (significand n d (lastPlace n d) * 2 ^ lastPlace n d : ℚ) ≤ bound ↔
      (n / d : ℚ) ≤ (k + 1 / 2) * 2 ^ q := by
  rcases lt_trichotomy (lastPlace n d) q with hlt | heq | hgt
  · obtain ⟨hrounded, hratio⟩ := rounded_le_of_finer hn hd h hlt
    exact iff_of_true hrounded hratio
  · rw [heq]
    exact significand_mul_le_iff hd h
  · obtain ⟨hrounded, hratio⟩ := lt_rounded_of_coarser hn hd h hgt
    exact iff_of_false hrounded.not_ge hratio.not_ge

/-- A finite number that is the nearest one to a number of the given sign and absolute value, as far as
bounds can tell. -/
structure Approximates (x : Binary64) (negative : Bool) (v : ℚ) : Prop where
  sign : x.isNegative = negative
  zero : x.isZero = true ↔ x.absolute = 0
  le_iff : ∀ {k q bound}, Between k q bound → (x.absolute ≤ bound ↔ v ≤ (k + 1 / 2) * 2 ^ q)

/-- Up to half of the least positive number all is rounded to zero. -/
theorem approximates_zero {v : ℚ} (hv : v ≤ 1 / 2 * 2 ^ (-1074 : Int)) (negative : Bool) (d : Nat) :
    Approximates (ofRatio negative 0 d) negative v := by
  obtain ⟨hsign, habsolute, hzero⟩ := represents_ofRatio_zero negative d
  refine ⟨hsign, ?_, ?_⟩
  · rw [hzero, habsolute]
  · intro k q bound h
    rw [habsolute]
    apply iff_of_true h.nonneg
    calc v ≤ 1 / 2 * 2 ^ (-1074 : Int) := hv
      _ ≤ 1 / 2 * 2 ^ q := by
          gcongr
          · exact one_le_two
          · exact h.least
      _ ≤ (k + 1 / 2) * 2 ^ q := by
          gcongr
          exact le_add_of_nonneg_left k.cast_nonneg

theorem approximates_ofRatio (hd : 0 < d) {negative : Bool}
    (hfinite : (ofRatio negative n d).isFinite = true) :
    Approximates (ofRatio negative n d) negative (n / d) := by
  rcases Nat.eq_zero_or_pos n with rfl | hn
  · apply approximates_zero
    rw [Nat.cast_zero, zero_div]
    positivity
  · obtain ⟨hsign, habsolute, hzero⟩ := represents_ofRatio hn hd hfinite
    refine ⟨hsign, ?_, ?_⟩
    · rw [hzero, habsolute]
    · intro k q bound h
      rw [habsolute]
      exact rounded_le_iff hn hd h

end

end Binary64

end LuaPages
