import LuaPages.Number.Shortest
import LuaPages.Proofs.Number.RealText

namespace LuaPages.Decimal

section
variable {n d : Nat}

theorem roundDiv_near (hd : 0 < d) (n : Nat) :
    (n / d : ℚ) ≤ roundDiv n d + 1 / 2 ∧ (roundDiv n d : ℚ) ≤ n / d + 1 / 2 := by
  obtain ⟨a, r, hn, hr, hround⟩ := exists_roundDiv n hd
  -- both bounds are doubled, so that they are about natural numbers
  have hlow : 2 * n ≤ (2 * roundDiv n d + 1) * d := by
    rw [hround, hn]
    split_ifs with hbelow habove
    · nlinarith
    · nlinarith
    · have : d * a ≤ d * (a + a % 2) := Nat.mul_le_mul_left d (Nat.le_add_right a _)
      nlinarith
  have hhigh : 2 * roundDiv n d * d ≤ 2 * n + d := by
    rw [hround, hn]
    split_ifs with hbelow habove
    · nlinarith
    · nlinarith
    · have : d * (a + a % 2) ≤ d * (a + 1) := Nat.mul_le_mul_left d (by omega)
      nlinarith
  refine ⟨(ratio_le_half_iff hd).mpr hlow, ?_⟩
  have hdq : (0 : ℚ) < d := by exact_mod_cast hd
  have hhighq : (2 * roundDiv n d * d : ℚ) ≤ 2 * n + d := by exact_mod_cast hhigh
  have hsum : (n / d + 1 / 2 : ℚ) = (2 * n + d) / (2 * d) := by
    field_simp
  rw [hsum, le_div_iff₀ (by positivity)]
  linarith

theorem ten_pow_le (hn : 0 < n) : 10 ^ (digitCount n - 1) ≤ n := by
  rcases Nat.eq_zero_or_pos (digitCount n - 1) with hzero | hpos
  · rw [hzero]
    exact hn
  · have hlength : digitCount n = (Nat.toDigits 10 n).length := length_toString n
    have hdigits := Nat.length_toDigits_le_iff (b := 10) (n := n) (by decide) hpos
    exact Nat.le_of_not_lt fun hlt => by
      have := hdigits.mpr hlt
      omega

theorem digitCount_pos (n : Nat) : 0 < digitCount n := by
  have hlength : digitCount n = (Nat.toDigits 10 n).length := length_toString n
  rw [hlength]
  exact List.length_pos_of_ne_nil Nat.toDigits_ne_nil

theorem scale_spec (hd : 0 < d) (n : Nat) (e : Int) :
    0 < (scale n d e).2 ∧ ((scale n d e).1 / (scale n d e).2 : ℚ) = n / d / 10 ^ e := by
  have hten (k : Nat) : 0 < tenTo k := Nat.pow_pos (by decide)
  rw [scale]
  split_ifs with he
  · obtain ⟨k, rfl⟩ := Int.eq_ofNat_of_zero_le he
    refine ⟨Nat.mul_pos hd (hten _), ?_⟩
    rw [Int.toNat_natCast, Nat.cast_mul, tenTo_cast, zpow_natCast, div_div]
  · obtain ⟨k, rfl⟩ := Int.exists_eq_neg_ofNat (Int.not_le.mp he).le
    refine ⟨hd, ?_⟩
    rw [neg_neg, Int.toNat_natCast, Nat.cast_mul, tenTo_cast, zpow_neg, zpow_natCast, div_inv_eq_mul,
      mul_div_right_comm]

/-- The decimal logarithm of a ratio, rounded down. -/
theorem floorLog10_spec (hn : 0 < n) (hd : 0 < d) :
    (10 : ℚ) ^ floorLog10 n d ≤ n / d ∧ (n / d : ℚ) < 10 ^ (floorLog10 n d + 1) := by
  have hdq : (0 : ℚ) < d := by exact_mod_cast hd
  have hlow {k : Nat} (hk : 0 < k) : (10 : ℚ) ^ (digitCount k - 1 : Int) ≤ k := by
    have hcast : (digitCount k - 1 : Int) = (digitCount k - 1 : Nat) := by
      have := digitCount_pos k
      omega
    rw [hcast, zpow_natCast]
    exact_mod_cast ten_pow_le hk
  have hhigh (k : Nat) : (k : ℚ) < 10 ^ (digitCount k : Int) := by
    rw [zpow_natCast]
    exact_mod_cast lt_ten_pow_length k
  -- the exponent of the ratio is the difference of the numbers of digits, or one less
  let e : Int := (digitCount n : Int) - digitCount d
  have habove : (n / d : ℚ) < 10 ^ (e + 1) := by
    rw [div_lt_iff₀ hdq]
    calc (n : ℚ) < 10 ^ (digitCount n : Int) := hhigh n
      _ = 10 ^ (e + 1) * 10 ^ (digitCount d - 1 : Int) := by
        rw [← zpow_add₀ (by norm_num)]
        congr 1
        omega
      _ ≤ 10 ^ (e + 1) * d := by gcongr; exact hlow hd
  have hbelow : (10 : ℚ) ^ (e - 1) ≤ n / d := by
    rw [le_div_iff₀ hdq]
    calc (10 : ℚ) ^ (e - 1) * d ≤ 10 ^ (e - 1) * 10 ^ (digitCount d : Int) := by
          gcongr
          exact (hhigh d).le
      _ = 10 ^ (digitCount n - 1 : Int) := by
        rw [← zpow_add₀ (by norm_num)]
        congr 1
        omega
      _ ≤ n := hlow hn
  obtain ⟨hpos, hscale⟩ := scale_spec hd n e
  have hfits : (scale n d e).2 ≤ (scale n d e).1 ↔ (10 : ℚ) ^ e ≤ n / d := by
    rw [← one_le_div (by positivity : (0 : ℚ) < 10 ^ e), ← hscale,
      one_le_div (by exact_mod_cast hpos), Nat.cast_le]
  have hfloor : floorLog10 n d = if (10 : ℚ) ^ e ≤ n / d then e else e - 1 := by
    rw [floorLog10]
    exact if_congr hfits rfl rfl
  rw [hfloor]
  split_ifs with h
  · exact ⟨h, habove⟩
  · rw [sub_add_cancel]
    exact ⟨hbelow, not_le.mp h⟩

/-- The digits that a ratio is rounded to before it is seen whether they carry. -/
theorem significant_eq (hn : 0 < n) (count : Nat) :
    let e := floorLog10 n d - ((count : Int) - 1)
    let c := roundDiv (scale n d e).1 (scale n d e).2
    significant count n d =
      if c = tenTo count then ⟨tenTo (count - 1), e + 1⟩ else ⟨c, e⟩ := if_neg hn.ne'

theorem scaled_bounds (hn : 0 < n) (hd : 0 < d) {count : Nat} (hcount : 0 < count) :
    let e := floorLog10 n d - ((count : Int) - 1)
    (10 ^ (count - 1) : Nat) ≤ (n / d / 10 ^ e : ℚ) ∧ (n / d / 10 ^ e : ℚ) < (10 ^ count : Nat) := by
  obtain ⟨hlow, hhigh⟩ := floorLog10_spec hn hd
  intro e
  have hpos : (0 : ℚ) < 10 ^ e := by positivity
  have hpower (k : Nat) : ((10 ^ k : Nat) : ℚ) = 10 ^ (k : Int) := by
    rw [zpow_natCast]
    exact_mod_cast rfl
  rw [le_div_iff₀ hpos, div_lt_iff₀ hpos, hpower, hpower, ← zpow_add₀ (by norm_num),
    ← zpow_add₀ (by norm_num)]
  have hfirst : ((count - 1 : Nat) : Int) + e = floorLog10 n d := by omega
  have hlast : (count : Int) + e = floorLog10 n d + 1 := by omega
  rw [hfirst, hlast]
  exact ⟨hlow, hhigh⟩

/-- A ratio is rounded to as many digits as are asked for. -/
theorem significant_bounds (hn : 0 < n) (hd : 0 < d) {count : Nat} (hcount : 0 < count) :
    10 ^ (count - 1) ≤ (significant count n d).digits ∧ (significant count n d).digits < 10 ^ count := by
  obtain ⟨hlow, hhigh⟩ := scaled_bounds hn hd hcount
  rw [significant_eq hn]
  generalize floorLog10 n d - ((count : Int) - 1) = e at hlow hhigh ⊢
  obtain ⟨hb, hscale⟩ := scale_spec hd n e
  rw [← hscale] at hlow hhigh
  have hle := le_roundDiv hb hlow
  have hge := roundDiv_le hb hhigh.le
  split_ifs with hcarry
  · exact ⟨le_rfl, Nat.pow_lt_pow_right (by decide) (by omega)⟩
  · exact ⟨hle, lt_of_le_of_ne hge hcarry⟩

theorem rounded_eq_roundDiv_scale {e : Int} (he : e ≤ 0) :
    rounded (-e).toNat n d = roundDiv (scale n d e).1 (scale n d e).2 := by
  rw [rounded, scale]
  split_ifs with hzero
  · obtain rfl : e = 0 := by omega
    simp [tenTo]
  · rfl

/-- Places after the point are as good as significant digits, when they reach as far. -/
theorem rounded_eq_digits (hn : 0 < n) (hd : 0 < d) {count : Nat} (hcount : 0 < count)
    (he : (significant count n d).exponent ≤ 0) :
    rounded (-(significant count n d).exponent).toNat n d = (significant count n d).digits := by
  obtain ⟨hlow, hhigh⟩ := scaled_bounds hn hd hcount
  rw [significant_eq hn] at he ⊢
  generalize floorLog10 n d - ((count : Int) - 1) = e at hlow hhigh he ⊢
  obtain ⟨hb, hscale⟩ := scale_spec hd n e
  split_ifs at he ⊢ with hcarry
  · -- what rounds to one more digit is less than half a unit below it, also in units of ten
    rw [rounded_eq_roundDiv_scale he]
    obtain ⟨hb', hscale'⟩ := scale_spec hd n (e + 1)
    have hten : ((10 ^ count : Nat) : ℚ) = 10 * (10 ^ (count - 1) : Nat) := by
      rw [← Nat.sub_add_cancel hcount, pow_succ', Nat.add_sub_cancel]
      push_cast
      rfl
    have hnear := (roundDiv_near hb (scale n d e).1).2
    have hratio : ((scale n d (e + 1)).1 / (scale n d (e + 1)).2 : ℚ) =
        (scale n d e).1 / (scale n d e).2 / 10 := by
      rw [hscale', hscale, zpow_add_one₀ (by norm_num), div_mul_eq_div_div]
    have hcarried : ((roundDiv (scale n d e).1 (scale n d e).2 : Nat) : ℚ) = (10 ^ count : Nat) := by
      exact_mod_cast hcarry
    rw [hcarried, hten] at hnear
    rw [← hscale, hten] at hhigh
    have hle : roundDiv (scale n d (e + 1)).1 (scale n d (e + 1)).2 ≤ 10 ^ (count - 1) := by
      apply roundDiv_le hb'
      rw [hratio]
      linarith
    have hge := (roundDiv_near hb' (scale n d (e + 1)).1).1
    rw [hratio] at hge
    have hlt : ((10 ^ (count - 1) : Nat) : ℚ) <
        (roundDiv (scale n d (e + 1)).1 (scale n d (e + 1)).2 + 1 : Nat) := by
      push_cast at hge hnear ⊢
      linarith
    exact le_antisymm hle (Nat.lt_succ_iff.mp (by exact_mod_cast hlt))
  · exact rounded_eq_roundDiv_scale he

end

theorem trim_go_spec {k c : Nat} (hpos : 0 < c) (hlt : c < 10 ^ k) (e : Int) :
    ∃ i : Nat, c = (trim.go k c e).digits * 10 ^ i ∧ (trim.go k c e).exponent = e + i ∧
      (trim.go k c e).digits % 10 ≠ 0 := by
  induction k generalizing c e with
  | zero => omega
  | succ k ih =>
    rw [trim.go]
    split_ifs with hzero
    · rw [pow_succ] at hlt
      obtain ⟨i, hdigits, hexponent, hlast⟩ := ih (c := c / 10) (by omega) (by omega) (e + 1)
      refine ⟨i + 1, ?_, ?_, hlast⟩
      · rw [pow_succ, ← Nat.mul_assoc, ← hdigits]
        omega
      · rw [hexponent]
        push_cast
        omega
    · have hlast : c % 10 ≠ 0 := by omega
      exact ⟨0, by simp, by simp, hlast⟩

/-- Taking zeros off the end keeps the number, and leaves a last digit that is not zero. -/
theorem trim_spec {x : Decimal} (hpos : 0 < x.digits) :
    ∃ i : Nat, x.digits = x.trim.digits * 10 ^ i ∧ x.trim.exponent = x.exponent + i ∧
      x.trim.digits % 10 ≠ 0 :=
  trim_go_spec hpos (lt_ten_pow_length x.digits) x.exponent

section
variable {s : Neighbourhood}

theorem Neighbourhood.contains_zero (hlow : 0 < s.low) (e : Int) : s.contains 0 e = false := by
  have hten (k : Nat) : 0 < tenTo k := Nat.pow_pos (by decide)
  rw [contains]
  split_ifs <;> simp [hlow.ne', (hten _).ne']

theorem Neighbourhood.digits_onGrid?_pos (hlow : 0 < s.low) {e : Int} {r : Decimal}
    (h : s.onGrid? e = some r) : 0 < r.digits := by
  rw [onGrid?] at h
  dsimp only at h
  split_ifs at h with hlower hupper
  · obtain rfl := Option.some.inj h
    refine Nat.pos_of_ne_zero fun hzero => ?_
    dsimp only at hzero
    rw [hzero, contains_zero hlow] at hlower
    simp at hlower
  · obtain rfl := Option.some.inj h
    exact Nat.succ_pos _

theorem digits_search_pos (hlow : 0 < s.low) (hmid : 0 < s.mid) (hunit : 0 < s.unit) (k : Nat) (e : Int) :
    0 < (shortest.search s k e).digits := by
  have hfirst (e : Int) (rest : Decimal) (hrest : 0 < rest.digits) :
      0 < ((s.onGrid? e).getD rest).digits := by
    cases hgrid : s.onGrid? e with
    | none => exact hrest
    | some r => exact Neighbourhood.digits_onGrid?_pos hlow hgrid
  -- each grid is coarser than the next one; at the end the value itself is taken with 17 digits
  induction k generalizing e with
  | zero =>
    refine hfirst e _ ?_
    exact Nat.lt_of_lt_of_le (by decide) (significant_bounds hmid hunit (by decide)).1
  | succ k ih => exact hfirst e _ (ih (e - 1))

end

theorem Neighbourhood.of_pos {x : Binary64} (h : 0 < x.magnitude.1) :
    0 < (Neighbourhood.of x).low ∧ 0 < (Neighbourhood.of x).mid ∧ 0 < (Neighbourhood.of x).unit := by
  rw [Neighbourhood.of]
  rcases hmagnitude : x.magnitude with ⟨m, q⟩
  rw [hmagnitude] at h
  dsimp only at h ⊢
  have hlow : 0 < 4 * m - (if m = Binary64.leadingBit ∧ -1074 < q then 1 else 2) := by
    split_ifs <;> omega
  generalize 4 * m - (if m = Binary64.leadingBit ∧ -1074 < q then 1 else 2) = low at hlow
  split_ifs with hq <;> simp only [Nat.shiftLeft_eq]
  all_goals exact ⟨by positivity, by positivity, by positivity⟩

/-- The digits of a number that is not zero are not all zero. -/
theorem digits_shortest_pos {x : Binary64} (h : 0 < x.magnitude.1) : 0 < (shortest x).digits :=
  have hpos := Neighbourhood.of_pos h
  digits_search_pos hpos.1 hpos.2.1 hpos.2.2 17 _

end LuaPages.Decimal
