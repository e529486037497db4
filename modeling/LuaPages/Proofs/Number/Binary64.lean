import Mathlib.Algebra.Order.Field.Power
import Mathlib.Data.Rat.Cast.Order
import Mathlib.Tactic.FieldSimp
import Mathlib.Tactic.Ring
import LuaPages.Number.Binary64

namespace LuaPages.Binary64

def pack (negative : Bool) (k : Nat) : Binary64 :=
  ⟨(if negative then 0x8000000000000000 else 0) ||| UInt64.ofNat k⟩

def absolute (x : Binary64) : ℚ := x.magnitude.1 * 2 ^ x.magnitude.2

section
variable {negative : Bool} {k : Nat}

theorem toNat_pack (h : k < 2 ^ 63) :
    (pack negative k).bits.toNat = (if negative then 2 ^ 63 else 0) + k := by
  have hk : (UInt64.ofNat k).toNat = k := by
    rw [UInt64.toNat_ofNat']
    exact Nat.mod_eq_of_lt (by omega)
  rw [pack, UInt64.toNat_or, hk]
  cases negative with
  | false => simp
  | true =>
    have hor := Nat.two_pow_add_eq_or_of_lt h 1
    simpa using hor.symm

theorem exponentBits_eq (x : Binary64) : x.exponentBits = x.bits.toNat / 2 ^ 52 % 2 ^ 11 := by
  have hmask : (0x7FF : UInt64).toNat = 2 ^ 11 - 1 := rfl
  rw [exponentBits, UInt64.toNat_and, UInt64.toNat_shiftRight, hmask, Nat.and_two_pow_sub_one_eq_mod,
    Nat.shiftRight_eq_div_pow]
  rfl

theorem fractionBits_eq (x : Binary64) : x.fractionBits = x.bits.toNat % 2 ^ 52 := by
  have hmask : (0xFFFFFFFFFFFFF : UInt64).toNat = 2 ^ 52 - 1 := rfl
  rw [fractionBits, UInt64.toNat_and, hmask, Nat.and_two_pow_sub_one_eq_mod]

theorem isNegative_pack (h : k < 2 ^ 63) : (pack negative k).isNegative = negative := by
  have hshift : ((pack negative k).bits >>> 63).toNat = (pack negative k).bits.toNat / 2 ^ 63 := by
    rw [UInt64.toNat_shiftRight, Nat.shiftRight_eq_div_pow]
    rfl
  have htop : (pack negative k).bits.toNat / 2 ^ 63 = if negative then 1 else 0 := by
    rw [toNat_pack h]
    split <;> omega
  rw [isNegative, Bool.eq_iff_iff, beq_iff_eq, ← UInt64.toNat_inj, hshift, htop]
  cases negative <;> simp

theorem isZero_iff (x : Binary64) : x.isZero = true ↔ 2 * x.bits.toNat % 2 ^ 64 = 0 := by
  have hshift : (x.bits <<< 1).toNat = 2 * x.bits.toNat % 2 ^ 64 := by
    rw [UInt64.toNat_shiftLeft, Nat.shiftLeft_eq, Nat.mul_comm]
    rfl
  rw [isZero, beq_iff_eq, ← UInt64.toNat_inj, hshift]
  rfl

theorem isZero_pack_iff (h : k < 2 ^ 63) : (pack negative k).isZero = true ↔ k = 0 := by
  rw [isZero_iff, toNat_pack h]
  split <;> omega

theorem exponentBits_pack (h : k < 2 ^ 63) : (pack negative k).exponentBits = k / 2 ^ 52 := by
  rw [exponentBits_eq, toNat_pack h]
  split <;> omega

theorem fractionBits_pack (h : k < 2 ^ 63) : (pack negative k).fractionBits = k % 2 ^ 52 := by
  rw [fractionBits_eq, toNat_pack h]
  split <;> omega

/-- Below the leading bit a significand stands for itself, in the smallest unit. -/
theorem magnitude_pack_of_lt (h : k < leadingBit) : (pack negative k).magnitude = (k, -1074) := by
  have hlead : leadingBit = 2 ^ 52 := rfl
  have hk : k < 2 ^ 63 := by omega
  have hexponent : (pack negative k).exponentBits = 0 := by
    rw [exponentBits_pack hk]
    omega
  rw [magnitude, if_pos hexponent, fractionBits_pack hk, Nat.mod_eq_of_lt (hlead ▸ h)]

/-- A significand with its leading bit and an exponent of two in the range for it. -/
structure IsNormal (m : Nat) (q : Int) : Prop where
  low : leadingBit ≤ m
  high : m < 2 * leadingBit
  least : -1074 ≤ q
  most : q ≤ 971

def normalBits (m : Nat) (q : Int) : Nat := (q + 1075).toNat * leadingBit + (m - leadingBit)

variable {m : Nat} {q : Int}

theorem IsNormal.bits_lt (h : IsNormal m q) : normalBits m q < 2 ^ 63 := by
  obtain ⟨hlow, hhigh, hleast, hmost⟩ := h
  simp only [normalBits, leadingBit] at *
  omega

theorem magnitude_pack_normalBits (h : IsNormal m q) :
    (pack negative (normalBits m q)).magnitude = (m, q) := by
  have hbits := h.bits_lt
  obtain ⟨hlow, hhigh, hleast, hmost⟩ := h
  have hexponent : (pack negative (normalBits m q)).exponentBits = (q + 1075).toNat := by
    rw [exponentBits_pack hbits]
    simp only [normalBits, leadingBit] at *
    omega
  have hfraction : (pack negative (normalBits m q)).fractionBits = m - leadingBit := by
    rw [fractionBits_pack hbits]
    simp only [normalBits, leadingBit] at *
    omega
  rw [magnitude, hexponent, hfraction, if_neg (by omega), Prod.mk.injEq]
  omega

/-- A finite number with a sign and an absolute value, which is zero only for the two zeros. -/
structure Represents (x : Binary64) (negative : Bool) (v : ℚ) : Prop where
  sign : x.isNegative = negative
  absolute : x.absolute = v
  zero : x.isZero = true ↔ v = 0

theorem represents_pack_of_lt (h : k < leadingBit) (negative : Bool) :
    Represents (pack negative k) negative (k * 2 ^ (-1074 : Int)) := by
  have hk : k < 2 ^ 63 := h.trans (by decide)
  refine ⟨isNegative_pack hk, ?_, ?_⟩
  · rw [absolute, magnitude_pack_of_lt h]
  · rw [isZero_pack_iff hk]
    simp

theorem represents_pack_normalBits (h : IsNormal m q) (negative : Bool) :
    Represents (pack negative (normalBits m q)) negative (m * 2 ^ q) := by
  refine ⟨isNegative_pack h.bits_lt, ?_, ?_⟩
  · rw [absolute, magnitude_pack_normalBits h]
  · have hm : m ≠ 0 := (Nat.lt_of_lt_of_le (by decide) h.low).ne'
    have hbits : normalBits m q ≠ 0 := by
      have hplace : 0 < (q + 1075).toNat := by
        have := h.least
        omega
      have hpos : 0 < (q + 1075).toNat * leadingBit := Nat.mul_pos hplace (by decide)
      rw [normalBits]
      omega
    have hpow : (2 : ℚ) ^ q ≠ 0 := zpow_ne_zero q two_ne_zero
    rw [isZero_pack_iff h.bits_lt]
    simp [hm, hbits, hpow]

end

theorem isFinite_infinity (negative : Bool) : (infinity negative).isFinite = false := by
  cases negative <;> decide

theorem isFinite_of_isZero {x : Binary64} (h : x.isZero = true) : x.isFinite = true := by
  rw [isZero_iff] at h
  have hbits := x.bits.toNat_lt
  rw [isFinite, exponentBits_eq, bne_iff_ne]
  omega

/-- The ratio of a finite number is its absolute value. -/
theorem ratio_spec (x : Binary64) : 0 < x.ratio.2 ∧ (x.ratio.1 / x.ratio.2 : ℚ) = x.absolute := by
  rw [ratio, absolute]
  obtain ⟨m, q⟩ := x.magnitude
  by_cases hq : 0 ≤ q
  · obtain ⟨k, rfl⟩ := Int.eq_ofNat_of_zero_le hq
    simp [Nat.shiftLeft_eq]
  · obtain ⟨k, rfl⟩ := Int.exists_eq_neg_ofNat (Int.not_le.mp hq).le
    dsimp only
    rw [if_neg hq]
    simp [Nat.shiftLeft_eq, div_eq_mul_inv]

end LuaPages.Binary64
