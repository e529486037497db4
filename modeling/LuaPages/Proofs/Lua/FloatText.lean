import LuaPages.Lua.Numeral
import LuaPages.Proofs.Number.Significant
/-!
Two texts of a float: the fewest digits that read back, never with an exponent, and at most fourteen
digits, with an exponent or a fraction always. They are the same for the floats that fourteen digits are
enough for, if these have a fraction and are not too small.
-/
namespace LuaPages.Decimal

open Number (point trimFraction)

def lastDigits : Nat → Nat → List Char
  | 0, _ => []
  | k + 1, c => lastDigits k (c / 10) ++ [(c % 10).digitChar]

def pointed (k c : Nat) : List Char := Nat.toDigits 10 (c / 10 ^ k) ++ '.' :: lastDigits k c

theorem toList_toString (c : Nat) : (toString c).toList = Nat.toDigits 10 c := by simp

theorem length_lastDigits (k c : Nat) : (lastDigits k c).length = k := by
  induction k generalizing c with
  | zero => rfl
  | succ k ih => rw [lastDigits, List.length_append, ih, List.length_singleton]

theorem toDigits_div_append (c : Nat) (h : 10 ≤ c) :
    Nat.toDigits 10 c = Nat.toDigits 10 (c / 10) ++ [(c % 10).digitChar] :=
  Nat.toDigits_of_base_le (by decide) h

/-- Digits filled up by zeros to more than `k`, before and after the point. -/
theorem replicate_append_toDigits (k c : Nat) :
    List.replicate (k + 1 - (Nat.toDigits 10 c).length) '0' ++ Nat.toDigits 10 c =
      Nat.toDigits 10 (c / 10 ^ k) ++ lastDigits k c := by
  have hlength (c : Nat) : 0 < (Nat.toDigits 10 c).length := List.length_pos_of_ne_nil Nat.toDigits_ne_nil
  -- the last digit is split off on both sides
  induction k generalizing c with
  | zero =>
    have hfill : 0 + 1 - (Nat.toDigits 10 c).length = 0 := by
      have := hlength c
      omega
    rw [hfill, pow_zero, Nat.div_one, lastDigits, List.append_nil]
    rfl
  | succ k ih =>
    have hrest := ih (c / 10)
    rw [Nat.div_div_eq_div_mul, ← pow_succ'] at hrest
    rw [lastDigits, ← List.append_assoc, ← hrest]
    rcases Nat.lt_or_ge c 10 with hlt | hge
    · rw [Nat.div_eq_of_lt hlt, Nat.mod_eq_of_lt hlt, Nat.toDigits_of_lt_base hlt]
      change List.replicate (k + 1) '0' ++ _ = List.replicate k '0' ++ ['0'] ++ _
      rw [List.replicate_succ']
    · rw [toDigits_div_append c hge, List.length_append, List.length_singleton, Nat.add_sub_add_right,
        List.append_assoc]

theorem toList_point (k c : Nat) :
    (point k false c).toList = if k = 0 then Nat.toDigits 10 c else pointed k c := by
  have hpadded : (Number.padLeft (k + 1) (toString c)).toList =
      Nat.toDigits 10 (c / 10 ^ k) ++ lastDigits k c := by
    rw [Number.padLeft, Number.zeros, String.toList_append, String.toList_ofList, toList_toString,
      length_toString, replicate_append_toDigits]
  have hlength : (Number.padLeft (k + 1) (toString c)).length - k = (Nat.toDigits 10 (c / 10 ^ k)).length := by
    rw [← String.length_toList, hpadded, List.length_append, length_lastDigits, Nat.add_sub_cancel]
  simp only [point, String.toList_append, String.toList_ofList, hpadded, hlength, List.take_left,
    List.drop_left]
  by_cases hk : k = 0
  · subst hk
    simp [lastDigits]
  · simp [hk, pointed]

theorem toList_positional_of_neg {x : Decimal} (h : x.exponent < 0) :
    x.positional.toList = pointed (-x.exponent).toNat x.digits := by
  have hpadded := replicate_append_toDigits (-x.exponent).toNat x.digits
  rw [positional]
  dsimp only
  rw [if_neg (by omega), length_toString]
  have hpositive : 0 < (-x.exponent).toNat := by omega
  generalize (-x.exponent).toNat = k at hpadded hpositive ⊢
  split_ifs with hlt
  · have hfill : k + 1 - (Nat.toDigits 10 x.digits).length = 0 := by omega
    rw [hfill, List.replicate_zero, List.nil_append] at hpadded
    have hlength : (Nat.toDigits 10 x.digits).length - k = (Nat.toDigits 10 (x.digits / 10 ^ k)).length := by
      rw [hpadded, List.length_append, length_lastDigits, Nat.add_sub_cancel]
    simp only [String.toList_append, String.toList_ofList, toList_toString, hlength]
    rw [hpadded, List.take_left, List.drop_left, List.append_assoc]
    rfl
  · -- all digits are behind the point
    have hsmall : x.digits / 10 ^ k = 0 :=
      Nat.div_eq_of_lt ((Nat.length_toDigits_le_iff (by decide) hpositive).mp (by omega))
    have hfill : k + 1 - (Nat.toDigits 10 x.digits).length = k - (Nat.toDigits 10 x.digits).length + 1 := by
      omega
    rw [hfill, hsmall, List.replicate_succ, List.cons_append] at hpadded
    obtain ⟨-, htail⟩ := List.cons.inj hpadded
    simp only [String.toList_append, String.toList_ofList, toList_toString, List.append_assoc]
    rw [htail, pointed, hsmall]
    rfl

theorem toList_positional_of_nonneg {x : Decimal} (h : 0 ≤ x.exponent) :
    x.positional.toList = Nat.toDigits 10 x.digits ++ List.replicate x.exponent.toNat '0' := by
  rw [positional]
  dsimp only
  rw [if_pos h, String.toList_append, toList_toString, String.toList_ofList]

theorem lastDigits_mul (j c i : Nat) :
    lastDigits (j + i) (c * 10 ^ i) = lastDigits j c ++ List.replicate i '0' := by
  induction i with
  | zero => simp
  | succ i ih =>
    have hdiv : c * 10 ^ (i + 1) / 10 = c * 10 ^ i := by
      rw [pow_succ, ← Nat.mul_assoc, Nat.mul_div_cancel _ (by decide)]
    have hmod : c * 10 ^ (i + 1) % 10 = 0 := by
      rw [pow_succ, ← Nat.mul_assoc, Nat.mul_mod_left]
    rw [← Nat.add_assoc, lastDigits, hdiv, hmod, ih, List.append_assoc, List.replicate_succ']
    rfl

theorem pointed_mul (j c i : Nat) :
    pointed (j + i) (c * 10 ^ i) = pointed j c ++ List.replicate i '0' := by
  rw [pointed, lastDigits_mul, Nat.pow_add, Nat.mul_div_mul_right _ _ (Nat.pow_pos (by decide)), pointed,
    List.append_assoc]
  rfl

theorem digitChar_spec : ∀ c < 10, c.digitChar.isDigit ∧ c.digitChar ≠ '.' ∧ (c.digitChar = '0' ↔ c = 0) := by
  decide

/-- A text with a point, without the zeros at its end, and without the point if it comes to be the last. -/
def withoutZeros (l : List Char) : List Char :=
  match l.reverse.dropWhile (· == '0') with
  | '.' :: r => r.reverse
  | r => r.reverse

theorem withoutZeros_append_replicate (l : List Char) (i : Nat) :
    withoutZeros (l ++ List.replicate i '0') = withoutZeros l := by
  have hdrop : (List.replicate i '0' ++ l.reverse).dropWhile (· == '0') =
      l.reverse.dropWhile (· == '0') := by
    induction i with
    | zero => rfl
    | succ i ih => rw [List.replicate_succ, List.cons_append, List.dropWhile_cons_of_pos rfl, ih]
  rw [withoutZeros, List.reverse_append, List.reverse_replicate, hdrop]
  rfl

theorem withoutZeros_pointed_zero (c : Nat) : withoutZeros (pointed 0 c) = Nat.toDigits 10 c := by
  have hreverse : (pointed 0 c).reverse = '.' :: (Nat.toDigits 10 c).reverse := by
    simp [pointed, lastDigits]
  rw [withoutZeros, hreverse, List.dropWhile_cons_of_neg (by decide)]
  exact List.reverse_reverse _

/-- The digit that a number with a fraction ends in. -/
theorem reverse_pointed {k : Nat} (hk : 0 < k) (c : Nat) :
    ∃ rest, (pointed k c).reverse = (c % 10).digitChar :: rest := by
  obtain ⟨k, rfl⟩ := Nat.exists_eq_succ_of_ne_zero hk.ne'
  rw [pointed, lastDigits]
  simp

theorem withoutZeros_pointed {k c : Nat} (hk : 0 < k) (hlast : c % 10 ≠ 0) :
    withoutZeros (pointed k c) = pointed k c := by
  obtain ⟨rest, hreverse⟩ := reverse_pointed hk c
  obtain ⟨-, hpoint, hzero⟩ := digitChar_spec (c % 10) (Nat.mod_lt _ (by decide))
  have hnonzero : ((c % 10).digitChar == '0') = false := beq_false_of_ne (mt hzero.mp hlast)
  rw [withoutZeros, hreverse, List.dropWhile_cons_of_neg (by simp [hnonzero])]
  split
  · rename_i heq
    exact absurd (List.cons.inj heq).1 hpoint
  · rw [← hreverse, List.reverse_reverse]

theorem not_mem_toDigits {c : Nat} {a : Char} (ha : a.isDigit = false) : a ∉ Nat.toDigits 10 c := by
  intro hmem
  rw [Nat.isDigit_of_mem_toDigits (by decide) (by decide) hmem] at ha
  cases ha

/-- Digits with a point, without the zeros that the fraction ends in. -/
theorem toList_trimFraction_point {k c : Nat} (hc : 0 < c) :
    let t := trim ⟨c, -k⟩
    (trimFraction (point k false c)).toList =
      if t.exponent < 0 then pointed (-t.exponent).toNat t.digits
      else Nat.toDigits 10 (t.digits * 10 ^ t.exponent.toNat) := by
  intro t
  obtain ⟨i, hdigits, hexponent, hlast⟩ := trim_spec (x := ⟨c, -k⟩) hc
  change c = t.digits * 10 ^ i at hdigits
  change t.exponent = -k + i at hexponent
  change t.digits % 10 ≠ 0 at hlast
  by_cases hk : k = 0
  · subst hk
    have hwhole : (point 0 false c).toList = Nat.toDigits 10 c := toList_point 0 c
    have hpoint : '.' ∉ Nat.toDigits 10 c := not_mem_toDigits (by decide)
    have hplaces : t.exponent = i := by simpa using hexponent
    rw [trimFraction, hwhole, if_neg (mt List.contains_iff_mem.mp hpoint), hwhole, if_neg (by omega),
      hplaces, Int.toNat_natCast, ← hdigits]
  have hpoint : (point k false c).toList = pointed k c := (toList_point k c).trans (if_neg hk)
  have htrim : (trimFraction (point k false c)).toList = withoutZeros (pointed k c) := by
    have hmem : '.' ∈ pointed k c := List.mem_append_right _ List.mem_cons_self
    rw [trimFraction, hpoint, if_pos (List.contains_iff_mem.mpr hmem), String.toList_ofList]
    rfl
  rw [htrim, hdigits]
  -- `i` zeros are taken off; if they are all of the fraction, the point goes with them
  rcases Nat.lt_or_ge i k with hlt | hge
  · have hplaces : k = (-t.exponent).toNat + i := by omega
    rw [if_pos (by omega)]
    conv_lhs => rw [hplaces]
    rw [pointed_mul, withoutZeros_append_replicate, withoutZeros_pointed (by omega) hlast]
  · -- the fraction is made of zeros
    have hplaces : i = t.exponent.toNat + k := by omega
    have hshift : pointed k (t.digits * 10 ^ t.exponent.toNat * 10 ^ k) = _ :=
      (congrArg (pointed · _) (Nat.zero_add k).symm).trans (pointed_mul 0 _ k)
    rw [if_neg (by omega)]
    conv_lhs => rw [hplaces]
    rw [pow_add, ← Nat.mul_assoc, hshift, withoutZeros_append_replicate, withoutZeros_pointed_zero]

theorem not_mem_lastDigits {k c : Nat} {a : Char} (ha : a.isDigit = false) : a ∉ lastDigits k c := by
  induction k generalizing c with
  | zero => exact List.not_mem_nil
  | succ k ih =>
    rw [lastDigits, List.mem_append, List.mem_singleton]
    rintro (hmem | rfl)
    · exact ih hmem
    · rw [(digitChar_spec (c % 10) (Nat.mod_lt _ (by decide))).1] at ha
      cases ha

theorem ofDigitChars_digits (k c : Nat) :
    Nat.ofDigitChars 10 (Nat.toDigits 10 (c / 10 ^ k) ++ lastDigits k c) 0 = c := by
  have hzeros (n : Nat) : Nat.ofDigitChars 10 (List.replicate n '0') 0 = 0 := by
    induction n with
    | zero => rfl
    | succ n ih => rwa [List.replicate_succ, Nat.ofDigitChars_cons]
  rw [← replicate_append_toDigits, Nat.ofDigitChars_append, hzeros,
    Nat.ofDigitChars_toDigits (by decide) (by decide)]

/-- Digits and the place of the point can be read off a text. -/
theorem pointed_inj {k k' c c' : Nat} (h : pointed k c = pointed k' c') : k = k' ∧ c = c' := by
  have hpoint {k c : Nat} : '.' ∉ lastDigits k c := not_mem_lastDigits (by decide)
  obtain ⟨hwhole, -, hfraction⟩ :=
    (List.append_cons_inj_of_notMem (not_mem_toDigits (by decide)) hpoint).mp h
  refine ⟨?_, ?_⟩
  · rw [← length_lastDigits k c, hfraction, length_lastDigits]
  · rw [← ofDigitChars_digits k c, hwhole, hfraction, ofDigitChars_digits]

end LuaPages.Decimal

namespace LuaPages.Number

open Decimal (pointed significant shortest)

def fourteen : Directive := { Directive.plain with precision := some 14 }

def lead (x : Binary64) : String := if x.isNegative then "-" else ""

variable {x : Binary64}

theorem pad_fourteen (body : String) : fourteen.pad false (lead x) body = lead x ++ body := by
  have hfill : fourteen.width - ((lead x).length + body.length) = 0 := Nat.zero_sub _
  rw [Directive.pad, hfill]
  exact String.empty_append ▸ rfl

theorem formatReal_fourteen : formatReal fourteen 'g' x = lead x ++
    if x.isNaN then "nan" else if x.isInfinite then "inf" else generalBody fourteen 14 x := by
  have hlower : 'g'.toLower = 'g' := by decide
  have hupper : 'g'.isUpper = false := by decide
  have hsign : sign fourteen x.isNegative = lead x := rfl
  unfold formatReal
  simp only [hlower, hupper, hsign, Bool.false_eq_true, if_false]
  split
  · exact pad_fourteen "nan"
  · split
    · exact pad_fourteen "inf"
    · exact pad_fourteen _

def rounding (x : Binary64) : Decimal := significant 14 x.ratio.1 x.ratio.2

theorem generalBody_fourteen (hr : (rounding x).digits ≠ 0) :
    generalBody fourteen 14 x =
      if (rounding x).exponent + 13 < -4 ∨ 14 ≤ (rounding x).exponent + 13 then
        trimFraction (point 13 false (rounding x).digits) ++ "e" ++ exponentText ((rounding x).exponent + 13)
      else trimFraction (fixedBody fourteen (-(rounding x).exponent).toNat x) := by
  unfold generalBody rounding at *
  generalize x.ratio = ratio at *
  obtain ⟨n, m⟩ := ratio
  dsimp only at hr ⊢
  have hp : max 14 1 = 14 := rfl
  rw [hp, if_neg hr]
  generalize significant 14 n m = r
  have hexponent : r.exponent + 14 - 1 = r.exponent + 13 := by omega
  have hplaces : (14 - 1 - (r.exponent + 13)).toNat = (-r.exponent).toNat := by
    congr 1
    omega
  have halternate : fourteen.alternate = false := rfl
  simp only [Nat.cast_ofNat, Nat.reduceSub, hexponent, hplaces, halternate, Bool.false_eq_true, if_false]

/-- How a number of fourteen digits is written when no exponent is needed: a fraction loses its last
zeros, and a number that is whole gets one. -/
def written (r : Decimal) : List Char :=
  if r.trim.exponent < 0 then pointed (-r.trim.exponent).toNat r.trim.digits
  else Nat.toDigits 10 (r.trim.digits * 10 ^ r.trim.exponent.toNat) ++ ['.', '0']

theorem eq_of_mem_lead {c : Char} (h : c ∈ (lead x).toList) : c = '-' := by
  rw [lead] at h
  split at h
  · exact List.mem_singleton.mp h
  · cases h

theorem digits_rounding_pos (hpos : 0 < x.ratio.1) : 0 < (rounding x).digits :=
  Nat.lt_of_lt_of_le (by decide)
    (Decimal.significant_bounds hpos (Binary64.ratio_spec x).1 (by decide : 0 < 14)).1

theorem toText_float (hnan : x.isNaN = false) (hinf : x.isInfinite = false) :
    (Lua.Number.float x).toText =
      let s := lead x ++ generalBody fourteen 14 x
      if s.toList.all (fun c => c.isDigit || c = '-') then s ++ ".0" else s := by
  have hformat := formatReal_fourteen (x := x)
  rw [hnan, hinf] at hformat
  exact congrArg (fun s : String =>
    if s.toList.all (fun c => c.isDigit || c = '-') then s ++ ".0" else s) hformat

/-- What is no finite number has a word for its text. -/
theorem toText_word (word : String) (c : Char) (hword : formatReal fourteen 'g' x = lead x ++ word)
    (hmem : c ∈ word.toList) (hc : (c.isDigit || c = '-') = false) :
    (Lua.Number.float x).toText = lead x ++ word := by
  have hall : ¬ (lead x ++ word).toList.all (fun c => c.isDigit || c = '-') = true := by
    rw [List.all_eq_true]
    intro hall
    have := hall c (by rw [String.toList_append]; exact List.mem_append_right _ hmem)
    rw [hc] at this
    cases this
  rw [← hword] at hall ⊢
  exact if_neg hall

/-- Without an exponent, the places after the point are those of the fourteen digits. -/
theorem toList_fixedBody (hpos : 0 < x.ratio.1) (h : (rounding x).exponent ≤ 0) :
    (trimFraction (fixedBody fourteen (-(rounding x).exponent).toNat x)).toList =
      if (rounding x).trim.exponent < 0 then
        pointed (-(rounding x).trim.exponent).toNat (rounding x).trim.digits
      else Nat.toDigits 10 ((rounding x).trim.digits * 10 ^ (rounding x).trim.exponent.toNat) := by
  have hbody : fixedBody fourteen (-(rounding x).exponent).toNat x =
      point (-(rounding x).exponent).toNat false (rounding x).digits := by
    have hrounded := Decimal.rounded_eq_digits hpos (Binary64.ratio_spec x).1 (by decide : 0 < 14) h
    exact congrArg (point _ false) hrounded
  have htrim := Decimal.toList_trimFraction_point (k := (-(rounding x).exponent).toNat)
    (digits_rounding_pos hpos)
  have hsame : (⟨(rounding x).digits, -((-(rounding x).exponent).toNat : Int)⟩ : Decimal) = rounding x := by
    rw [Int.toNat_of_nonneg (by omega), neg_neg]
  rw [hsame] at htrim
  rw [hbody]
  exact htrim

theorem toText_of_places (hnan : x.isNaN = false) (hinf : x.isInfinite = false) (hpos : 0 < x.ratio.1)
    (hlow : -17 ≤ (rounding x).exponent) (hhigh : (rounding x).exponent ≤ 0) :
    (Lua.Number.float x).toText.toList = (lead x).toList ++ written (rounding x) := by
  have hdigits := digits_rounding_pos hpos
  have hbody := toList_fixedBody hpos hhigh
  have hbounds : ¬ ((rounding x).exponent + 13 < -4 ∨ 14 ≤ (rounding x).exponent + 13) := by omega
  rw [toText_float hnan hinf, generalBody_fourteen hdigits.ne', if_neg hbounds, written]
  generalize trimFraction (fixedBody fourteen (-(rounding x).exponent).toNat x) = body at hbody
  split_ifs at hbody ⊢ with hfraction
  · have hpoint : ¬ (lead x ++ body).toList.all (fun c => c.isDigit || c = '-') = true := by
      rw [List.all_eq_true]
      intro hall
      have hmem : '.' ∈ (lead x ++ body).toList := by
        rw [String.toList_append, hbody, pointed]
        simp
      exact absurd (hall '.' hmem) (by decide)
    rw [if_neg hpoint, String.toList_append, hbody]
  · have hwhole : (lead x ++ body).toList.all (fun c => c.isDigit || c = '-') = true := by
      rw [List.all_eq_true, String.toList_append, hbody]
      intro c hc
      rcases List.mem_append.mp hc with hc | hc
      · simp [eq_of_mem_lead hc]
      · simp [Nat.isDigit_of_mem_toDigits (by decide) (by decide) hc]
    rw [if_pos hwhole, String.toList_append, String.toList_append, hbody, List.append_assoc]
    rfl

theorem mem_toText_of_exponent (hnan : x.isNaN = false) (hinf : x.isInfinite = false)
    (hpos : 0 < x.ratio.1) (h : ¬ (-17 ≤ (rounding x).exponent ∧ (rounding x).exponent ≤ 0)) :
    'e' ∈ (Lua.Number.float x).toText.toList := by
  have hdigits := digits_rounding_pos hpos
  have hmem : 'e' ∈ (lead x ++ generalBody fourteen 14 x).toList := by
    rw [generalBody_fourteen hdigits.ne', if_pos (by omega)]
    simp
  rw [toText_float hnan hinf]
  dsimp only
  split
  · rw [String.toList_append]
    exact List.mem_append_left _ hmem
  · exact hmem

theorem magnitude_pos (h : x.isZero = false) : 0 < x.magnitude.1 := by
  have hbits := x.bits.toNat_lt
  have hzero := mt (Binary64.isZero_iff x).mpr (by simp [h])
  rw [Binary64.magnitude, Binary64.exponentBits_eq, Binary64.fractionBits_eq]
  split
  · dsimp only
    omega
  · exact Nat.lt_of_lt_of_le (by decide) (Nat.le_add_left Binary64.leadingBit _)

theorem ratio_pos (h : x.isZero = false) : 0 < x.ratio.1 := by
  have hpos := magnitude_pos h
  rw [Binary64.ratio]
  generalize x.magnitude = magnitude at hpos
  obtain ⟨m, q⟩ := magnitude
  dsimp only at hpos ⊢
  split
  · rw [Nat.shiftLeft_eq]
    positivity
  · exact hpos

theorem toList_plain (hnan : x.isNaN = false) (hinf : x.isInfinite = false) (hzero : x.isZero = false) :
    x.plain.toList = (lead x).toList ++ (shortest x).trim.positional.toList := by
  rw [← String.toList_append, Binary64.plain, hnan, hinf, hzero]
  rfl

/-- A text without an exponent. -/
theorem mem_positional {d : Decimal} {c : Char} (h : c ∈ d.positional.toList) :
    c.isDigit ∨ c = '.' ∧ d.exponent < 0 := by
  rcases Int.lt_or_le d.exponent 0 with hneg | hnonneg
  · rw [Decimal.toList_positional_of_neg hneg, pointed, List.mem_append, List.mem_cons] at h
    rcases h with h | rfl | h
    · exact .inl (Nat.isDigit_of_mem_toDigits (by decide) (by decide) h)
    · exact .inr ⟨rfl, hneg⟩
    · exact .inl (Bool.of_not_eq_false fun hdigit => Decimal.not_mem_lastDigits hdigit h)
  · rw [Decimal.toList_positional_of_nonneg hnonneg, List.mem_append] at h
    rcases h with h | h
    · exact .inl (Nat.isDigit_of_mem_toDigits (by decide) (by decide) h)
    · rw [(List.mem_replicate.mp h).2]
      exact .inl (by decide)

/-- A float that fourteen digits are enough for, as rounding to them gives the fewest digits that read
back. These have a fraction, and they make at least a ten-thousandth. -/
structure IsBrief (x : Binary64) : Prop where
  isFinite : x.isFinite = true
  isZero : x.isZero = false
  trim_eq : (significant 14 x.ratio.1 x.ratio.2).trim = (shortest x).trim
  fraction : (shortest x).trim.exponent < 0
  bound : 10 ^ (-(shortest x).trim.exponent).toNat ≤ (shortest x).trim.digits * 10 ^ 4

theorem positional_eq_written_iff {d r : Decimal} (hlast : d.digits % 10 ≠ 0) :
    d.positional.toList = written r ↔ d.exponent < 0 ∧ r.trim = d := by
  constructor
  · intro h
    have hneg : d.exponent < 0 := by
      have hpoint : '.' ∈ d.positional.toList := by
        rw [h, written, pointed]
        split <;> simp
      exact ((mem_positional hpoint).resolve_left (by decide)).2
    rw [Decimal.toList_positional_of_neg hneg, written] at h
    split_ifs at h with hfraction
    · obtain ⟨hplaces, hdigits⟩ := Decimal.pointed_inj h
      have hexponent : r.trim.exponent = d.exponent := by omega
      refine ⟨hneg, ?_⟩
      rcases htrim : r.trim with ⟨c, e⟩
      rw [htrim] at hdigits hexponent
      exact congrArg₂ Decimal.mk hdigits.symm hexponent
    · -- the digits of `d` do not end in a zero
      obtain ⟨rest, hreverse⟩ := Decimal.reverse_pointed (k := (-d.exponent).toNat) (by omega) d.digits
      rw [h, List.reverse_append] at hreverse
      have hzero := ((Decimal.digitChar_spec _ (Nat.mod_lt _ (by decide))).2.2).mp (List.cons.inj hreverse).1.symm
      exact absurd hzero hlast
  · rintro ⟨hneg, rfl⟩
    rw [Decimal.toList_positional_of_neg hneg, written, if_pos hneg]

/-- The places of the fourteen digits, by the bounds of the number. -/
theorem exponent_bounds (hpos : 0 < x.ratio.1) (hneg : (rounding x).trim.exponent < 0) :
    (rounding x).exponent ≤ 0 ∧ (-17 ≤ (rounding x).exponent ↔
      10 ^ (-(rounding x).trim.exponent).toNat ≤ (rounding x).trim.digits * 10 ^ 4) := by
  obtain ⟨hlow, hhigh⟩ := Decimal.significant_bounds hpos (Binary64.ratio_spec x).1 (by decide : 0 < 14)
  obtain ⟨i, hdigits, hexponent, -⟩ := Decimal.trim_spec (digits_rounding_pos hpos)
  change _ ≤ (rounding x).digits at hlow
  change (rounding x).digits < _ at hhigh
  refine ⟨by omega, ?_⟩
  have hplaces : (-(rounding x).exponent).toNat = (-(rounding x).trim.exponent).toNat + i := by omega
  have hscaled : 10 ^ (-(rounding x).trim.exponent).toNat ≤ (rounding x).trim.digits * 10 ^ 4 ↔
      10 ^ (-(rounding x).exponent).toNat ≤ (rounding x).digits * 10 ^ 4 := by
    rw [hplaces, hdigits, pow_add, Nat.mul_right_comm]
    exact (Nat.mul_le_mul_right_iff (Nat.pow_pos (by decide))).symm
  rw [hscaled]
  constructor
  · intro h
    calc 10 ^ (-(rounding x).exponent).toNat ≤ 10 ^ (13 + 4) := Nat.pow_le_pow_right (by decide) (by omega)
      _ = 10 ^ 13 * 10 ^ 4 := pow_add 10 13 4
      _ ≤ (rounding x).digits * 10 ^ 4 := Nat.mul_le_mul_right _ hlow
  · intro h
    have hlt : 10 ^ (-(rounding x).exponent).toNat < 10 ^ (14 + 4) := by
      rw [pow_add]
      exact h.trans_lt (Nat.mul_lt_mul_of_pos_right hhigh (by decide))
    have := (Nat.pow_lt_pow_iff_right (by decide)).mp hlt
    omega

theorem plain_eq_toText_iff_of_finite (hfinite : x.isFinite = true) (hzero : x.isZero = false) :
    x.plain = (Lua.Number.float x).toText ↔ IsBrief x := by
  have hexponent : x.exponentBits ≠ 0x7FF := by simpa [Binary64.isFinite] using hfinite
  have hnan : x.isNaN = false := by simp [Binary64.isNaN, hexponent]
  have hinf : x.isInfinite = false := by simp [Binary64.isInfinite, hexponent]
  have hpos := ratio_pos hzero
  obtain ⟨-, -, -, hlast⟩ := Decimal.trim_spec (Decimal.digits_shortest_pos (magnitude_pos hzero))
  have hplain := toList_plain hnan hinf hzero
  rw [← String.toList_inj]
  -- out of these bounds `toText` has an exponent, and so a letter that `plain` never has
  by_cases hplaces : -17 ≤ (rounding x).exponent ∧ (rounding x).exponent ≤ 0
  · rw [hplain, toText_of_places hnan hinf hpos hplaces.1 hplaces.2, List.append_cancel_left_eq,
      positional_eq_written_iff hlast]
    constructor
    · rintro ⟨hneg, htrim⟩
      refine ⟨hfinite, hzero, htrim, hneg, ?_⟩
      rw [← htrim] at hneg ⊢
      exact (exponent_bounds hpos hneg).2.mp hplaces.1
    · intro h
      exact ⟨h.fraction, h.trim_eq⟩
  · constructor
    · intro h
      have hmem := mem_toText_of_exponent hnan hinf hpos hplaces
      rw [← h, hplain, List.mem_append] at hmem
      rcases hmem with hmem | hmem
      · exact absurd (eq_of_mem_lead hmem) (by decide)
      · rcases mem_positional hmem with hdigit | ⟨hpoint, -⟩
        · exact absurd hdigit (by decide)
        · exact absurd hpoint (by decide)
    · intro h
      have hneg := h.fraction
      have hbound := h.bound
      rw [← h.trim_eq] at hneg hbound
      obtain ⟨hle, hge⟩ := exponent_bounds hpos hneg
      exact absurd ⟨hge.mpr hbound, hle⟩ hplaces

theorem plain_ne_toText_of_isZero (h : x.isZero = true) : x.plain ≠ (Lua.Number.float x).toText := by
  -- there are only two zeros to compute with
  have hbits : x.bits = 0 ∨ x.bits = 0x8000000000000000 := by
    rw [Binary64.isZero_iff] at h
    have := x.bits.toNat_lt
    have hcases : x.bits.toNat = 0 ∨ x.bits.toNat = 0x8000000000000000 := by omega
    exact hcases.imp (UInt64.toNat_inj.mp ·) (UInt64.toNat_inj.mp ·)
  obtain ⟨bits⟩ := x
  rcases hbits with hbits | hbits <;> dsimp only at hbits <;> subst hbits <;> decide +kernel

theorem plain_eq_toText_iff_of_not_finite (h : x.isFinite = false) :
    x.plain = (Lua.Number.float x).toText ↔ x.isInfinite = true := by
  have hexponent : x.exponentBits = 0x7FF := by simpa [Binary64.isFinite] using h
  have hformat := formatReal_fourteen (x := x)
  cases hinf : x.isInfinite with
  | true =>
    have hnan : x.isNaN = false := by
      simp only [Binary64.isInfinite, Binary64.isNaN, hexponent] at hinf ⊢
      simpa using hinf
    rw [hnan, hinf] at hformat
    have htext := toText_word "inf" 'i' hformat (by decide) (by decide)
    rw [htext, Binary64.plain, hnan, hinf]
    exact ⟨fun _ => rfl, fun _ => rfl⟩
  | false =>
    have hnan : x.isNaN = true := by
      simp only [Binary64.isInfinite, Binary64.isNaN, hexponent] at hinf ⊢
      simpa using hinf
    rw [hnan] at hformat
    have htext := toText_word "nan" 'n' hformat (by decide) (by decide)
    have hplain : x.plain = "NaN" := by
      rw [Binary64.plain, hnan]
      rfl
    rw [htext, hplain]
    refine ⟨fun heq => ?_, fun h => absurd h Bool.false_ne_true⟩
    have hmem : 'N' ∈ (lead x ++ "nan").toList := by
      rw [← heq]
      decide
    rw [String.toList_append, List.mem_append] at hmem
    rcases hmem with hmem | hmem
    · exact absurd (eq_of_mem_lead hmem) (by decide)
    · exact absurd hmem (by decide)

/-- A float has the same text with the fewest digits and with fourteen if it is infinite, or if fourteen
digits are enough and it has a fraction and is not too small. -/
theorem plain_eq_toText_iff (x : Binary64) :
    x.plain = (Lua.Number.float x).toText ↔ x.isInfinite = true ∨ IsBrief x := by
  cases hfinite : x.isFinite with
  | false =>
    rw [plain_eq_toText_iff_of_not_finite hfinite]
    have hbrief : ¬ IsBrief x := fun h => by
      rw [h.isFinite] at hfinite
      cases hfinite
    exact ⟨.inl, fun h => h.resolve_right hbrief⟩
  | true =>
    have hinf : ¬ x.isInfinite = true := by
      have hexponent : x.exponentBits ≠ 0x7FF := by simpa [Binary64.isFinite] using hfinite
      simp [Binary64.isInfinite, hexponent]
    cases hzero : x.isZero with
    | false =>
      rw [plain_eq_toText_iff_of_finite hfinite hzero]
      exact ⟨.inr, fun h => h.resolve_left hinf⟩
    | true =>
      have hbrief : ¬ IsBrief x := fun h => by
        rw [h.isZero] at hzero
        cases hzero
      exact ⟨fun h => absurd h (plain_ne_toText_of_isZero hzero), fun h => absurd h (not_or.mpr ⟨hinf, hbrief⟩)⟩

end LuaPages.Number
