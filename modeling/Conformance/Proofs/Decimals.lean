import Mathlib.Tactic.LinearCombination
import Conformance.Proofs.Rounding

/-!
# Decimals and what they round to

A decimal stands for a value, which lies on the grid of its exponent and on all finer ones. What it
rounds to depends on its value alone (`Decimal.nearest_congr`): the number whose interval it lies
in, or infinity from `Binary64.overflow` on.
-/

namespace Conformance

namespace Decimal

open Binary64

def value (x : Decimal) : ℚ := x.digits * 10 ^ x.exponent

/-- The number that a decimal rounds to. -/
def nearest (x : Decimal) : Binary64 := .ofDecimal false x.digits x.exponent

/-! ### Magnitudes -/

theorem lt_pow_length_toDigits (n : Nat) : n < 10 ^ (Nat.toDigits 10 n).length :=
  (Nat.length_toDigits_le_iff (by decide) Nat.length_toDigits_pos).1 le_rfl

theorem pow_length_toDigits_le {n : Nat} (h : 0 < n) :
    10 ^ ((Nat.toDigits 10 n).length - 1) ≤ n := by
  rcases Nat.eq_zero_or_pos ((Nat.toDigits 10 n).length - 1) with hone | hmore
  · rw [hone]
    exact h
  · refine Nat.not_lt.1 fun hlt => ?_
    have hle := (Nat.length_toDigits_le_iff (by decide) hmore).2 hlt
    omega

theorem magnitude_spec {num den : Nat} (hnum : 0 < num) (hden : 0 < den) :
    (10 : ℚ) ^ magnitude num den ≤ num / den ∧
      (num / den : ℚ) < 10 ^ (magnitude num den + 1) := by
  have hnum' : (0 : ℚ) < num := by exact_mod_cast hnum
  have hden' : (0 : ℚ) < den := by exact_mod_cast hden
  unfold magnitude
  split
  · rename_i hle
    have hpos := Nat.length_toDigits_pos (b := 10) (n := num / den)
    have hlow := pow_length_toDigits_le (Nat.div_pos hle hden)
    have hhigh := lt_pow_length_toDigits (num / den)
    generalize (Nat.toDigits 10 (num / den)).length = k at hpos hlow hhigh ⊢
    obtain ⟨k, rfl⟩ := Nat.exists_eq_add_of_lt hpos
    simp only [Nat.zero_add, Nat.add_sub_cancel] at hlow hhigh ⊢
    have hexp : ((k + 1 : Nat) : Int) - 1 = k := by omega
    rw [hexp, ← Nat.cast_succ, zpow_natCast, zpow_natCast, le_div_iff₀ hden', div_lt_iff₀ hden']
    rw [Nat.le_div_iff_mul_le hden] at hlow
    rw [Nat.div_lt_iff_lt_mul hden] at hhigh
    exact_mod_cast And.intro hlow hhigh
  · rename_i hlt
    have hquotient : 0 < (den - 1) / num := Nat.div_pos (by omega) hnum
    have hpos := Nat.length_toDigits_pos (b := 10) (n := (den - 1) / num)
    have hlow := pow_length_toDigits_le hquotient
    have hhigh := lt_pow_length_toDigits ((den - 1) / num)
    generalize (Nat.toDigits 10 ((den - 1) / num)).length = k at hpos hlow hhigh ⊢
    obtain ⟨k, rfl⟩ := Nat.exists_eq_add_of_lt hpos
    simp only [Nat.zero_add, Nat.add_sub_cancel] at hlow hhigh ⊢
    rw [Nat.le_div_iff_mul_le hnum] at hlow
    rw [Nat.div_lt_iff_lt_mul hnum] at hhigh
    have hlow' : 10 ^ k * num < den := by omega
    have hhigh' : den ≤ 10 ^ (k + 1) * num := by omega
    have hexp : -((k + 1 : Nat) : Int) + 1 = -(k : Int) := by omega
    rw [hexp, zpow_neg, zpow_neg, zpow_natCast, zpow_natCast, le_div_iff₀ hden',
      div_lt_iff₀ hden', inv_mul_le_iff₀ (by positivity), lt_inv_mul_iff₀ (by positivity)]
    exact_mod_cast And.intro hhigh' hlow'

/-! ### Zeros at the end -/

theorem value_of_mod_ten {x : Decimal} (h : x.digits % 10 = 0) :
    x.value = (x.digits / 10 : Nat) * 10 ^ (x.exponent + 1) := by
  have hdigits : (x.digits : ℚ) = (x.digits / 10 : Nat) * 10 := by
    have hten : x.digits = x.digits / 10 * 10 := by omega
    exact_mod_cast hten
  rw [value, hdigits, zpow_add_one₀ (by norm_num)]
  ring

theorem value_stripZeros (fuel : Nat) (x : Decimal) : (stripZeros fuel x).value = x.value := by
  induction fuel generalizing x with
  | zero => rfl
  | succ fuel ih =>
    rw [stripZeros]
    split
    · rename_i h
      rw [ih, value_of_mod_ten h.2]
      rfl
    · rfl

theorem exponent_le_stripZeros (fuel : Nat) (x : Decimal) :
    x.exponent ≤ (stripZeros fuel x).exponent := by
  induction fuel generalizing x with
  | zero => exact le_rfl
  | succ fuel ih =>
    rw [stripZeros]
    split
    · exact (Int.le_add_one le_rfl).trans (ih _)
    · exact le_rfl

theorem stripZeros_mod_ten {fuel : Nat} {x : Decimal} (hne : x.digits ≠ 0)
    (hlt : x.digits < 10 ^ fuel) : (stripZeros fuel x).digits % 10 ≠ 0 := by
  induction fuel generalizing x with
  | zero =>
    rw [pow_zero] at hlt
    omega
  | succ fuel ih =>
    rw [stripZeros]
    rw [pow_succ] at hlt
    split
    · rename_i h
      apply ih <;> dsimp only <;> omega
    · rename_i h
      exact fun hmod => h ⟨hne, hmod⟩

theorem stripZeros_of_mod_ten {fuel : Nat} {x : Decimal} (h : x.digits % 10 ≠ 0) :
    stripZeros fuel x = x := by
  cases fuel with
  | zero => rfl
  | succ fuel => exact if_neg fun hzero => h hzero.2

/-! ### Grids -/

/-- A decimal lies on all grids that are finer than its own. -/
theorem exists_value_eq {x : Decimal} {g : Int} (h : g ≤ x.exponent) :
    ∃ k : Nat, x.value = k * 10 ^ g := by
  obtain ⟨j, hj⟩ := Int.eq_ofNat_of_zero_le (show 0 ≤ x.exponent - g by omega)
  refine ⟨x.digits * 10 ^ j, ?_⟩
  have hexp : x.exponent = j + g := by omega
  rw [value, hexp, zpow_add₀ (by norm_num), zpow_natCast]
  push_cast
  ring

theorem eq_of_value {x y : Decimal} (hexp : x.exponent = y.exponent) (h : x.value = y.value) :
    x = y := by
  obtain ⟨j, g⟩ := x
  obtain ⟨k, _⟩ := y
  obtain rfl : g = _ := hexp
  have hunit : (10 : ℚ) ^ g ≠ 0 := by positivity
  have hdigits : (j : ℚ) = k := mul_right_cancel₀ hunit h
  rw [Nat.cast_injective hdigits]

theorem value_ne_of_mod_ten {x : Decimal} (h : x.digits % 10 ≠ 0) {k : Nat} {g : Int}
    (hg : x.exponent < g) : x.value ≠ k * 10 ^ g := by
  intro heq
  obtain ⟨j, hj⟩ := exists_value_eq (x := ⟨k, g⟩) (g := x.exponent + 1) (by dsimp only; omega)
  have hunit : (10 : ℚ) ^ x.exponent ≠ 0 := by positivity
  have hdigits : (x.digits : ℚ) = (j * 10 : Nat) := by
    apply mul_right_cancel₀ hunit
    calc (x.digits : ℚ) * 10 ^ x.exponent = k * 10 ^ g := heq
      _ = j * 10 ^ (x.exponent + 1) := hj
      _ = (j * 10 : Nat) * 10 ^ x.exponent := by
        rw [zpow_add_one₀ (by norm_num)]
        push_cast
        ring
  have hmul : x.digits = j * 10 := by exact_mod_cast hdigits
  omega

theorem exists_midpoint {x y : Decimal} (hexp : x.exponent = y.exponent)
    (hx : x.digits % 2 = 0) (hy : y.digits % 2 = 0) :
    ∃ z : Decimal, z.exponent = x.exponent ∧ z.value = (x.value + y.value) / 2 := by
  refine ⟨⟨(x.digits + y.digits) / 2, x.exponent⟩, rfl, ?_⟩
  have hhalf : (((x.digits + y.digits) / 2 : Nat) : ℚ) * 2 = x.digits + y.digits := by
    have htwice : (x.digits + y.digits) / 2 * 2 = x.digits + y.digits := by omega
    exact_mod_cast htwice
  unfold value
  rw [← hexp]
  dsimp only
  linear_combination (10 : ℚ) ^ x.exponent / 2 * hhalf

/-! ### What a decimal rounds to -/

variable {x : Decimal}

/-- A decimal as a ratio, which is what is rounded unless its length alone decides. -/
theorem exists_ratio (hne : x.digits ≠ 0) : ∃ num den : Nat, 0 < num ∧ 0 < den ∧
    x.value = num / den ∧
    (¬ 400 < ((Nat.toDigits 10 x.digits).length : Int) + x.exponent →
      ¬ ((Nat.toDigits 10 x.digits).length : Int) + x.exponent < -400 →
      x.nearest = ofRatio false num den) := by
  have hpos := Nat.pos_of_ne_zero hne
  unfold nearest ofDecimal
  simp only [if_neg hne]
  by_cases hexp : 0 ≤ x.exponent
  · refine ⟨x.digits * Nat.pow 10 x.exponent.toNat, 1, Nat.mul_pos hpos (Nat.pow_pos (by decide)),
      one_pos, ?_, fun hlong hshort => by rw [if_neg hlong, if_neg hshort, if_pos hexp]⟩
    obtain ⟨k, hk⟩ := Int.eq_ofNat_of_zero_le hexp
    rw [value, hk]
    simp
  · refine ⟨x.digits, Nat.pow 10 (-x.exponent).toNat, hpos, Nat.pow_pos (by decide), ?_,
      fun hlong hshort => by rw [if_neg hlong, if_neg hshort, if_neg hexp]⟩
    obtain ⟨k, hk⟩ := Int.eq_ofNat_of_zero_le (show 0 ≤ -x.exponent by omega)
    obtain hk' : x.exponent = -(k : Int) := by omega
    rw [value, hk, hk', zpow_neg, zpow_natCast]
    simp [div_eq_mul_inv]

theorem value_bounds (hne : x.digits ≠ 0) :
    (10 : ℚ) ^ (((Nat.toDigits 10 x.digits).length : Int) + x.exponent - 1) ≤ x.value ∧
      x.value < 10 ^ (((Nat.toDigits 10 x.digits).length : Int) + x.exponent) := by
  have hunit : (0 : ℚ) < 10 ^ x.exponent := by positivity
  have hlow := pow_length_toDigits_le (Nat.pos_of_ne_zero hne)
  have hhigh := lt_pow_length_toDigits x.digits
  have hpos := Nat.length_toDigits_pos (b := 10) (n := x.digits)
  generalize (Nat.toDigits 10 x.digits).length = k at hlow hhigh hpos ⊢
  obtain ⟨k, rfl⟩ := Nat.exists_eq_add_of_lt hpos
  have hexp : ((0 + k + 1 : Nat) : Int) + x.exponent - 1 = k + x.exponent := by omega
  rw [hexp, zpow_add₀ (by norm_num), zpow_add₀ (by norm_num), zpow_natCast, zpow_natCast, value]
  rw [Nat.zero_add, Nat.add_sub_cancel] at hlow
  constructor
  · gcongr
    exact_mod_cast hlow
  · gcongr
    exact_mod_cast hhigh

theorem value_pos (hne : x.digits ≠ 0) : 0 < x.value :=
  (zpow_pos (by norm_num) _).trans_le (value_bounds hne).1

theorem pow_two_le_pow_ten : (2 : ℚ) ^ 1075 ≤ 10 ^ 400 :=
  calc (2 : ℚ) ^ 1075 ≤ 2 ^ (27 * 40) := pow_le_pow_right₀ one_le_two (by decide)
    _ = (2 ^ 27) ^ 40 := pow_mul _ _ _
    _ ≤ (10 ^ 10) ^ 40 := by gcongr; norm_num
    _ = 10 ^ 400 := (pow_mul _ _ _).symm

theorem overflow_le_pow_ten : overflow ≤ 10 ^ 400 :=
  calc overflow ≤ 2 ^ 53 * 2 ^ 971 :=
      mul_le_mul_of_nonneg_right (by norm_num) (pow_pos two_pos _).le
    _ = 2 ^ 1024 := (pow_add _ _ _).symm
    _ ≤ 2 ^ 1075 := pow_le_pow_right₀ one_le_two (by decide)
    _ ≤ 10 ^ 400 := pow_two_le_pow_ten

theorem overflow_le_value (hne : x.digits ≠ 0)
    (hlong : 400 < ((Nat.toDigits 10 x.digits).length : Int) + x.exponent) :
    overflow ≤ x.value :=
  calc overflow ≤ 10 ^ (400 : Int) := overflow_le_pow_ten
    _ ≤ 10 ^ (((Nat.toDigits 10 x.digits).length : Int) + x.exponent - 1) :=
      zpow_le_zpow_right₀ (by norm_num) (by omega)
    _ ≤ x.value := (value_bounds hne).1

theorem value_le_half (hne : x.digits ≠ 0)
    (hshort : ((Nat.toDigits 10 x.digits).length : Int) + x.exponent < -400) :
    x.value / 2 ^ leastExponent ≤ 1 / 2 := by
  rw [div_le_iff₀ (by positivity)]
  calc x.value ≤ 10 ^ (((Nat.toDigits 10 x.digits).length : Int) + x.exponent) :=
        (value_bounds hne).2.le
    _ ≤ 10 ^ (-400 : Int) := zpow_le_zpow_right₀ (by norm_num) (by omega)
    _ = (10 ^ 400)⁻¹ := zpow_neg _ _
    _ ≤ (2 ^ 1075)⁻¹ := inv_anti₀ (by positivity) pow_two_le_pow_ten
    _ = 1 / 2 * (2 ^ 1074)⁻¹ := by rw [pow_succ, mul_inv, mul_comm, one_div]
    _ = 1 / 2 * 2 ^ leastExponent := by rw [leastExponent, zpow_neg]; rfl

theorem roundsTo_zero {v : ℚ} (hv : 0 ≤ v) (h : v / 2 ^ leastExponent ≤ 1 / 2) :
    RoundsTo v 0 leastExponent := by
  refine ⟨⟨by norm_num, le_rfl, fun hlt => absurd hlt (lt_irrefl _)⟩, ?_⟩
  rw [contains_interval_iff (by positivity), if_pos rfl]
  have hquotient : 0 ≤ v / 2 ^ leastExponent := by positivity
  have hreach : 0 ≤ reach 0 leastExponent := by norm_num [reach]
  constructor <;> push_cast <;> linarith

theorem exists_roundsTo (hne : x.digits ≠ 0) : ∃ m e, RoundsTo x.value m e ∧
    x.nearest = if greatestExponent < e then .infinite false else .finite false m e := by
  obtain ⟨num, den, hnum, hden, hvalue, hnearest⟩ := exists_ratio hne
  have hpos := value_pos hne
  by_cases hlong : 400 < ((Nat.toDigits 10 x.digits).length : Int) + x.exponent
  · obtain ⟨m, e, hrounds, -⟩ := Binary64.exists_roundsTo hnum hden false
    rw [← hvalue] at hrounds
    refine ⟨m, e, hrounds, ?_⟩
    rw [if_pos ((hrounds.greatest_lt_iff hpos).2 (overflow_le_value hne hlong)), nearest, ofDecimal]
    simp only [if_neg hne, if_pos hlong]
  · by_cases hshort : ((Nat.toDigits 10 x.digits).length : Int) + x.exponent < -400
    · refine ⟨0, leastExponent, roundsTo_zero hpos.le (value_le_half hne hshort), ?_⟩
      rw [nearest, ofDecimal]
      simp only [if_neg hne, if_neg hlong, if_pos hshort]
      rfl
    · rw [hnearest hlong hshort, hvalue]
      exact Binary64.exists_roundsTo hnum hden false

theorem value_eq_zero_iff : x.value = 0 ↔ x.digits = 0 := by
  have hunit : (10 : ℚ) ^ x.exponent ≠ 0 := by positivity
  simp [value, hunit]

theorem nearest_of_zero (h : x.digits = 0) : x.nearest = .finite false 0 leastExponent := by
  simp only [nearest, ofDecimal, h, if_true]

/-- What a decimal rounds to depends on its value alone. -/
theorem nearest_congr {y : Decimal} (h : x.value = y.value) : x.nearest = y.nearest := by
  by_cases hx : x.digits = 0
  · have hy : y.digits = 0 := value_eq_zero_iff.1 (h ▸ value_eq_zero_iff.2 hx)
    rw [nearest_of_zero hx, nearest_of_zero hy]
  · have hy : y.digits ≠ 0 := fun hy =>
      hx (value_eq_zero_iff.1 (h.trans (value_eq_zero_iff.2 hy)))
    obtain ⟨m, e, hrounds, heq⟩ := exists_roundsTo hx
    obtain ⟨m', e', hrounds', heq'⟩ := exists_roundsTo hy
    rw [← h] at hrounds'
    obtain ⟨rfl, rfl⟩ := hrounds.eq hrounds' (value_pos hx)
    rw [heq, heq']

theorem exists_finite (h : x.value < overflow) : ∃ m e, x.nearest = .finite false m e := by
  by_cases hx : x.digits = 0
  · exact ⟨0, leastExponent, nearest_of_zero hx⟩
  · obtain ⟨m, e, hrounds, heq⟩ := exists_roundsTo hx
    have hsmall := mt (hrounds.greatest_lt_iff (value_pos hx)).1 (not_le.2 h)
    exact ⟨m, e, heq.trans (if_neg hsmall)⟩

theorem isFinite_nearest_iff : x.nearest.isFinite = true ↔ x.value < overflow := by
  constructor
  · intro hfinite
    by_contra hle
    have hx : x.digits ≠ 0 := by
      intro hzero
      rw [value_eq_zero_iff.2 hzero] at hle
      exact hle (mul_pos (by norm_num) (pow_pos two_pos _))
    obtain ⟨m, e, hrounds, heq⟩ := exists_roundsTo hx
    rw [heq, if_pos ((hrounds.greatest_lt_iff (value_pos hx)).2 (not_lt.1 hle))] at hfinite
    cases hfinite
  · intro h
    obtain ⟨m, e, heq⟩ := exists_finite h
    rw [heq]
    rfl

end Decimal

end Conformance
