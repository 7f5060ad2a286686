import Mathlib.Algebra.Order.Ring.Int
import Conformance.Proofs.Rounding
import Conformance.Report.Basic

/-!
# Percentages

A percentage is rounded twice, for the quotient and for the product. Counts that have 53 bits are
exact, so that it depends on the quotient alone; and with fewer than `2 ^ 25` results two quotients
are too far apart to become one percentage: `passRate_eq_iff`.
-/

namespace Conformance

namespace Binary64

variable {m : Nat} {e : Int} {v : ℚ}

theorem RoundsTo.abs_sub_le (h : RoundsTo v m e) (hv : (2 : ℚ) ^ (-1022 : Int) ≤ v) :
    |m * 2 ^ e - v| ≤ v / 2 ^ 53 := by
  have hunit : (0 : ℚ) < 2 ^ e := zpow_pos two_pos e
  have hpos : 0 < v := (zpow_pos two_pos _).trans_le hv
  obtain ⟨hlow, hhigh⟩ := h.bounds hpos.le
  have hreach := reach_le m e
  have hnear : |m - v / 2 ^ e| ≤ v / 2 ^ e / 2 ^ 53 := by
    by_cases hfull : (2 : ℚ) ^ 52 ≤ v / 2 ^ e
    · have hhalf : (1 : ℚ) / 2 ≤ v / 2 ^ e / 2 ^ 53 := by
        rw [le_div_iff₀ (by positivity)]
        linarith
      exact abs_le.2 ⟨by linarith, by linarith⟩
    · have hleast : leastExponent < e := by
        apply lt_of_le_of_ne h.canonical.least
        rintro rfl
        exact hfull ((le_div_iff_exponent 52).2 hv)
      have hm := h.canonical.full hleast
      -- only the number above can be a power of two, and it reaches half as far down
      have hpower : m = 2 ^ 52 := by
        by_contra hne
        have hmore : (2 : ℚ) ^ 52 + 1 ≤ m := by
          exact_mod_cast Nat.lt_of_le_of_ne hm (Ne.symm hne)
        linarith
      rw [reach, if_pos ⟨hpower, hleast⟩] at hlow
      have hm' : (2 : ℚ) ^ 52 ≤ m := by exact_mod_cast hm
      have hquarter : (1 : ℚ) / 4 ≤ v / 2 ^ e / 2 ^ 53 := by
        rw [le_div_iff₀ (by positivity)]
        linarith
      exact abs_le.2 ⟨by linarith, by linarith⟩
  calc |m * 2 ^ e - v| = |(m - v / 2 ^ e) * 2 ^ e| := by rw [sub_mul, div_mul_unit]
    _ = |m - v / 2 ^ e| * 2 ^ e := by rw [abs_mul, abs_of_pos hunit]
    _ ≤ v / 2 ^ e / 2 ^ 53 * 2 ^ e := by gcongr
    _ = v / 2 ^ 53 := by rw [div_right_comm, div_mul_unit]

theorem exists_ofRatio_eq {num den : Nat} (hnum : 0 < num) (hden : 0 < den)
    (h : (num / den : ℚ) < overflow) (negative : Bool) :
    ∃ m e, RoundsTo (num / den) m e ∧ ofRatio negative num den = .finite negative m e := by
  obtain ⟨m, e, hrounds, heq⟩ := exists_roundsTo hnum hden negative
  have hsmall := mt (hrounds.greatest_lt_iff (quotient_pos hnum hden)).1 (not_le.2 h)
  exact ⟨m, e, hrounds, heq.trans (if_neg hsmall)⟩

theorem num_pos_of_quotient {v : ℚ} {r : Nat × Nat} (hv : 0 < v) (h : v ≤ r.1 / r.2) :
    0 < r.1 := by
  apply Nat.pos_of_ne_zero
  intro hzero
  rw [hzero, Nat.cast_zero, zero_div] at h
  exact absurd h (not_le.2 hv)

theorem exists_ofNat_eq {n : Nat} (hn : 0 < n) (hlt : n < 2 ^ 53) :
    ∃ m e, 0 < m ∧ ofNat n = .finite false m e ∧ (m * 2 ^ e : ℚ) = n := by
  have hexponent := isExponent_exponentOf hn Nat.one_pos
  have hlt' : (n : ℚ) < 2 ^ (53 : Int) := by exact_mod_cast hlt
  simp only [Nat.cast_one, div_one] at hexponent
  generalize exponentOf n 1 = e at hexponent
  have hle : e ≤ 0 := by
    by_contra hpos
    have hlow := hexponent.le ((show leastExponent < 0 by decide).trans (Int.not_le.1 hpos))
    have hpow := (zpow_lt_zpow_iff_right₀ (one_lt_two (α := ℚ))).1 (hlow.trans_lt hlt')
    omega
  obtain ⟨k, hk⟩ := Int.eq_ofNat_of_zero_le (show 0 ≤ -e by omega)
  obtain rfl : e = -(k : Int) := by omega
  have hvalue : ((n * 2 ^ k : Nat) * 2 ^ (-(k : Int)) : ℚ) = n := by
    push_cast
    rw [zpow_neg, zpow_natCast, mul_assoc, mul_inv_cancel₀ (by positivity), mul_one]
  obtain ⟨hleast, hless, hfull⟩ := isExponent_iff.1 hexponent
  have hquotient : (n : ℚ) / 2 ^ (-(k : Int)) = (n * 2 ^ k : Nat) := by
    rw [zpow_neg, zpow_natCast, div_inv_eq_mul]
    push_cast
    rfl
  rw [hquotient] at hless hfull
  have hcanonical : IsCanonical (n * 2 ^ k) (-(k : Int)) :=
    ⟨by exact_mod_cast hless, hleast, fun hmore => by exact_mod_cast hfull hmore⟩
  have hrounds := roundsTo_self hcanonical
  rw [hvalue] at hrounds
  refine ⟨n * 2 ^ k, -(k : Int), Nat.mul_pos hn (Nat.pow_pos two_pos), ?_, hvalue⟩
  apply (ofRatio_eq_finite_iff hn Nat.one_pos).2
  refine ⟨by simpa using hrounds, hle.trans (by decide)⟩

theorem ofQuotient_zero {den : Nat} (hden : 0 < den) (hlt : den < 2 ^ 53) :
    ofQuotient 0 den = .finite false 0 leastExponent := by
  obtain ⟨m, e, hm, hfinite, -⟩ := exists_ofNat_eq hden hlt
  have hratio : (ratio 0 leastExponent).1 = 0 := rfl
  have hzero : ofNat 0 = .finite false 0 leastExponent := rfl
  unfold ofQuotient
  rw [hzero, hfinite]
  dsimp only
  rw [if_neg hm.ne', hratio, Nat.zero_mul]
  rfl

/-- A quotient of counts is rounded once. -/
theorem ofQuotient_eq {num den : Nat} (hnum : 0 < num) (hden : 0 < den) (hnum' : num < 2 ^ 53)
    (hden' : den < 2 ^ 53) : ofQuotient num den = ofRatio false num den := by
  obtain ⟨m, e, -, hfinite, hvalue⟩ := exists_ofNat_eq hnum hnum'
  obtain ⟨m', e', hm', hfinite', hvalue'⟩ := exists_ofNat_eq hden hden'
  have hd := ratio_pos m e
  have hd' := ratio_pos m' e'
  rw [← ratio_eq] at hvalue hvalue'
  unfold ofQuotient
  rw [hfinite, hfinite']
  dsimp only
  rw [if_neg hm'.ne']
  generalize ratio m e = r at hvalue hd ⊢
  generalize ratio m' e' = r' at hvalue' hd' ⊢
  have hn : 0 < r.1 := num_pos_of_quotient (by exact_mod_cast hnum) hvalue.ge
  have hn' : 0 < r'.1 := num_pos_of_quotient (by exact_mod_cast hden) hvalue'.ge
  apply ofRatio_congr (Nat.mul_pos hn hd') (Nat.mul_pos hd hn') hnum hden
  rw [← hvalue, ← hvalue']
  push_cast
  rw [div_div_div_eq]

/-- The two roundings of a percentage err by less than a `2 ^ 51`th of it. -/
theorem exists_percentage {num den : Nat} (hnum : 0 < num) (hden : 0 < den)
    (hlow : (2 : ℚ) ^ (-1021 : Int) ≤ num / den) (hhigh : (num / den : ℚ) ≤ 1) :
    ∃ m e, (ofRatio false num den).mulNat 100 = .finite false m e ∧
      |(m * 2 ^ e : ℚ) - 100 * (num / den)| ≤ 100 * (num / den) / 2 ^ 51 := by
  obtain ⟨m, e, hrounds, hfinite⟩ :=
    exists_ofRatio_eq hnum hden (lt_overflow (hhigh.trans (by norm_num))) false
  have herror := hrounds.abs_sub_le ((zpow_le_zpow_right₀ one_le_two (by norm_num)).trans hlow)
  have hd := ratio_pos m e
  have hratio := ratio_eq m e
  have hpos := quotient_pos hnum hden
  rw [hfinite]
  unfold mulNat
  dsimp only
  generalize (num / den : ℚ) = rate at *
  rw [← hratio] at herror
  generalize ratio m e = r at *
  have hnear := abs_le.1 herror
  have hhalf : rate / 2 ≤ r.1 / r.2 := by linarith
  have hn : 0 < r.1 := num_pos_of_quotient (half_pos hpos) hhalf
  have hproduct : ((r.1 * 100 : Nat) / r.2 : ℚ) = 100 * (r.1 / r.2) := by
    push_cast
    ring
  have hleast : (2 : ℚ) ^ (-1022 : Int) ≤ (r.1 * 100 : Nat) / r.2 :=
    calc (2 : ℚ) ^ (-1022 : Int) = 2 ^ (-1021 : Int) / 2 := by
          rw [show (-1022 : Int) = -1021 - 1 by rfl, zpow_sub_one₀ two_ne_zero, div_eq_mul_inv]
      _ ≤ rate / 2 := by gcongr
      _ ≤ (r.1 * 100 : Nat) / r.2 := by
          rw [hproduct]
          linarith only [hhalf, hpos]
  obtain ⟨m', e', hrounds', hfinite'⟩ := exists_ofRatio_eq (Nat.mul_pos hn (Nat.succ_pos 99)) hd
    (lt_overflow (by rw [hproduct]; linarith)) false
  have herror' := hrounds'.abs_sub_le hleast
  rw [hproduct] at herror'
  have hnear' := abs_le.1 herror'
  exact ⟨m', e', hfinite', abs_le.2 ⟨by linarith, by linarith⟩⟩

end Binary64

open Binary64

variable {passed counted : Nat}

theorem quotient_le_one {n d : Nat} (h : n ≤ d) : (n / d : ℚ) ≤ 1 :=
  div_le_one_of_le₀ (by exact_mod_cast h) (Nat.cast_nonneg d)

theorem passRate_zero (hlt : counted < 2 ^ 53) :
    passRate 0 counted = .finite false 0 leastExponent := by
  unfold passRate
  split
  · rfl
  · rename_i hcounted
    rw [ofQuotient_zero (Nat.pos_of_ne_zero hcounted) hlt]
    rfl

theorem passRate_eq (hpassed : 0 < passed) (hle : passed ≤ counted) (hlt : counted < 2 ^ 53) :
    passRate passed counted = (ofRatio false passed counted).mulNat 100 := by
  have hcounted := hpassed.trans_le hle
  rw [passRate, if_neg hcounted.ne', ofQuotient_eq hpassed hcounted (hle.trans_lt hlt) hlt]

theorem exists_passRate_eq (hle : passed ≤ counted) (hlt : counted < 2 ^ 25) :
    ∃ m e, passRate passed counted = .finite false m e ∧
      |(m * 2 ^ e : ℚ) - 100 * (passed / counted)| ≤ 100 * (passed / counted) / 2 ^ 51 := by
  have hlt' : counted < 2 ^ 53 := hlt.trans (by norm_num)
  rcases Nat.eq_zero_or_pos passed with rfl | hpassed
  · exact ⟨0, leastExponent, passRate_zero hlt', by simp⟩
  · have hcounted := hpassed.trans_le hle
    have hlow : (2 : ℚ) ^ (-1021 : Int) ≤ passed / counted :=
      calc (2 : ℚ) ^ (-1021 : Int) ≤ 2 ^ (-25 : Int) :=
            zpow_le_zpow_right₀ one_le_two (by norm_num)
        _ = 1 / 2 ^ 25 := by norm_num
        _ ≤ passed / counted :=
            div_le_div₀ (Nat.cast_nonneg passed) (by exact_mod_cast hpassed)
              (by exact_mod_cast hcounted) (by exact_mod_cast hlt.le)
    rw [passRate_eq hpassed hle hlt']
    exact exists_percentage hpassed hcounted hlow (quotient_le_one hle)

theorem le_abs_quotient_sub {n d n' d' : Nat} (hd : 0 < d) (hd' : 0 < d')
    (hne : (n / d : ℚ) ≠ n' / d') : (1 / (d * d') : ℚ) ≤ |(n / d : ℚ) - n' / d'| := by
  have hpos : (0 : ℚ) < d := by exact_mod_cast hd
  have hpos' : (0 : ℚ) < d' := by exact_mod_cast hd'
  have hcross : (n * d' - d * n' : Int) ≠ 0 := by
    intro hzero
    rw [sub_eq_zero] at hzero
    apply hne
    rw [div_eq_div_iff hpos.ne' hpos'.ne', mul_comm (n' : ℚ)]
    exact_mod_cast hzero
  have hone : (1 : ℚ) ≤ |(n : ℚ) * d' - d * n'| := by exact_mod_cast Int.one_le_abs hcross
  rw [div_sub_div _ _ hpos.ne' hpos'.ne', abs_div, abs_of_pos (mul_pos hpos hpos')]
  gcongr

section Two

variable {passed' counted' : Nat} (hcounted : 0 < counted) (hcounted' : 0 < counted')
  (hle : passed ≤ counted) (hle' : passed' ≤ counted')

include hcounted hcounted' hle hle'

theorem passRate_congr (hlt : counted < 2 ^ 53) (hlt' : counted' < 2 ^ 53)
    (h : (passed / counted : ℚ) = passed' / counted') :
    passRate passed counted = passRate passed' counted' := by
  rcases Nat.eq_zero_or_pos passed with rfl | hpassed <;>
    rcases Nat.eq_zero_or_pos passed' with rfl | hpassed'
  · rw [passRate_zero hlt, passRate_zero hlt']
  · rw [Nat.cast_zero, zero_div] at h
    exact absurd h (quotient_pos hpassed' hcounted').ne
  · rw [Nat.cast_zero, zero_div] at h
    exact absurd h (quotient_pos hpassed hcounted).ne'
  · rw [passRate_eq hpassed hle hlt, passRate_eq hpassed' hle' hlt',
      ofRatio_congr hpassed hcounted hpassed' hcounted' h]

/-- Percentages of fewer than `2 ^ 25` results are equal just if the quotients are. -/
theorem passRate_eq_iff (hlt : counted < 2 ^ 25) (hlt' : counted' < 2 ^ 25) :
    passRate passed counted = passRate passed' counted' ↔
      (passed / counted : ℚ) = passed' / counted' := by
  constructor
  · intro h
    by_contra hne
    obtain ⟨m, e, hfinite, herror⟩ := exists_passRate_eq hle hlt
    obtain ⟨m', e', hfinite', herror'⟩ := exists_passRate_eq hle' hlt'
    have hsame : (m * 2 ^ e : ℚ) = m' * 2 ^ e' := by
      rw [hfinite, hfinite'] at h
      cases h
      rfl
    have hgap := le_abs_quotient_sub hcounted hcounted' hne
    have hwide : (1 / 2 ^ 50 : ℚ) < 1 / (counted * counted') := by
      apply one_div_lt_one_div_of_lt (by positivity)
      calc (counted * counted' : ℚ) < 2 ^ 25 * 2 ^ 25 := by
            exact_mod_cast Nat.mul_lt_mul'' hlt hlt'
        _ = 2 ^ 50 := by norm_num
    have hone := quotient_le_one hle
    have hone' := quotient_le_one hle'
    generalize (passed / counted : ℚ) = rate at *
    generalize (passed' / counted' : ℚ) = rate' at *
    rw [hsame] at herror
    have hclose : |rate - rate'| ≤ 1 / 2 ^ 50 := by
      rw [abs_le] at herror herror' ⊢
      constructor <;> linarith
    exact absurd (hgap.trans hclose) (not_le.2 hwide)
  · exact passRate_congr hcounted hcounted' hle hle' (hlt.trans (by norm_num))
      (hlt'.trans (by norm_num))

end Two

end Conformance
