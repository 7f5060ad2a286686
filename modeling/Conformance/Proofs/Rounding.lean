import Mathlib.Algebra.Order.Field.Power
import Mathlib.Data.Rat.Cast.Order
import Mathlib.Tactic.FieldSimp
import Mathlib.Tactic.Linarith
import Mathlib.Tactic.Positivity
import Mathlib.Tactic.Ring
import Conformance.Number.Shortest

/-!
# Rounding to binary64

A positive ratio is rounded to the number whose interval it lies in: `ofRatio_eq_finite_iff`. So
what a ratio rounds to depends on its value alone, and what lies beyond the last interval is
infinite.
-/

namespace Conformance

/-! ### Nearest natural numbers -/

/-- A natural number that no other is nearer to `u` than, the even one of two equally near. -/
structure IsNearest (q : Nat) (u : ℚ) : Prop where
  low : (q : ℚ) ≤ u + 1 / 2
  high : u ≤ q + 1 / 2
  low_even : (q : ℚ) = u + 1 / 2 → q % 2 = 0
  high_even : u = q + 1 / 2 → q % 2 = 0

theorem IsNearest.le {q p : Nat} {u : ℚ} (hq : IsNearest q u) (hp : IsNearest p u) : q ≤ p := by
  by_contra hlt
  have hstep : (p : ℚ) + 1 ≤ q := by exact_mod_cast Nat.not_le.1 hlt
  have hlow := hq.low
  have hhigh := hp.high
  have hp2 := hp.high_even (by linarith)
  have hq2 := hq.low_even (by linarith)
  have hnext : q = p + 1 := by
    have heq : (q : ℚ) = (p + 1 : Nat) := by
      push_cast
      linarith
    exact_mod_cast heq
  omega

/-- No two natural numbers are nearest. -/
theorem IsNearest.eq {q p : Nat} {u : ℚ} (hq : IsNearest q u) (hp : IsNearest p u) : q = p :=
  Nat.le_antisymm (hq.le hp) (hp.le hq)

theorem isNearest_divNearest (n : Nat) {d : Nat} (hd : 0 < d) :
    IsNearest (divNearest .even n d) (n / d : ℚ) := by
  have hd' : (0 : ℚ) < d := by exact_mod_cast hd
  have hsplit : (n / d : ℚ) = (n / d : Nat) + (n % d : Nat) / d := by
    have hn : (d : ℚ) * (n / d : Nat) + (n % d : Nat) = n := by exact_mod_cast Nat.div_add_mod n d
    rw [← hn]
    field_simp
  have hpos : (0 : ℚ) ≤ (n % d : Nat) / d := by positivity
  have hlt : ((n % d : Nat) / d : ℚ) < 1 := by
    rw [div_lt_one hd']
    exact_mod_cast Nat.mod_lt n hd
  have hhalf : ((n % d : Nat) / d : ℚ) < 1 / 2 ↔ 2 * (n % d) < d := by
    rw [div_lt_div_iff₀ hd' two_pos, one_mul, mul_comm]
    exact_mod_cast Iff.rfl
  have hhalf' : 1 / 2 < ((n % d : Nat) / d : ℚ) ↔ d < 2 * (n % d) := by
    rw [div_lt_div_iff₀ two_pos hd', one_mul, mul_comm (_ : ℚ) 2]
    exact_mod_cast Iff.rfl
  rw [hsplit]
  generalize ((n % d : Nat) / d : ℚ) = r at hpos hlt hhalf hhalf' ⊢
  simp only [divNearest, ← hhalf, ← hhalf', Tie.step]
  generalize n / d = b
  split_ifs with hless hmore
  · exact ⟨by linarith, by linarith, fun h => by linarith, fun h => by linarith⟩
  · refine ⟨by push_cast; linarith, by push_cast; linarith, fun h => ?_, fun h => ?_⟩ <;>
      (push_cast at h; linarith)
  · obtain rfl : r = 1 / 2 := by linarith
    -- a half goes up from an odd number and down from an even one, to an even one each time
    rcases Nat.mod_two_eq_zero_or_one b with heven | hodd
    · rw [heven, Nat.add_zero]
      exact ⟨by linarith, le_rfl, fun _ => heven, fun _ => heven⟩
    · rw [hodd]
      have hnext : (b + 1) % 2 = 0 := by omega
      exact ⟨by push_cast; linarith, by push_cast; linarith, fun _ => hnext, fun _ => hnext⟩

/-! ### Units -/

theorem inUnits_eq (base num den : Nat) (exponent : Int) :
    ((inUnits base num den exponent).1 : ℚ) / (inUnits base num den exponent).2 =
      num / den / (base : ℚ) ^ exponent := by
  unfold inUnits
  split
  · rename_i h
    obtain ⟨k, rfl⟩ := Int.eq_ofNat_of_zero_le h
    simp [div_div]
  · rename_i h
    obtain ⟨k, hk⟩ := Int.eq_ofNat_of_zero_le (show 0 ≤ -exponent by omega)
    obtain rfl : exponent = -(k : Int) := by omega
    simp [zpow_neg, mul_div_right_comm]

theorem inUnits_pos {base : Nat} (hbase : 0 < base) (num : Nat) {den : Nat} (hden : 0 < den)
    (exponent : Int) : 0 < (inUnits base num den exponent).2 := by
  unfold inUnits
  split
  · exact Nat.mul_pos hden (Nat.pow_pos hbase)
  · exact hden

namespace Binary64

theorem ratio_eq (significand : Nat) (exponent : Int) :
    ((ratio significand exponent).1 : ℚ) / (ratio significand exponent).2 =
      significand * 2 ^ exponent := by
  unfold ratio
  split
  · rename_i h
    obtain ⟨k, rfl⟩ := Int.eq_ofNat_of_zero_le h
    simp
  · rename_i h
    obtain ⟨k, hk⟩ := Int.eq_ofNat_of_zero_le (show 0 ≤ -exponent by omega)
    obtain rfl : exponent = -(k : Int) := by omega
    simp [zpow_neg, div_eq_mul_inv]

theorem ratio_pos (significand : Nat) (exponent : Int) : 0 < (ratio significand exponent).2 := by
  unfold ratio
  split
  · exact Nat.one_pos
  · exact Nat.pow_pos two_pos

theorem le_div_iff_of_pos {n d : Nat} (hd : 0 < d) (k : Nat) : k ≤ n / d ↔ (k : ℚ) ≤ n / d := by
  rw [Nat.le_div_iff_mul_le hd, le_div_iff₀ (by exact_mod_cast hd)]
  exact_mod_cast Iff.rfl

section Exponent

variable {num den : Nat} (hnum : 0 < num) (hden : 0 < den)

include hnum hden

theorem ratio_bounds : (2 : ℚ) ^ ((num.log2 : Int) - den.log2 - 1) < num / den ∧
    (num / den : ℚ) < 2 ^ ((num.log2 : Int) - den.log2 + 1) := by
  have hden' : (0 : ℚ) < den := by exact_mod_cast hden
  have hnumLow : (2 : ℚ) ^ num.log2 ≤ num := by exact_mod_cast Nat.log2_self_le hnum.ne'
  have hnumHigh : (num : ℚ) < 2 ^ (num.log2 + 1) := by exact_mod_cast Nat.lt_log2_self
  have hdenLow : (2 : ℚ) ^ den.log2 ≤ den := by exact_mod_cast Nat.log2_self_le hden.ne'
  have hdenHigh : (den : ℚ) < 2 ^ (den.log2 + 1) := by exact_mod_cast Nat.lt_log2_self
  have hlow : (2 : ℚ) ^ ((num.log2 : Int) - den.log2 - 1) * 2 ^ (den.log2 + 1) = 2 ^ num.log2 := by
    rw [← zpow_natCast, ← zpow_natCast, ← zpow_add₀ two_ne_zero]
    congr 1
    push_cast
    ring
  have hhigh : (2 : ℚ) ^ ((num.log2 : Int) - den.log2 + 1) * 2 ^ den.log2 =
      2 ^ (num.log2 + 1) := by
    rw [← zpow_natCast, ← zpow_natCast, ← zpow_add₀ two_ne_zero]
    congr 1
    push_cast
    ring
  constructor
  · rw [lt_div_iff₀ hden']
    calc (2 : ℚ) ^ ((num.log2 : Int) - den.log2 - 1) * den
        < 2 ^ ((num.log2 : Int) - den.log2 - 1) * 2 ^ (den.log2 + 1) := by gcongr
      _ = 2 ^ num.log2 := hlow
      _ ≤ num := hnumLow
  · rw [div_lt_iff₀ hden']
    calc (num : ℚ) < 2 ^ (num.log2 + 1) := hnumHigh
      _ = 2 ^ ((num.log2 : Int) - den.log2 + 1) * 2 ^ den.log2 := hhigh.symm
      _ ≤ 2 ^ ((num.log2 : Int) - den.log2 + 1) * den := by gcongr

end Exponent

/-- An exponent at which a value fills 53 bits, or the least one. -/
structure IsExponent (v : ℚ) (exponent : Int) : Prop where
  least : leastExponent ≤ exponent
  lt : v < 2 ^ (exponent + 53)
  le : leastExponent < exponent → (2 : ℚ) ^ (exponent + 52) ≤ v

theorem IsExponent.le_of {v : ℚ} {e e' : Int} (h : IsExponent v e) (h' : IsExponent v e') :
    e ≤ e' := by
  by_contra hlt
  have hlow := h.le (h'.least.trans_lt (Int.not_le.1 hlt))
  have hpow : (2 : ℚ) ^ (e + 52) < 2 ^ (e' + 53) := hlow.trans_lt h'.lt
  have hexp := (zpow_lt_zpow_iff_right₀ one_lt_two).1 hpow
  omega

theorem IsExponent.eq {v : ℚ} {e e' : Int} (h : IsExponent v e) (h' : IsExponent v e') :
    e = e' :=
  Int.le_antisymm (h.le_of h') (h'.le_of h)

theorem isExponent_exponentOf {num den : Nat} (hnum : 0 < num) (hden : 0 < den) :
    IsExponent (num / den) (exponentOf num den) := by
  obtain ⟨hlow, hhigh⟩ := ratio_bounds hnum hden
  have hcut : ∀ e, Nat.pow 2 53 ≤ (inUnits 2 num den e).1 / (inUnits 2 num den e).2 ↔
      (2 : ℚ) ^ (e + 53) ≤ num / den := by
    intro e
    rw [le_div_iff_of_pos (inUnits_pos two_pos num hden e), inUnits_eq, Nat.cast_ofNat,
      le_div_iff₀ (zpow_pos two_pos e), add_comm, zpow_add₀ two_ne_zero]
    norm_num
  unfold exponentOf
  simp only [hcut]
  generalize (num.log2 : Int) - den.log2 = size at hlow hhigh ⊢
  have hmono : ∀ {a b : Int}, a ≤ b → (2 : ℚ) ^ a ≤ 2 ^ b := fun h =>
    zpow_le_zpow_right₀ one_le_two h
  split
  · rename_i hfull
    constructor
    · omega
    · refine hhigh.trans_le (hmono ?_)
      omega
    · intro _
      refine le_trans (hmono ?_) hfull
      omega
  · rename_i hfull
    constructor
    · exact le_max_right _ _
    · exact not_le.1 hfull
    · intro hlt
      refine le_trans (hmono ?_) hlow.le
      omega

/-! ### Intervals -/

/-- Whether an interval contains a ratio, in quarters of the last place. -/
def Interval.Contains (i : Interval) (u : ℚ) : Prop :=
  if i.closed then (i.low : ℚ) ≤ u ∧ u ≤ i.high else (i.low : ℚ) < u ∧ u < i.high

/-- How far below a number the ratios that round to it reach, in units of its last place. -/
def reach (significand : Nat) (exponent : Int) : ℚ :=
  if significand = 2 ^ 52 ∧ leastExponent < exponent then 1 / 4 else 1 / 2

/-- The one form in which a number is given: with 53 bits, or with the least exponent. -/
structure IsCanonical (significand : Nat) (exponent : Int) : Prop where
  lt : significand < 2 ^ 53
  least : leastExponent ≤ exponent
  full : leastExponent < exponent → 2 ^ 52 ≤ significand

/-- A value lies in the interval of a number. -/
structure RoundsTo (v : ℚ) (significand : Nat) (exponent : Int) : Prop where
  canonical : IsCanonical significand exponent
  contains : (interval significand exponent).Contains (4 * (v / 2 ^ exponent))

variable {m : Nat} {e : Int} {u v : ℚ}

theorem contains_interval_iff (hu : 0 ≤ u) : (interval m e).Contains (4 * u) ↔
    if m % 2 = 0 then (m : ℚ) - reach m e ≤ u ∧ u ≤ m + 1 / 2
      else (m : ℚ) - reach m e < u ∧ u < m + 1 / 2 := by
  have hhigh : ((interval m e).high : ℚ) = 4 * (m + 1 / 2) := by
    simp only [interval]
    push_cast
    ring
  have hclosed : (interval m e).closed = decide (m % 2 = 0) := rfl
  unfold Interval.Contains
  rw [hhigh, hclosed]
  rcases Nat.eq_zero_or_pos m with rfl | hm
  · have hlow : (interval 0 e).low = 0 := by simp [interval]
    have hreach : reach 0 e = 1 / 2 := by simp [reach]
    simp only [hlow, hreach, Nat.zero_mod, decide_true, if_true]
    constructor <;> rintro ⟨-, hle⟩ <;> constructor <;> push_cast at * <;> linarith
  · have hlow : ((interval m e).low : ℚ) = 4 * (m - reach m e) := by
      simp only [interval, reach, Nat.pow_eq]
      split <;> rw [Nat.cast_sub (by omega)] <;> push_cast <;> ring
    rw [hlow]
    by_cases heven : m % 2 = 0 <;> simp [heven]

theorem RoundsTo.bounds (h : RoundsTo v m e) (hv : 0 ≤ v) :
    (m : ℚ) - reach m e ≤ v / 2 ^ e ∧ v / 2 ^ e ≤ m + 1 / 2 := by
  have hcontains := (contains_interval_iff (by positivity)).1 h.contains
  split at hcontains
  · exact hcontains
  · exact ⟨hcontains.1.le, hcontains.2.le⟩

theorem div_lt_iff_exponent (k : Int) : v / 2 ^ e < 2 ^ k ↔ v < 2 ^ (e + k) := by
  rw [div_lt_iff₀ (zpow_pos two_pos e), add_comm, zpow_add₀ two_ne_zero]

theorem le_div_iff_exponent (k : Int) : 2 ^ k ≤ v / 2 ^ e ↔ 2 ^ (e + k) ≤ v := by
  rw [← not_lt, div_lt_iff_exponent, not_lt]

theorem isExponent_iff : IsExponent v e ↔ leastExponent ≤ e ∧ v / 2 ^ e < 2 ^ 53 ∧
    (leastExponent < e → 2 ^ 52 ≤ v / 2 ^ e) := by
  have hlt : v / 2 ^ e < 2 ^ 53 ↔ v < 2 ^ (e + 53) := div_lt_iff_exponent 53
  have hle : 2 ^ 52 ≤ v / 2 ^ e ↔ 2 ^ (e + 52) ≤ v := le_div_iff_exponent 52
  rw [hlt, hle]
  exact ⟨fun h => ⟨h.least, h.lt, h.le⟩, fun h => ⟨h.1, h.2.1, h.2.2⟩⟩

theorem reach_le (m : Nat) (e : Int) : reach m e ≤ 1 / 2 := by
  unfold reach
  split <;> norm_num

theorem reach_of_ne (h : m ≠ 2 ^ 52) : reach m e = 1 / 2 :=
  if_neg fun hm => h hm.1

theorem roundsTo_self (h : IsCanonical m e) : RoundsTo (m * 2 ^ e) m e := by
  refine ⟨h, ?_⟩
  rw [mul_div_cancel_right₀ _ (zpow_pos two_pos e).ne', contains_interval_iff (by positivity)]
  have hreach : 0 < reach m e := by
    unfold reach
    split <;> norm_num
  split
  · constructor <;> linarith
  · constructor <;> linarith

/-- Where a value lies in the interval of a number, the number is what nearest rounding at the
exponent of the value comes to; just below a power of two the exponent is one less. -/
theorem RoundsTo.nearest (h : RoundsTo v m e) (hv : 0 < v) :
    (IsExponent v e ∧ IsNearest m (v / 2 ^ e)) ∨
      (m = 2 ^ 52 ∧ IsExponent v (e - 1) ∧ IsNearest (2 ^ 53) (v / 2 ^ (e - 1))) := by
  obtain ⟨hlow, hhigh⟩ := h.bounds hv.le
  have hreach := reach_le m e
  have hm : (m : ℚ) + 1 ≤ 2 ^ 53 := by exact_mod_cast h.canonical.lt
  by_cases hbelow : leastExponent < e ∧ v / 2 ^ e < 2 ^ 52
  · obtain ⟨hleast, hlt⟩ := hbelow
    have hfull := h.canonical.full hleast
    have hmeq : m = 2 ^ 52 := by
      by_contra hne
      have hgt : (2 : ℚ) ^ 52 + 1 ≤ m := by
        exact_mod_cast Nat.lt_of_le_of_ne hfull (Ne.symm hne)
      linarith
    have hquarter : reach m e = 1 / 4 := if_pos ⟨hmeq, hleast⟩
    have htwice : v / 2 ^ (e - 1) = 2 * (v / 2 ^ e) := by
      rw [zpow_sub_one₀ two_ne_zero]
      field_simp
    rw [hquarter, hmeq] at hlow
    push_cast at hlow
    refine .inr ⟨hmeq, isExponent_iff.2 ⟨by omega, ?_, fun _ => ?_⟩, ?_⟩
    · rw [htwice]
      linarith
    · rw [htwice]
      linarith
    · rw [htwice]
      refine ⟨?_, ?_, fun _ => by norm_num, fun _ => by norm_num⟩ <;> push_cast <;> linarith
  · refine .inl ⟨isExponent_iff.2 ⟨h.canonical.least, by linarith, fun hleast => ?_⟩, ?_⟩
    · exact not_lt.1 fun hlt => hbelow ⟨hleast, hlt⟩
    · have hcontains := (contains_interval_iff (by positivity)).1 h.contains
      refine ⟨by linarith, hhigh, fun htie => ?_, fun htie => ?_⟩
      · by_contra hodd
        rw [if_neg hodd] at hcontains
        have hne : m ≠ 2 ^ 52 := by
          rintro rfl
          exact hodd (by norm_num)
        rw [reach_of_ne hne] at hcontains
        linarith
      · by_contra hodd
        rw [if_neg hodd] at hcontains
        linarith

theorem roundsTo_of_nearest (hv : 0 < v) (hexp : IsExponent v e) (hnear : IsNearest m (v / 2 ^ e))
    (hm : m ≠ 2 ^ 53) : RoundsTo v m e := by
  obtain ⟨hleast, hlt, hfull⟩ := isExponent_iff.1 hexp
  have hlow := hnear.low
  have hhigh := hnear.high
  constructor
  · constructor
    · have hle : (m : ℚ) < 2 ^ 53 + 1 := by linarith
      have hle : m < 2 ^ 53 + 1 := by exact_mod_cast hle
      omega
    · exact hleast
    · intro hmore
      have hle : (2 : ℚ) ^ 52 < m + 1 := by linarith [hfull hmore]
      have hle : 2 ^ 52 < m + 1 := by exact_mod_cast hle
      omega
  · rw [contains_interval_iff (by positivity)]
    split
    · refine ⟨?_, hhigh⟩
      unfold reach
      split
      · rename_i hpower
        rw [hpower.1]
        push_cast
        linarith [hfull hpower.2]
      · linarith
    · rename_i hodd
      have hne : m ≠ 2 ^ 52 := by
        rintro rfl
        exact hodd (by norm_num)
      rw [reach_of_ne hne]
      exact ⟨lt_of_le_of_ne (by linarith) fun heq => hodd (hnear.low_even (by linarith)),
        lt_of_le_of_ne hhigh fun heq => hodd (hnear.high_even heq)⟩

theorem roundsTo_of_carry (hv : 0 < v) (hexp : IsExponent v e)
    (hnear : IsNearest (2 ^ 53) (v / 2 ^ e)) : RoundsTo v (2 ^ 52) (e + 1) := by
  obtain ⟨hleast, hlt, -⟩ := isExponent_iff.1 hexp
  have hlow := hnear.low
  have hmore : leastExponent < e + 1 := Int.lt_add_one_of_le hleast
  have hhalf : v / 2 ^ (e + 1) = v / 2 ^ e / 2 := by
    rw [zpow_add_one₀ two_ne_zero]
    field_simp
  constructor
  · exact ⟨by norm_num, hmore.le, fun _ => le_rfl⟩
  · have hreach : reach (2 ^ 52) (e + 1) = 1 / 4 := if_pos ⟨rfl, hmore⟩
    rw [contains_interval_iff (by positivity), if_pos (by norm_num), hreach, hhalf]
    push_cast at hlow ⊢
    constructor <;> linarith

/-- No value rounds to two numbers. -/
theorem RoundsTo.eq {m' : Nat} {e' : Int} (h : RoundsTo v m e) (h' : RoundsTo v m' e')
    (hv : 0 < v) : m = m' ∧ e = e' := by
  have hm := h.canonical.lt
  have hm' := h'.canonical.lt
  rcases h.nearest hv with ⟨hexp, hnear⟩ | ⟨rfl, hexp, hnear⟩ <;>
    rcases h'.nearest hv with ⟨hexp', hnear'⟩ | ⟨rfl, hexp', hnear'⟩ <;>
    have heq := hexp.eq hexp'
  · subst heq
    exact ⟨hnear.eq hnear', rfl⟩
  · subst heq
    exact absurd (hnear.eq hnear') hm.ne
  · subst heq
    exact absurd (hnear'.eq hnear) hm'.ne
  · exact ⟨rfl, by omega⟩

/-- The least value that is rounded to infinity: half a unit of the last place above the largest
number. -/
def overflow : ℚ := (2 ^ 53 - 1 / 2) * 2 ^ 971

theorem lt_overflow (h : v ≤ 2 ^ 52) : v < overflow := by
  have hpow : (1 : ℚ) ≤ 2 ^ 971 := one_le_pow₀ one_le_two
  have hless : (2 : ℚ) ^ 52 < 2 ^ 53 - 1 / 2 := by norm_num
  exact (h.trans_lt hless).trans_le (le_mul_of_one_le_right (by norm_num) hpow)

theorem div_mul_unit (v : ℚ) (e : Int) : v / 2 ^ e * 2 ^ e = v :=
  div_mul_cancel₀ v (zpow_pos two_pos e).ne'

theorem RoundsTo.overflow_le (h : RoundsTo v m e) (hv : 0 < v) (hlt : greatestExponent < e) :
    overflow ≤ v := by
  obtain ⟨hlow, -⟩ := h.bounds hv.le
  have hleast : leastExponent < e := lt_trans (by decide) hlt
  have hfull : (2 : ℚ) ^ 52 ≤ m := by exact_mod_cast h.canonical.full hleast
  have hquotient : (2 : ℚ) ^ 52 - 1 / 4 ≤ v / 2 ^ e := by
    by_cases hm : m = 2 ^ 52
    · rw [reach, if_pos ⟨hm, hleast⟩] at hlow
      linarith
    · have hmore : (2 : ℚ) ^ 52 + 1 ≤ m := by
        exact_mod_cast Nat.lt_of_le_of_ne (h.canonical.full hleast) (Ne.symm hm)
      linarith [reach_le m e]
  have hpow : (2 : ℚ) ^ 972 ≤ 2 ^ e := by
    have hle : (972 : Int) ≤ e := hlt
    exact_mod_cast zpow_le_zpow_right₀ (one_le_two (α := ℚ)) hle
  calc overflow = (2 ^ 52 - 1 / 4) * 2 ^ 972 := by
        rw [overflow, pow_succ _ 971, ← mul_assoc, mul_right_comm]
        congr 1
        norm_num
    _ ≤ v / 2 ^ e * 2 ^ e := by gcongr
    _ = v := div_mul_unit v e

theorem RoundsTo.lt_overflow (h : RoundsTo v m e) (hv : 0 < v) (hle : e ≤ greatestExponent) :
    v < overflow := by
  have hpow : (2 : ℚ) ^ e ≤ 2 ^ 971 := by
    have hle : e ≤ (971 : Int) := hle
    exact_mod_cast zpow_le_zpow_right₀ (one_le_two (α := ℚ)) hle
  have hquotient : v / 2 ^ e < 2 ^ 53 - 1 / 2 := by
    have hm : (m : ℚ) + 1 ≤ 2 ^ 53 := by exact_mod_cast h.canonical.lt
    have hcontains := (contains_interval_iff (by positivity)).1 h.contains
    split at hcontains
    · rename_i heven
      have hne : m + 1 ≠ 2 ^ 53 := by omega
      have hmore : (m : ℚ) + 1 + 1 ≤ 2 ^ 53 := by
        exact_mod_cast Nat.lt_of_le_of_ne h.canonical.lt hne
      linarith
    · linarith
  calc v = v / 2 ^ e * 2 ^ e := (div_mul_unit v e).symm
    _ < (2 ^ 53 - 1 / 2) * 2 ^ e := by gcongr
    _ ≤ overflow := mul_le_mul_of_nonneg_left hpow (by norm_num)

theorem RoundsTo.greatest_lt_iff (h : RoundsTo v m e) (hv : 0 < v) :
    greatestExponent < e ↔ overflow ≤ v :=
  ⟨h.overflow_le hv, fun hle => Int.not_le.1 fun hsmall =>
    absurd hle (not_le.2 (h.lt_overflow hv hsmall))⟩

theorem quotient_pos {num den : Nat} (hnum : 0 < num) (hden : 0 < den) : (0 : ℚ) < num / den :=
  div_pos (by exact_mod_cast hnum) (by exact_mod_cast hden)

section Ratio

variable {num den : Nat} (hnum : 0 < num) (hden : 0 < den)

include hnum hden

theorem exists_roundsTo (negative : Bool) : ∃ m e, RoundsTo (num / den) m e ∧
    ofRatio negative num den =
      if greatestExponent < e then .infinite negative else .finite negative m e := by
  have hv := quotient_pos hnum hden
  have hexp := isExponent_exponentOf hnum hden
  have hnear := isNearest_divNearest (inUnits 2 num den (exponentOf num den)).1
    (inUnits_pos two_pos num hden (exponentOf num den))
  rw [inUnits_eq, Nat.cast_ofNat] at hnear
  unfold ofRatio
  simp only [hnum.ne', if_false, Nat.pow_eq]
  split
  · rename_i hcarry
    rw [hcarry] at hnear
    exact ⟨_, _, roundsTo_of_carry hv hexp hnear, rfl⟩
  · rename_i hcarry
    exact ⟨_, _, roundsTo_of_nearest hv hexp hnear hcarry, rfl⟩

/-- A ratio is rounded to the number whose interval it lies in. -/
theorem ofRatio_eq_finite_iff {negative : Bool} {m : Nat} {e : Int} :
    ofRatio negative num den = .finite negative m e ↔
      RoundsTo (num / den) m e ∧ e ≤ greatestExponent := by
  have hv := quotient_pos hnum hden
  obtain ⟨m', e', hrounds, heq⟩ := exists_roundsTo hnum hden negative
  rw [heq]
  constructor
  · intro h
    split at h
    · cases h
    · rename_i hle
      cases h
      exact ⟨hrounds, Int.not_lt.1 hle⟩
  · rintro ⟨h, hle⟩
    obtain ⟨rfl, rfl⟩ := h.eq hrounds hv
    rw [if_neg (Int.not_lt.2 hle)]

/-- What a ratio is rounded to depends on its value alone. -/
theorem ofRatio_congr {num' den' : Nat} (hnum' : 0 < num') (hden' : 0 < den')
    (h : (num / den : ℚ) = num' / den') (negative : Bool) :
    ofRatio negative num den = ofRatio negative num' den' := by
  obtain ⟨m, e, hrounds, heq⟩ := exists_roundsTo hnum hden negative
  obtain ⟨m', e', hrounds', heq'⟩ := exists_roundsTo hnum' hden' negative
  rw [← h] at hrounds'
  obtain ⟨rfl, rfl⟩ := hrounds.eq hrounds' (quotient_pos hnum hden)
  rw [heq, heq']

end Ratio

end Binary64

end Conformance
