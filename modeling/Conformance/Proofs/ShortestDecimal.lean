import Mathlib.Data.Rat.Floor
import Conformance.Proofs.Decimals

/-!
# The shortest decimal

Of the decimals that round to a number, `Binary64.shortest` gives one on the coarsest grid that has
any, and on that grid the nearest one: `isShortestOf_shortest`. There is just one such decimal, and
a decimal of at most fifteen digits is the shortest for the number that it rounds to
(`isShortestOf_of_digits_lt`).
-/

namespace Conformance

theorem findSome?_range {α : Type} {f : Nat → Option α} {n : Nat} {x : α}
    (h : (List.range n).findSome? f = some x) :
    ∃ k < n, f k = some x ∧ ∀ j < k, f j = none := by
  induction n with
  | zero => simp at h
  | succ n ih =>
    rw [List.range_succ, List.findSome?_append] at h
    cases hfind : (List.range n).findSome? f with
    | some y =>
      rw [hfind] at h
      obtain ⟨k, hk, hfound⟩ := ih (hfind.trans h)
      exact ⟨k, hk.trans n.lt_succ_self, hfound⟩
    | none =>
      rw [hfind] at h
      refine ⟨n, n.lt_succ_self, by simpa using h, fun j hj => ?_⟩
      exact List.findSome?_eq_none_iff.1 hfind j (List.mem_range.2 hj)

theorem IsNearest.nearer {q k : Nat} {u : ℚ} (h : IsNearest q u) (hne : k ≠ q) :
    |(q : ℚ) - u| < |(k : ℚ) - u| ∨ |(q : ℚ) - u| = |(k : ℚ) - u| ∧ q % 2 = 0 := by
  have hlow := h.low
  have hhigh := h.high
  have hdistance : |(q : ℚ) - u| ≤ 1 / 2 := abs_le.2 ⟨by linarith, by linarith⟩
  have hfar : 1 / 2 ≤ |(k : ℚ) - u| := by
    rcases Nat.lt_or_gt_of_ne hne with hlt | hgt
    · have hstep : (k : ℚ) + 1 ≤ q := by exact_mod_cast hlt
      exact le_abs.2 (.inr (by linarith))
    · have hstep : (q : ℚ) + 1 ≤ k := by exact_mod_cast hgt
      exact le_abs.2 (.inl (by linarith))
  rcases (hdistance.trans hfar).lt_or_eq with hlt | heq
  · exact .inl hlt
  · refine .inr ⟨heq, ?_⟩
    have hhalf : |(q : ℚ) - u| = 1 / 2 := le_antisymm hdistance (heq ▸ hfar)
    rcases abs_eq (by norm_num) |>.1 hhalf with hpos | hneg
    · exact h.low_even (by linarith)
    · exact h.high_even (by linarith)

/-- Whether one decimal is nearer to a value than another, or as near with an even last digit. -/
def Decimal.IsNearer (x y : Decimal) (v : ℚ) : Prop :=
  |x.value - v| < |y.value - v| ∨ |x.value - v| = |y.value - v| ∧ x.digits % 2 = 0

namespace Binary64

/-! ### Points of a grid -/

theorem Interval.has_iff {i : Interval} {e g : Int} {k : Nat} :
    i.has e g k = true ↔ i.Contains (4 * (k * 10 ^ g / 2 ^ e)) := by
  have hquarter : (4 : ℚ) * (k * 10 ^ g / 2 ^ e) = k * 10 ^ g / 2 ^ (e - 2) := by
    rw [zpow_sub₀ two_ne_zero]
    norm_num
    ring
  have hratio : ((ratio 1 (e - 2)).1 : ℚ) / (ratio 1 (e - 2)).2 = 2 ^ (e - 2) := by
    rw [ratio_eq]
    norm_num
  have hd := ratio_pos 1 (e - 2)
  rw [hquarter, ← hratio]
  unfold Interval.has Interval.Contains
  generalize ratio 1 (e - 2) = r at hratio hd ⊢
  obtain ⟨n, d⟩ := r
  have hn : 0 < n := by
    have hpos : (0 : ℚ) < n / d := hratio ▸ zpow_pos two_pos _
    exact Nat.pos_of_ne_zero fun hzero => by simp [hzero] at hpos
  have hd' : (0 : ℚ) < d := by exact_mod_cast hd
  dsimp only
  generalize hpoint : (if 0 ≤ g then k * Nat.pow 10 g.toNat * d else k * d) = point
  generalize hunit : (if 0 ≤ g then n else n * Nat.pow 10 (-g).toNat) = unit
  have hpos : 0 < unit := by
    rw [← hunit]
    split
    · exact hn
    · exact Nat.mul_pos hn (Nat.pow_pos (by decide))
  have hpos' : (0 : ℚ) < unit := by exact_mod_cast hpos
  have heq : (k * 10 ^ g / (n / d) : ℚ) = point / unit := by
    rw [← hpoint, ← hunit]
    split
    · rename_i hg
      obtain ⟨j, rfl⟩ := Int.eq_ofNat_of_zero_le hg
      simp only [Int.toNat_natCast, Nat.pow_eq, zpow_natCast]
      push_cast
      field_simp
    · rename_i hg
      obtain ⟨j, hj⟩ := Int.eq_ofNat_of_zero_le (show 0 ≤ -g by omega)
      obtain rfl : g = -(j : Int) := by omega
      simp only [neg_neg, Int.toNat_natCast, Nat.pow_eq, zpow_neg, zpow_natCast]
      push_cast
      field_simp
  rw [heq, le_div_iff₀ hpos', div_le_iff₀ hpos', lt_div_iff₀ hpos', div_lt_iff₀ hpos']
  cases i.closed <;> simp <;> norm_cast

theorem Interval.Contains.of_between {i : Interval} {a b c : ℚ} (ha : i.Contains a)
    (hb : i.Contains b) (hac : a ≤ c) (hcb : c ≤ b) : i.Contains c := by
  unfold Interval.Contains at *
  split at ha <;> rename_i hclosed
  · rw [if_pos hclosed] at hb ⊢
    exact ⟨ha.1.trans hac, hcb.trans hb.2⟩
  · rw [if_neg hclosed] at hb ⊢
    exact ⟨ha.1.trans_le hac, hcb.trans_lt hb.2⟩

variable {m : Nat} {e : Int} {a b c : ℚ}

theorem RoundsTo.of_between (ha : RoundsTo a m e) (hb : RoundsTo b m e) (hac : a ≤ c)
    (hcb : c ≤ b) : RoundsTo c m e :=
  ⟨ha.canonical, ha.contains.of_between hb.contains (by gcongr) (by gcongr)⟩

theorem RoundsTo.sub_le (ha : RoundsTo a m e) (hb : RoundsTo b m e) (ha0 : 0 ≤ a) (hb0 : 0 ≤ b) :
    b - a ≤ 2 ^ e := by
  have hlow := (ha.bounds ha0).1
  have hhigh := (hb.bounds hb0).2
  have hunit : (b - a) / 2 ^ e ≤ 1 := by
    rw [sub_div]
    linarith [reach_le m e]
  rwa [div_le_one (zpow_pos two_pos e)] at hunit

/-! ### The better point of a grid -/

/-- A decimal on a grid that rounds to a number, and none on that grid is better. -/
structure IsBestOnGrid (x : Decimal) (m : Nat) (e : Int) : Prop where
  roundsTo : RoundsTo x.value m e
  nearest : ∀ y : Decimal, RoundsTo y.value m e → y.exponent = x.exponent →
    y = x ∨ x.IsNearer y (m * 2 ^ e)

theorem isBestOnGrid_of_units {k : Nat} {g : Int} (hrounds : RoundsTo (k * 10 ^ g) m e)
    (h : ∀ j : Nat, RoundsTo (j * 10 ^ g) m e → j ≠ k →
      |(k : ℚ) - m * 2 ^ e / 10 ^ g| < |(j : ℚ) - m * 2 ^ e / 10 ^ g| ∨
        |(k : ℚ) - m * 2 ^ e / 10 ^ g| = |(j : ℚ) - m * 2 ^ e / 10 ^ g| ∧ k % 2 = 0) :
    IsBestOnGrid ⟨k, g⟩ m e := by
  have hunit : (0 : ℚ) < 10 ^ g := by positivity
  have hdistance : ∀ j : Nat, |(j : ℚ) * 10 ^ g - m * 2 ^ e| =
      |(j : ℚ) - m * 2 ^ e / 10 ^ g| * 10 ^ g := by
    intro j
    rw [← abs_of_pos hunit, ← abs_mul, sub_mul, abs_of_pos hunit,
      div_mul_cancel₀ _ hunit.ne']
  refine ⟨hrounds, ?_⟩
  rintro ⟨j, _⟩ hy rfl
  by_cases hne : j = k
  · exact .inl (by rw [hne])
  · right
    unfold Decimal.IsNearer Decimal.value
    dsimp only
    rw [hdistance, hdistance, mul_lt_mul_iff_left₀ hunit, mul_left_inj' hunit.ne']
    exact h j hy hne

theorem divNearest_eq_or (tie : Tie) (n d : Nat) :
    divNearest tie n d = n / d ∨ divNearest tie n d = n / d + 1 := by
  have hstep : ∀ k, tie.step k = 0 ∨ tie.step k = 1 := by
    intro k
    cases tie with
    | even => exact Nat.mod_two_eq_zero_or_one k
    | up => exact .inr rfl
  unfold divNearest
  dsimp only
  split_ifs
  · exact .inl rfl
  · exact .inr rfl
  · rcases hstep (n / d) with h | h <;> simp [h]

section Grid

variable (hcanonical : IsCanonical m e) (g : Int)

include hcanonical

theorem has_iff_roundsTo {k : Nat} :
    (interval m e).has e g k = true ↔ RoundsTo (k * 10 ^ g) m e :=
  Interval.has_iff.trans ⟨fun h => ⟨hcanonical, h⟩, fun h => h.contains⟩

/-- The two points around a number that are tried are enough: what rounds to the number on either
side of it lies behind one of them. -/
theorem onGrid_spec : match onGrid .even m e g with
    | some x => x.exponent = g ∧ IsBestOnGrid x m e
    | none => ∀ k : Nat, ¬ RoundsTo (k * 10 ^ g) m e := by
  have hunit : (0 : ℚ) < 10 ^ g := by positivity
  have hself := roundsTo_self hcanonical
  unfold onGrid
  dsimp only
  have hten : 0 < 10 := Nat.succ_pos 9
  have hd := inUnits_pos hten (ratio m e).1 (ratio_pos m e) g
  have hquotient := inUnits_eq 10 (ratio m e).1 (ratio m e).2 g
  rw [ratio_eq, Nat.cast_ofNat] at hquotient
  generalize (inUnits 10 (ratio m e).1 (ratio m e).2 g).1 = n at hquotient ⊢
  generalize (inUnits 10 (ratio m e).1 (ratio m e).2 g).2 = d at hd hquotient ⊢
  have hfloor : ∀ k : Nat, k ≤ n / d ↔ (k : ℚ) * 10 ^ g ≤ m * 2 ^ e := by
    intro k
    rw [le_div_iff_of_pos hd, hquotient, le_div_iff₀ hunit]
  have hbelow : ∀ k : Nat, k ≤ n / d → RoundsTo (k * 10 ^ g) m e →
      RoundsTo ((n / d : Nat) * 10 ^ g) m e := by
    intro k hk hrounds
    have hk' : (k : ℚ) ≤ (n / d : Nat) := by exact_mod_cast hk
    exact hrounds.of_between hself (by gcongr) ((hfloor _).1 le_rfl)
  have habove : ∀ k : Nat, n / d + 1 ≤ k → RoundsTo (k * 10 ^ g) m e →
      RoundsTo ((n / d + 1 : Nat) * 10 ^ g) m e := by
    intro k hk hrounds
    have hk' : ((n / d + 1 : Nat) : ℚ) ≤ k := by exact_mod_cast hk
    have hlt : (m : ℚ) * 2 ^ e < (n / d + 1 : Nat) * 10 ^ g :=
      not_le.1 fun hle => absurd ((hfloor _).2 hle) (Nat.not_succ_le_self _)
    exact hself.of_between hrounds hlt.le (by gcongr)
  have hlow : ((n / d : Nat) : ℚ) ≤ m * 2 ^ e / 10 ^ g :=
    (le_div_iff₀ hunit).2 ((hfloor _).1 le_rfl)
  have hhigh : (m * 2 ^ e / 10 ^ g : ℚ) < (n / d + 1 : Nat) :=
    (div_lt_iff₀ hunit).2 <| not_le.1 fun hle =>
      absurd ((hfloor _).2 hle) (Nat.not_succ_le_self _)
  cases hlower : (interval m e).has e g (n / d) <;>
    cases hupper : (interval m e).has e g (n / d + 1) <;>
    simp only [← Bool.not_eq_true, has_iff_roundsTo hcanonical] at hlower hupper
  · intro k hrounds
    rcases Nat.lt_or_ge (n / d) k with hlt | hle
    · exact hupper (habove k hlt hrounds)
    · exact hlower (hbelow k hle hrounds)
  · refine ⟨rfl, isBestOnGrid_of_units hupper fun j hj hne => .inl ?_⟩
    have hgt : n / d + 1 < j :=
      Nat.lt_of_le_of_ne (Nat.not_le.1 fun hle => hlower (hbelow j hle hj)) (Ne.symm hne)
    have hgt' : ((n / d + 1 : Nat) : ℚ) < j := by exact_mod_cast hgt
    rw [abs_of_nonneg (by linarith), abs_of_nonneg (by linarith)]
    linarith
  · refine ⟨rfl, isBestOnGrid_of_units hlower fun j hj hne => .inl ?_⟩
    have hlt : j < n / d :=
      Nat.lt_of_le_of_ne (Nat.not_lt.1 fun hlt => hupper (habove j hlt hj)) hne
    have hlt' : (j : ℚ) < (n / d : Nat) := by exact_mod_cast hlt
    rw [abs_of_nonpos (by linarith), abs_of_nonpos (by linarith)]
    linarith
  · refine ⟨rfl, isBestOnGrid_of_units ?_ fun j _ hne => ?_⟩
    · rcases divNearest_eq_or .even n d with heq | heq
      · rwa [heq]
      · rwa [heq]
    · rw [← hquotient]
      exact (isNearest_divNearest n hd).nearer hne

end Grid

/-! ### The coarsest grid -/

/-- A decimal that rounds to a number on the coarsest grid that has any, and none on that grid is
better. -/
structure IsShortestOf (x : Decimal) (m : Nat) (e : Int) : Prop extends IsBestOnGrid x m e where
  coarsest : ∀ y : Decimal, RoundsTo y.value m e → y.exponent ≤ x.exponent

/-! ### Grids that are coarser than the last place -/

section Spacing

variable {g : Int} (hspace : (2 : ℚ) ^ e < 10 ^ g)

include hspace

theorem eq_of_spacing {j k : Nat} (hj : RoundsTo (j * 10 ^ g) m e)
    (hk : RoundsTo (k * 10 ^ g) m e) : j = k := by
  have hunit : (0 : ℚ) < 10 ^ g := by positivity
  have hle : ∀ {j k : Nat}, RoundsTo (j * 10 ^ g) m e → RoundsTo (k * 10 ^ g) m e → j ≤ k := by
    intro j k hj hk
    have hwidth := hk.sub_le hj (by positivity) (by positivity)
    rw [← sub_mul] at hwidth
    have hlt : ((j : ℚ) - k) * 10 ^ g < 1 * 10 ^ g := by linarith
    have hlt' : (j : ℚ) < k + 1 := by linarith [lt_of_mul_lt_mul_right hlt hunit.le]
    exact Nat.lt_succ_iff.1 (by exact_mod_cast hlt')
  exact Nat.le_antisymm (hle hj hk) (hle hk hj)

/-- What rounds to a number on such a grid is its shortest decimal, once zeros at the end are
stripped. -/
theorem isShortestOf_of_spacing {x : Decimal} (hg : g ≤ x.exponent) (hmod : x.digits % 10 ≠ 0)
    (hx : RoundsTo x.value m e) : IsShortestOf x m e := by
  have hsame : ∀ y : Decimal, RoundsTo y.value m e → g ≤ y.exponent → y.value = x.value := by
    intro y hy hexp
    obtain ⟨j, hj⟩ := Decimal.exists_value_eq hexp
    obtain ⟨k, hk⟩ := Decimal.exists_value_eq hg
    have hyj : RoundsTo (j * 10 ^ g) m e := hj ▸ hy
    have hxk : RoundsTo (k * 10 ^ g) m e := hk ▸ hx
    rw [hj, hk, eq_of_spacing hspace hyj hxk]
  refine ⟨⟨hx, fun y hy hexp => .inl ?_⟩, fun y hy => Int.not_lt.1 fun hgt => ?_⟩
  · exact Decimal.eq_of_value hexp (hsame y hy (by omega))
  · exact Decimal.value_ne_of_mod_ten hmod hgt (hsame y hy (by omega)).symm

end Spacing

/-! ### Numbers that fill 53 bits -/

theorem roundsTo_of_lt (h : IsCanonical m e) (ha : 0 ≤ a) (hlow : (m : ℚ) - reach m e < a / 2 ^ e)
    (hhigh : a / 2 ^ e < m + 1 / 2) : RoundsTo a m e := by
  refine ⟨h, (contains_interval_iff (by positivity)).2 ?_⟩
  split
  · exact ⟨hlow.le, hhigh.le⟩
  · exact ⟨hlow, hhigh⟩

theorem div_eq_add (m : Nat) (a : ℚ) : a / 2 ^ e = m + (a - m * 2 ^ e) / 2 ^ e := by
  rw [sub_div, mul_div_cancel_right₀ _ (zpow_pos two_pos e).ne']
  ring

theorem roundsTo_of_above (h : IsCanonical m e) (hlow : m * 2 ^ e < a)
    (hhigh : a - m * 2 ^ e < 2 ^ e / 2) : RoundsTo a m e := by
  have hlast : (0 : ℚ) < 2 ^ e := by positivity
  have hpos : 0 < (a - m * 2 ^ e) / 2 ^ e := div_pos (by linarith) hlast
  have hhalf : (a - m * 2 ^ e) / 2 ^ e < 1 / 2 := by
    rw [div_lt_iff₀ hlast]
    linarith
  have hreach : 0 ≤ reach m e := by
    unfold reach
    split <;> norm_num
  have ha : 0 ≤ a := le_trans (by positivity) hlow.le
  apply roundsTo_of_lt h ha <;> rw [div_eq_add m] <;> linarith

theorem roundsTo_of_below (h : IsCanonical m e) (hm : m ≠ 2 ^ 52) (ha : 0 ≤ a)
    (hhigh : a ≤ m * 2 ^ e) (hlow : m * 2 ^ e - a < 2 ^ e / 2) : RoundsTo a m e := by
  have hlast : (0 : ℚ) < 2 ^ e := by positivity
  have hneg : (a - m * 2 ^ e) / 2 ^ e ≤ 0 :=
    div_nonpos_of_nonpos_of_nonneg (by linarith) hlast.le
  have hhalf : -(1 / 2 : ℚ) < (a - m * 2 ^ e) / 2 ^ e := by
    rw [lt_div_iff₀ hlast]
    linarith
  have hreach := reach_of_ne (e := e) hm
  apply roundsTo_of_lt h ha <;> rw [div_eq_add m] <;> linarith

/-- A grid that is finer than the last place has a point that rounds to the number; at a power of
two, one that is finer than half of it. -/
theorem exists_roundsTo_on_grid (h : IsCanonical m e) {g : Int}
    (hg : (10 : ℚ) ^ g < 2 ^ e) (hpower : m = 2 ^ 52 → (10 : ℚ) ^ g < 2 ^ e / 2) :
    ∃ k : Nat, RoundsTo (k * 10 ^ g) m e := by
  have hunit : (0 : ℚ) < 10 ^ g := by positivity
  have hlow := Nat.floor_le (show (0 : ℚ) ≤ m * 2 ^ e / 10 ^ g by positivity)
  have hhigh := Nat.lt_floor_add_one ((m : ℚ) * 2 ^ e / 10 ^ g)
  generalize ⌊(m : ℚ) * 2 ^ e / 10 ^ g⌋₊ = k at hlow hhigh
  rw [le_div_iff₀ hunit] at hlow
  rw [div_lt_iff₀ hunit] at hhigh
  by_cases hnear : m = 2 ^ 52 ∨ (10 : ℚ) ^ g < 2 * (m * 2 ^ e - k * 10 ^ g)
  · -- the point above is less than half of the last place away
    refine ⟨k + 1, roundsTo_of_above h ?_ ?_⟩
    · push_cast
      linarith
    · push_cast
      rcases hnear with hm | hfar
      · linarith [hpower hm]
      · linarith
  · obtain ⟨hm, hle⟩ := not_or.1 hnear
    exact ⟨k, roundsTo_of_below h hm (by positivity) hlow (by linarith)⟩

theorem exists_roundsTo_seventeen (hcanonical : IsCanonical m e) {top : Int}
    (hlow : (10 : ℚ) ^ top ≤ m * 2 ^ e) : ∃ k : Nat, RoundsTo (k * 10 ^ (top - 16)) m e := by
  have hlast : (0 : ℚ) < 2 ^ e := by positivity
  have hpow : (10 : ℚ) ^ top = 10 ^ (top - 16) * 10 ^ 16 := by
    rw [← zpow_natCast, ← zpow_add₀ (by norm_num)]
    congr 1
    omega
  rw [hpow] at hlow
  have hm : (m : ℚ) * 2 ^ e < 2 ^ 53 * 2 ^ e := by
    gcongr
    exact_mod_cast hcanonical.lt
  refine exists_roundsTo_on_grid hcanonical (by linarith) fun hpower => ?_
  rw [hpower] at hlow
  push_cast at hlow
  linarith

theorem RoundsTo.halves (h : RoundsTo a m e) (ha : 0 ≤ a) (hpos : 0 < m) :
    m * 2 ^ e / 2 ≤ a ∧ a ≤ 2 * (m * 2 ^ e) := by
  obtain ⟨hlow, hhigh⟩ := h.bounds ha
  have hreach := reach_le m e
  have hlast : (0 : ℚ) < 2 ^ e := by positivity
  have hone : (1 : ℚ) ≤ m := by exact_mod_cast hpos
  have hvalue : a = a / 2 ^ e * 2 ^ e := (div_mul_unit a e).symm
  constructor
  · calc (m : ℚ) * 2 ^ e / 2 = m / 2 * 2 ^ e := by ring
      _ ≤ a / 2 ^ e * 2 ^ e := mul_le_mul_of_nonneg_right (by linarith) hlast.le
      _ = a := hvalue.symm
  · calc a = a / 2 ^ e * 2 ^ e := hvalue
      _ ≤ 2 * m * 2 ^ e := mul_le_mul_of_nonneg_right (by linarith) hlast.le
      _ = 2 * (m * 2 ^ e) := by ring

section Positive

variable (hcanonical : IsCanonical m e) (hpos : 0 < m) {top : Int}

include hpos in
theorem digits_bounds {x : Decimal} (hlow : (10 : ℚ) ^ top ≤ m * 2 ^ e)
    (hhigh : (m : ℚ) * 2 ^ e < 10 ^ (top + 1)) (hfine : top - 16 ≤ x.exponent)
    (hx : RoundsTo x.value m e) : x.digits ≠ 0 ∧ x.digits < 10 ^ 20 := by
  have hunit : (0 : ℚ) < 10 ^ x.exponent := by positivity
  have hvalue : 0 ≤ x.value := by
    unfold Decimal.value
    positivity
  obtain ⟨hbelow, habove⟩ := hx.halves hvalue hpos
  have htop : (0 : ℚ) < 10 ^ top := by positivity
  constructor
  · intro hzero
    have hnone : x.value = 0 := by simp [Decimal.value, hzero]
    linarith
  · have hpow : (10 : ℚ) ^ top ≤ 10 ^ 16 * 10 ^ x.exponent := by
      rw [← zpow_natCast, ← zpow_add₀ (by norm_num)]
      exact zpow_le_zpow_right₀ (by norm_num) (by push_cast; omega)
    have hlt : (x.digits : ℚ) * 10 ^ x.exponent < 10 ^ 20 * 10 ^ x.exponent := by
      rw [zpow_add_one₀ (by norm_num)] at hhigh
      change x.value < _
      linarith
    exact_mod_cast lt_of_mul_lt_mul_right hlt hunit.le

include hcanonical hpos

/-- What is found on the first grid that has a point: the next coarser grid has none, unless the
first grid was the coarsest that is tried. -/
theorem exists_bestOnGrid : ∃ x, shortest .even m e = Decimal.stripZeros 20 x ∧
    IsBestOnGrid x m e ∧ x.digits ≠ 0 ∧ x.digits < 10 ^ 20 ∧
    ((m : ℚ) * 2 ^ e < 10 ^ (x.exponent + 1) ∨
      ∀ k : Nat, ¬ RoundsTo (k * 10 ^ (x.exponent + 1)) m e) := by
  have hnum : 0 < (ratio m e).1 := by
    have hquotient : (0 : ℚ) < (ratio m e).1 / (ratio m e).2 := by
      rw [ratio_eq]
      positivity
    exact Nat.pos_of_ne_zero fun hzero => by simp [hzero] at hquotient
  obtain ⟨hlow, hhigh⟩ := Decimal.magnitude_spec hnum (ratio_pos m e)
  rw [ratio_eq] at hlow hhigh
  unfold shortest
  dsimp only
  generalize Decimal.magnitude (ratio m e).1 (ratio m e).2 = top at hlow hhigh ⊢
  rw [List.findSome?_map]
  cases hfind : (List.range 17).findSome? (onGrid .even m e ∘ fun k : Nat => top - k) with
  | none =>
    have hnone : onGrid .even m e (top - 16) = none :=
      List.findSome?_eq_none_iff.1 hfind 16 (List.mem_range.2 (by decide))
    have hspec := onGrid_spec hcanonical (top - 16)
    rw [hnone] at hspec
    obtain ⟨k, hk⟩ := exists_roundsTo_seventeen hcanonical hlow
    exact absurd hk (hspec k)
  | some x =>
    obtain ⟨k, hk, hfound, hbefore⟩ := findSome?_range hfind
    have hspec := onGrid_spec hcanonical (top - k)
    rw [Function.comp_apply] at hfound
    rw [hfound] at hspec
    obtain ⟨hexp, hbest⟩ := hspec
    obtain ⟨hne, hlt⟩ := digits_bounds hpos hlow hhigh (by omega) hbest.roundsTo
    refine ⟨x, rfl, hbest, hne, hlt, ?_⟩
    rcases Nat.eq_zero_or_pos k with rfl | hmore
    · left
      rwa [hexp, Nat.cast_zero, sub_zero]
    · right
      have hnone := hbefore (k - 1) (by omega)
      have hcoarser := onGrid_spec hcanonical (x.exponent + 1)
      have hgrid : top - ((k - 1 : Nat) : Int) = x.exponent + 1 := by omega
      rw [Function.comp_apply, hgrid] at hnone
      rwa [hnone] at hcoarser

theorem shortest_spec : RoundsTo (shortest .even m e).value m e ∧
    (shortest .even m e).digits % 10 ≠ 0 := by
  obtain ⟨x, heq, hbest, hne, hlt, -⟩ := exists_bestOnGrid hcanonical hpos
  rw [heq]
  exact ⟨(Decimal.value_stripZeros 20 x).symm ▸ hbest.roundsTo,
    Decimal.stripZeros_mod_ten hne hlt⟩

end Positive

section Full

variable (hcanonical : IsCanonical m e) (hfull : 2 ^ 52 ≤ m)

include hfull in
theorem last_place_lt {g : Int} (hhigh : (m : ℚ) * 2 ^ e < 10 ^ (g + 1)) :
    (2 : ℚ) ^ e < 10 ^ g := by
  have hlast : (0 : ℚ) < 2 ^ e := by positivity
  have hle : (2 : ℚ) ^ 52 * 2 ^ e ≤ m * 2 ^ e := by
    gcongr
    exact_mod_cast hfull
  rw [zpow_add_one₀ (by norm_num)] at hhigh
  linarith

include hcanonical hfull in
/-- The shortest decimal is on the coarsest grid that has any, and the best one there. -/
theorem isShortestOf_shortest : IsShortestOf (shortest .even m e) m e := by
  have hpos : 0 < m := lt_of_lt_of_le (by norm_num) hfull
  obtain ⟨hrounds, hmod⟩ := shortest_spec hcanonical hpos
  obtain ⟨x, heq, hbest, -, -, hlast | hnone⟩ := exists_bestOnGrid hcanonical hpos
  · refine isShortestOf_of_spacing (last_place_lt hfull hlast) ?_ hmod hrounds
    rw [heq]
    exact Decimal.exponent_le_stripZeros 20 x
  · have hkept : x.digits % 10 ≠ 0 := fun hzero =>
      hnone _ (Decimal.value_of_mod_ten hzero ▸ hbest.roundsTo)
    rw [heq, Decimal.stripZeros_of_mod_ten hkept]
    refine ⟨hbest, fun y hy => Int.not_lt.1 fun hgt => ?_⟩
    obtain ⟨k, hk⟩ := Decimal.exists_value_eq (x := y) (g := x.exponent + 1) hgt
    exact hnone k (hk ▸ hy)

include hfull in
/-- Decimals of fifteen digits lie on grids that are coarser than the last place. -/
theorem isShortestOf_of_digits_lt {x : Decimal} (hmod : x.digits % 10 ≠ 0)
    (hlt : x.digits < 10 ^ 15) (hx : RoundsTo x.value m e) : IsShortestOf x m e := by
  refine isShortestOf_of_spacing ?_ le_rfl hmod hx
  have hlast : (0 : ℚ) < 2 ^ e := by positivity
  have hunit : (0 : ℚ) < 10 ^ x.exponent := by positivity
  have hvalue : 0 ≤ x.value := by
    unfold Decimal.value
    positivity
  have hbelow := hx.sub_le (roundsTo_self hx.canonical) hvalue (by positivity)
  have hfull' : (2 : ℚ) ^ 52 * 2 ^ e ≤ m * 2 ^ e := by
    gcongr
    exact_mod_cast hfull
  have hdigits : x.value < 10 ^ 15 * 10 ^ x.exponent := by
    unfold Decimal.value
    gcongr
    exact_mod_cast hlt
  linarith

end Full

theorem IsShortestOf.eq {x y : Decimal} (hx : IsShortestOf x m e) (hy : IsShortestOf y m e) :
    x = y := by
  have hexp : x.exponent = y.exponent :=
    Int.le_antisymm (hy.coarsest x hx.roundsTo) (hx.coarsest y hy.roundsTo)
  have hself := roundsTo_self hx.roundsTo.canonical
  rcases hx.nearest y hy.roundsTo hexp.symm with heq | hnear
  · exact heq.symm
  rcases hy.nearest x hx.roundsTo hexp with heq | hnear'
  · exact heq
  obtain ⟨hdistance, hevenX, hevenY⟩ : |x.value - m * 2 ^ e| = |y.value - m * 2 ^ e| ∧
      x.digits % 2 = 0 ∧ y.digits % 2 = 0 := by
    rcases hnear with hlt | ⟨heq, heven⟩ <;> rcases hnear' with hlt' | ⟨heq', heven'⟩
    · exact absurd hlt' hlt.asymm
    · exact absurd heq' hlt.ne'
    · exact absurd heq hlt'.ne'
    · exact ⟨heq, heven, heven'⟩
  rcases abs_eq_abs.1 hdistance with hsame | hopposite
  · exact Decimal.eq_of_value hexp (by linarith)
  · -- then the number itself lies halfway between the two, on the grid
    obtain ⟨z, hzexp, hzvalue⟩ := Decimal.exists_midpoint hexp hevenX hevenY
    have hz : z.value = m * 2 ^ e := by linarith
    have hzero : |x.value - m * 2 ^ e| ≤ |z.value - m * 2 ^ e| := by
      rcases hx.nearest z (hz ▸ hself) hzexp with rfl | hlt | ⟨heq, -⟩
      · exact le_rfl
      · exact hlt.le
      · exact heq.le
    rw [hz, sub_self, abs_zero] at hzero
    have hexact : x.value - m * 2 ^ e = 0 := abs_eq_zero.1 (le_antisymm hzero (abs_nonneg _))
    exact Decimal.eq_of_value hexp (by linarith)

theorem shortest_eq_iff (hcanonical : IsCanonical m e) (hfull : 2 ^ 52 ≤ m) {x : Decimal} :
    shortest .even m e = x ↔ IsShortestOf x m e := by
  have h := isShortestOf_shortest hcanonical hfull
  exact ⟨fun heq => heq ▸ h, h.eq⟩

theorem RoundsTo.full (h : RoundsTo a m e) (ha : (2 : ℚ) ^ (-1022 : Int) ≤ a) : 2 ^ 52 ≤ m := by
  rcases h.canonical.least.lt_or_eq with hlt | heq
  · exact h.canonical.full hlt
  · have hpow : (2 : ℚ) ^ (-1022 : Int) = 2 ^ 52 * 2 ^ e := by
      rw [← heq, ← zpow_natCast, ← zpow_add₀ two_ne_zero]
      rfl
    have hle : (2 : ℚ) ^ 52 ≤ a / 2 ^ e := by
      rw [le_div_iff₀ (by positivity), ← hpow]
      exact ha
    have hbound := (h.bounds ((zpow_pos two_pos _).le.trans ha)).2
    have hlt : (2 : ℚ) ^ 52 < m + 1 := by linarith
    exact Nat.lt_succ_iff.1 (by exact_mod_cast hlt)

end Binary64

namespace Decimal

open Binary64

/-- A decimal that is the shortest for the number that it rounds to. -/
def IsShortest (x : Decimal) : Prop := ∃ m e, IsShortestOf x m e

theorem digits_stripZeros_le (fuel : Nat) (x : Decimal) :
    (stripZeros fuel x).digits ≤ x.digits := by
  induction fuel generalizing x with
  | zero => exact le_rfl
  | succ fuel ih =>
    rw [stripZeros]
    split
    · exact (ih _).trans (Nat.div_le_self _ _)
    · exact le_rfl

theorem exists_isShortest {x : Decimal} (hlt : x.digits < 10 ^ 15)
    (hleast : (2 : ℚ) ^ (-1022 : Int) ≤ x.value) :
    ∃ y : Decimal, y.value = x.value ∧ y.digits % 10 ≠ 0 ∧ y.IsShortest := by
  have hne : x.digits ≠ 0 := by
    intro hzero
    rw [value_eq_zero_iff.2 hzero] at hleast
    exact absurd hleast (not_le.2 (zpow_pos two_pos _))
  obtain ⟨m, e, hrounds, -⟩ := exists_roundsTo hne
  have hvalue := value_stripZeros 20 x
  have hmod := stripZeros_mod_ten hne (hlt.trans (by norm_num) : x.digits < 10 ^ 20)
  have hdigits := (digits_stripZeros_le 20 x).trans_lt hlt
  exact ⟨_, hvalue, hmod, m, e,
    isShortestOf_of_digits_lt (hrounds.full hleast) hmod hdigits (hvalue.symm ▸ hrounds)⟩

end Decimal

end Conformance
