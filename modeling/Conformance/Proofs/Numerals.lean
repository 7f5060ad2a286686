import Mathlib.Data.List.TakeDrop
import Conformance.Number.Text
import Conformance.Proofs.ShortestDecimal

/-!
# Numerals with a point

A numeral has digits on both sides of its point. Of the numerals of one value just one is canonical,
with no digit too many on either side (`Numeral.eq_of_value`), and a number that is printed in full
is printed as the canonical numeral of its shortest decimal: `Numeral.write_eq_text_iff`.
-/

namespace Conformance

/-! ### Digits -/

/-- One digit or more. -/
structure IsDigits (s : List Char) : Prop where
  ne_nil : s ≠ []
  isDigit : ∀ c ∈ s, c.isDigit = true

theorem isDigits_zero : IsDigits ['0'] where
  ne_nil := List.cons_ne_nil _ _
  isDigit := List.forall_mem_singleton.2 rfl

/-- The number that digits spell. -/
def numberOf (s : List Char) : Nat := Nat.ofDigitChars 10 s 0

theorem ofDigitChars_eq (s : List Char) (n : Nat) :
    Nat.ofDigitChars 10 s n = n * 10 ^ s.length + numberOf s := by
  induction s generalizing n with
  | nil => simp [Nat.ofDigitChars, numberOf]
  | cons c s ih =>
    rw [numberOf, Nat.ofDigitChars_cons, Nat.ofDigitChars_cons, ih, ih (10 * 0 + _),
      List.length_cons, pow_succ]
    ring

theorem numberOf_append (s t : List Char) :
    numberOf (s ++ t) = numberOf s * 10 ^ t.length + numberOf t := by
  rw [numberOf, Nat.ofDigitChars_append, ofDigitChars_eq]
  rfl

theorem numberOf_singleton (c : Char) : numberOf [c] = c.toNat - '0'.toNat := by
  simp [numberOf, Nat.ofDigitChars]

@[simp] theorem numberOf_nil : numberOf [] = 0 := rfl

theorem numberOf_toDigits (n : Nat) : numberOf (Nat.toDigits 10 n) = n :=
  Nat.ofDigitChars_ten_toDigits

theorem isDigit_iff {c : Char} : c.isDigit = true ↔ '0'.toNat ≤ c.toNat ∧ c.toNat ≤ '9'.toNat := by
  simp only [Char.isDigit, Bool.and_eq_true, decide_eq_true_eq]
  exact Iff.rfl

theorem numberOf_replicate_zero (k : Nat) : numberOf (List.replicate k '0') = 0 := by
  induction k with
  | zero => rfl
  | succ k ih =>
    rw [List.replicate_succ', numberOf_append, ih, numberOf_singleton]
    simp

theorem numberOf_lt {s : List Char} (h : ∀ c ∈ s, c.isDigit = true) :
    numberOf s < 10 ^ s.length := by
  induction s using List.reverseRecOn with
  | nil => simp
  | append_singleton s c ih =>
    have hs := ih fun d hd => h d (by simp [hd])
    have hc := (isDigit_iff.1 (h c (by simp))).2
    rw [numberOf_append, numberOf_singleton, List.length_append, List.length_singleton, pow_succ]
    have hnine : '9'.toNat = '0'.toNat + 9 := rfl
    omega

theorem eq_of_numberOf {s t : List Char} (hs : ∀ c ∈ s, c.isDigit = true)
    (ht : ∀ c ∈ t, c.isDigit = true) (hlength : s.length = t.length)
    (h : numberOf s = numberOf t) : s = t := by
  induction s using List.reverseRecOn generalizing t with
  | nil => exact (List.length_eq_zero_iff.1 hlength.symm).symm
  | append_singleton s c ih =>
    cases t using List.reverseRecOn with
    | nil => simp at hlength
    | append_singleton t d =>
      have hc := isDigit_iff.1 (hs c (by simp))
      have hd := isDigit_iff.1 (ht d (by simp))
      rw [numberOf_append, numberOf_append, numberOf_singleton, numberOf_singleton] at h
      simp only [List.length_append, List.length_singleton, Nat.add_right_cancel_iff,
        pow_one] at hlength h
      have hnine : '9'.toNat = '0'.toNat + 9 := rfl
      have hst := ih (fun c hc => hs c (by simp [hc])) (fun c hc => ht c (by simp [hc])) hlength
        (by omega)
      have hcd : c = d := Char.toNat_inj.1 (by omega)
      rw [hst, hcd]

theorem numberOf_cons (c : Char) (s : List Char) :
    numberOf (c :: s) = (c.toNat - '0'.toNat) * 10 ^ s.length + numberOf s := by
  rw [← List.singleton_append, numberOf_append, numberOf_singleton]

theorem pow_le_numberOf {c : Char} {s : List Char} (hc : c.isDigit = true) (hne : c ≠ '0') :
    10 ^ s.length ≤ numberOf (c :: s) := by
  have hpos : 1 ≤ c.toNat - '0'.toNat := by
    have hzero : c.toNat ≠ '0'.toNat := fun h => hne (Char.toNat_inj.1 h)
    have hle := (isDigit_iff.1 hc).1
    omega
  rw [numberOf_cons]
  exact (Nat.le_mul_of_pos_left _ hpos).trans (Nat.le_add_right _ _)

theorem isDigits_toDigits (n : Nat) : IsDigits (Nat.toDigits 10 n) :=
  ⟨Nat.toDigits_ne_nil, fun _ hc => Nat.isDigit_of_mem_toDigits (by decide) (by decide) hc⟩

/-- A digit string that is a lone zero or begins with another digit is what its number prints as. -/
theorem toDigits_numberOf {s : List Char} (hs : IsDigits s)
    (h : s = ['0'] ∨ s.head? ≠ some '0') : Nat.toDigits 10 (numberOf s) = s := by
  rcases h with rfl | hhead
  · rfl
  · cases s with
    | nil => exact absurd rfl hs.ne_nil
    | cons c s =>
      have hc : c ≠ '0' := fun heq => hhead (congrArg some heq)
      have hlow := pow_le_numberOf (s := s) (hs.isDigit c List.mem_cons_self) hc
      have hhigh := numberOf_lt hs.isDigit
      have hlength : (Nat.toDigits 10 (numberOf (c :: s))).length = (c :: s).length := by
        apply Nat.le_antisymm
        · exact (Nat.length_toDigits_le_iff (by decide) (by simp)).2 hhigh
        · by_contra hlt
          have hle : (Nat.toDigits 10 (numberOf (c :: s))).length ≤ s.length := by
            simpa using Nat.lt_succ_iff.1 (Nat.not_le.1 hlt)
          have hpos : 0 < s.length := Nat.length_toDigits_pos.trans_le hle
          exact absurd ((Nat.length_toDigits_le_iff (by decide) hpos).1 hle) (Nat.not_lt.2 hlow)
      exact eq_of_numberOf (isDigits_toDigits _).isDigit hs.isDigit hlength (numberOf_toDigits _)

theorem head?_toDigits {n : Nat} (h : 0 < n) : (Nat.toDigits 10 n).head? ≠ some '0' := by
  intro hhead
  obtain ⟨s, hs⟩ := List.head?_eq_some_iff.1 hhead
  have hn := numberOf_toDigits n
  have hlow := Decimal.pow_length_toDigits_le h
  have hdigits := (isDigits_toDigits n).isDigit
  rw [hs] at hn hlow hdigits
  rw [numberOf_cons, Nat.sub_self, Nat.zero_mul, Nat.zero_add] at hn
  have hhigh := numberOf_lt fun c hc => hdigits c (List.mem_cons_of_mem _ hc)
  rw [hn] at hhigh
  exact absurd hlow (Nat.not_le.2 hhigh)

theorem getLast?_toDigits {n : Nat} (h : n % 10 ≠ 0) :
    (Nat.toDigits 10 n).getLast? ≠ some '0' := by
  intro hlast
  obtain ⟨s, hs⟩ := List.getLast?_eq_some_iff.1 hlast
  have hn := numberOf_toDigits n
  rw [hs, numberOf_append, numberOf_singleton] at hn
  have hten : numberOf s * 10 = n := by simpa using hn
  omega

/-! ### Numerals -/

/-- Digits on both sides of a point. -/
structure Numeral where
  whole : List Char
  fraction : List Char
  whole_digits : IsDigits whole
  fraction_digits : IsDigits fraction

namespace Numeral

def text (n : Numeral) : List Char := n.whole ++ '.' :: n.fraction

def decimal (n : Numeral) : Decimal := ⟨numberOf (n.whole ++ n.fraction), -n.fraction.length⟩

def value (n : Numeral) : ℚ := n.decimal.value

/-- No zero too many: before the point none in front of another digit, behind it none at the end
unless it stands alone. -/
structure IsCanonical (n : Numeral) : Prop where
  whole : n.whole = ['0'] ∨ n.whole.head? ≠ some '0'
  fraction : n.fraction = ['0'] ∨ n.fraction.getLast? ≠ some '0'

variable {n k : Numeral}

theorem value_eq (n : Numeral) :
    n.value = numberOf n.whole + numberOf n.fraction / 10 ^ n.fraction.length := by
  rw [value, Decimal.value, decimal, numberOf_append, zpow_neg, zpow_natCast]
  push_cast
  field_simp

theorem value_bounds (n : Numeral) :
    (numberOf n.whole : ℚ) ≤ n.value ∧ n.value < numberOf n.whole + 1 := by
  have hlt : (numberOf n.fraction : ℚ) / 10 ^ n.fraction.length < 1 := by
    rw [div_lt_one (by positivity)]
    exact_mod_cast numberOf_lt n.fraction_digits.isDigit
  have hpos : (0 : ℚ) ≤ numberOf n.fraction / 10 ^ n.fraction.length := by positivity
  rw [value_eq]
  constructor <;> linarith

theorem numberOf_whole_le (h : n.value = k.value) : numberOf n.whole ≤ numberOf k.whole := by
  have hlt : (numberOf n.whole : ℚ) < numberOf k.whole + 1 :=
    calc (numberOf n.whole : ℚ) ≤ n.value := n.value_bounds.1
      _ = k.value := h
      _ < numberOf k.whole + 1 := k.value_bounds.2
  exact Nat.lt_succ_iff.1 (by exact_mod_cast hlt)

/-- Of equal fractions, the longer one is the shorter one with zeros at its end. -/
theorem fraction_eq (hk : k.IsCanonical) (hle : n.fraction.length ≤ k.fraction.length)
    (h : (numberOf n.fraction / 10 ^ n.fraction.length : ℚ) =
      numberOf k.fraction / 10 ^ k.fraction.length) : n.fraction = k.fraction := by
  obtain ⟨j, hj⟩ := Nat.exists_eq_add_of_le hle
  have hpadded : numberOf k.fraction = numberOf (n.fraction ++ List.replicate j '0') := by
    rw [numberOf_append, numberOf_replicate_zero, List.length_replicate, Nat.add_zero]
    rw [hj, pow_add, div_eq_div_iff (by positivity) (by positivity)] at h
    have hunit : (10 : ℚ) ^ n.fraction.length ≠ 0 := by positivity
    have heq : (numberOf k.fraction : ℚ) = numberOf n.fraction * 10 ^ j := by
      apply mul_right_cancel₀ hunit
      rw [← h]
      ring
    exact_mod_cast heq
  have hsame : k.fraction = n.fraction ++ List.replicate j '0' := by
    refine eq_of_numberOf k.fraction_digits.isDigit ?_ (by simp [hj]) hpadded
    intro c hc
    rcases List.mem_append.1 hc with hc | hc
    · exact n.fraction_digits.isDigit c hc
    · rw [List.eq_of_mem_replicate hc]
      decide
  cases j with
  | zero => simpa using hsame.symm
  | succ j =>
    have hlast : k.fraction.getLast? = some '0' := by
      rw [hsame, List.replicate_succ', ← List.append_assoc, List.getLast?_concat]
    rcases hk.fraction with hzero | hne
    · have hlength := congrArg List.length hsame
      have hpos := List.length_pos_of_ne_nil n.fraction_digits.ne_nil
      rw [hzero] at hlength
      simp only [List.length_append, List.length_replicate, List.length_singleton] at hlength
      omega
    · exact absurd hlast hne

/-- Just one numeral of a value is canonical. -/
theorem eq_of_value (hn : n.IsCanonical) (hk : k.IsCanonical) (h : n.value = k.value) : n = k := by
  have hnumber := Nat.le_antisymm (numberOf_whole_le h) (numberOf_whole_le h.symm)
  have hwhole : n.whole = k.whole := by
    rw [← toDigits_numberOf n.whole_digits hn.whole, hnumber,
      toDigits_numberOf k.whole_digits hk.whole]
  have hrest : (numberOf n.fraction / 10 ^ n.fraction.length : ℚ) =
      numberOf k.fraction / 10 ^ k.fraction.length := by
    rw [value_eq, value_eq, hnumber] at h
    exact add_left_cancel h
  have hfraction : n.fraction = k.fraction := by
    rcases Nat.le_total n.fraction.length k.fraction.length with hle | hle
    · exact fraction_eq hk hle hrest
    · exact (fraction_eq hn hle hrest.symm).symm
  cases n
  cases k
  simp_all

/-! ### Digits in full -/

theorem value_of_numberOf {x : Decimal} {j : Nat} (hexp : x.exponent = j - n.fraction.length)
    (h : numberOf (n.whole ++ n.fraction) = x.digits * 10 ^ j) : n.value = x.value := by
  rw [value, Decimal.value, Decimal.value, decimal, hexp, h, sub_eq_add_neg,
    zpow_add₀ (by norm_num), zpow_natCast]
  push_cast
  ring

theorem isDigit_of_mem_zeros {j : Nat} {c : Char} (h : c ∈ List.replicate j '0') :
    c.isDigit = true := by
  rw [List.eq_of_mem_replicate h]
  decide

section Positional

variable {x : Decimal} {s : List Char} (hdigits : IsDigits s) (hnumber : numberOf s = x.digits)

include hdigits hnumber

theorem exists_of_fraction {k : Nat} (hexp : x.exponent + s.length = -(k : Int))
    (hlast : s.getLast? ≠ some '0') : ∃ n : Numeral, n.IsCanonical ∧ n.value = x.value ∧
      '0' :: '.' :: (List.replicate k '0' ++ s) = n.text := by
  have hfraction : IsDigits (List.replicate k '0' ++ s) := by
    refine ⟨by simp [hdigits.ne_nil], fun c hc => ?_⟩
    rcases List.mem_append.1 hc with hc | hc
    · exact isDigit_of_mem_zeros hc
    · exact hdigits.isDigit c hc
  refine ⟨⟨['0'], _, isDigits_zero, hfraction⟩, ⟨.inl rfl, .inr ?_⟩, ?_, rfl⟩
  · rwa [List.getLast?_append_of_ne_nil _ hdigits.ne_nil]
  · apply value_of_numberOf (j := 0)
    · simp only [List.length_append, List.length_replicate]
      omega
    · rw [← List.append_assoc, numberOf_append, numberOf_append, numberOf_replicate_zero, hnumber,
        numberOf_singleton]
      simp

theorem exists_of_split {k : Nat} (hexp : x.exponent + s.length = k) (hpos : 0 < k)
    (hlt : k < s.length) (hhead : s.head? ≠ some '0') (hlast : s.getLast? ≠ some '0') :
    ∃ n : Numeral, n.IsCanonical ∧ n.value = x.value ∧ s.take k ++ '.' :: s.drop k = n.text := by
  have hwhole : IsDigits (s.take k) :=
    ⟨List.ne_nil_of_length_pos (by simp; omega),
      fun c hc => hdigits.isDigit c (List.mem_of_mem_take hc)⟩
  have hfraction : IsDigits (s.drop k) :=
    ⟨by simpa using hlt, fun c hc => hdigits.isDigit c (List.mem_of_mem_drop hc)⟩
  refine ⟨⟨s.take k, s.drop k, hwhole, hfraction⟩, ⟨.inr ?_, .inr ?_⟩, ?_, rfl⟩
  · rwa [List.head?_take, if_neg (by omega)]
  · rwa [List.getLast?_drop, if_neg (by omega)]
  · apply value_of_numberOf (j := 0)
    · simp only [List.length_drop]
      omega
    · simp [hnumber]

theorem exists_of_whole {k : Nat} (hexp : x.exponent + s.length = k) (hle : s.length ≤ k)
    (hhead : s.head? ≠ some '0') : ∃ n : Numeral, n.IsCanonical ∧ n.value = x.value ∧
      s ++ List.replicate (k - s.length) '0' ++ '.' :: ['0'] = n.text := by
  have hwhole : IsDigits (s ++ List.replicate (k - s.length) '0') := by
    refine ⟨by simp [hdigits.ne_nil], fun c hc => ?_⟩
    rcases List.mem_append.1 hc with hc | hc
    · exact hdigits.isDigit c hc
    · exact isDigit_of_mem_zeros hc
  refine ⟨⟨_, ['0'], hwhole, isDigits_zero⟩, ⟨.inr ?_, .inl rfl⟩, ?_, rfl⟩
  · rwa [List.head?_append_of_ne_nil _ hdigits.ne_nil]
  · apply value_of_numberOf (j := k - s.length + 1)
    · simp only [List.length_singleton]
      omega
    · simp [numberOf_append, numberOf_singleton, numberOf_replicate_zero, hnumber, pow_succ]

end Positional

/-- Digits in full are the canonical numeral of a decimal that does not end in a zero. -/
theorem exists_positional {x : Decimal} (hmod : x.digits % 10 ≠ 0) :
    ∃ n : Numeral, n.IsCanonical ∧ n.value = x.value ∧
      Binary64.positionalText (Nat.toDigits 10 x.digits)
        (x.exponent + (Nat.toDigits 10 x.digits).length) = n.text := by
  have hnumber := numberOf_toDigits x.digits
  have hdigits := isDigits_toDigits x.digits
  have hhead := head?_toDigits (n := x.digits) (by omega)
  have hlast := getLast?_toDigits hmod
  generalize Nat.toDigits 10 x.digits = s at hnumber hdigits hhead hlast
  unfold Binary64.positionalText
  by_cases hpoint : x.exponent + s.length ≤ 0
  · obtain ⟨k, hk⟩ := Int.eq_ofNat_of_zero_le (show 0 ≤ -(x.exponent + s.length) by omega)
    rw [if_pos hpoint, hk, Int.toNat_natCast]
    exact exists_of_fraction hdigits hnumber (by omega) hlast
  · obtain ⟨k, hk⟩ := Int.eq_ofNat_of_zero_le (show 0 ≤ x.exponent + s.length by omega)
    rw [if_neg hpoint, hk, Int.toNat_natCast]
    dsimp only
    rcases Nat.lt_or_ge k s.length with hlt | hle
    · have hne : s.drop k ≠ [] := by simpa using hlt
      have htake : (s.take k).length = k := List.length_take_of_le hlt.le
      rw [if_neg hne, htake, Nat.sub_self, List.replicate_zero, List.append_nil]
      exact exists_of_split hdigits hnumber hk (by omega) hlt hhead hlast
    · rw [List.take_of_length_le hle, List.drop_eq_nil_of_le hle, if_pos rfl]
      exact exists_of_whole hdigits hnumber hk hle hhead

/-! ### Printed numbers -/

theorem positional_iff {x : Decimal} (hne : x.digits ≠ 0) :
    Binary64.Layout.scalar.positional (x.exponent + (Nat.toDigits 10 x.digits).length) = true ↔
      (10 : ℚ) ^ (-5 : Int) ≤ x.value ∧ x.value < 10 ^ 16 := by
  obtain ⟨hlow, hhigh⟩ := Decimal.value_bounds hne
  rw [Int.add_comm] at hlow hhigh
  generalize x.exponent + (Nat.toDigits 10 x.digits).length = point at hlow hhigh ⊢
  have hmono : ∀ {a b : Int}, a ≤ b → (10 : ℚ) ^ a ≤ 10 ^ b := fun h =>
    zpow_le_zpow_right₀ (by norm_num) h
  have hscalar : Binary64.Layout.scalar.positional point = true ↔ -5 < point ∧ point ≤ 16 := by
    simp [Binary64.Layout.positional, Binary64.Layout.scalar, and_comm]
  rw [hscalar]
  constructor
  · rintro ⟨hleast, hmost⟩
    exact ⟨(hmono (by omega)).trans hlow, hhigh.trans_le (hmono hmost)⟩
  · rintro ⟨hleast, hmost⟩
    constructor
    · by_contra hle
      exact absurd (hhigh.trans_le (hmono (Int.not_lt.1 hle))) (not_lt.2 hleast)
    · by_contra hgt
      have hle : (10 : ℚ) ^ (16 : Int) ≤ 10 ^ (point - 1) := hmono (by omega)
      exact absurd (hle.trans hlow) (not_le.2 hmost)

theorem e_mem_scientificText (digits : List Char) (point : Int) :
    'e' ∈ Binary64.scientificText digits point := by
  simp [Binary64.scientificText]

theorem e_not_mem_text (n : Numeral) : 'e' ∉ n.text := by
  intro h
  rcases List.mem_append.1 h with h | h
  · exact absurd (n.whole_digits.isDigit _ h) (by decide)
  · rcases List.mem_cons.1 h with h | h
    · exact absurd h (by decide)
    · exact absurd (n.fraction_digits.isDigit _ h) (by decide)

theorem takeWhile_text (n : Numeral) : n.text.takeWhile Char.isDigit = n.whole := by
  rw [text, List.takeWhile_append_of_pos n.whole_digits.isDigit,
    List.takeWhile_cons_of_neg (by decide), List.append_nil]

theorem dropWhile_text (n : Numeral) : n.text.dropWhile Char.isDigit = '.' :: n.fraction := by
  rw [text, List.dropWhile_append_of_pos n.whole_digits.isDigit,
    List.dropWhile_cons_of_neg (by decide)]

theorem text_inj : n.text = k.text ↔ n = k := by
  constructor
  · intro h
    have hwhole := n.takeWhile_text
    have hfraction := n.dropWhile_text
    rw [h, takeWhile_text] at hwhole
    rw [h, dropWhile_text] at hfraction
    cases n
    cases k
    simp_all
  · rintro rfl
    rfl

section Printed

open Binary64 (shortest)

variable {m : Nat} {e : Int} (hcanonical : Binary64.IsCanonical m e) (hpos : 0 < m)

include hcanonical hpos

/-- A number prints as a numeral if its shortest decimal is neither too small nor too large, and
the numeral is the canonical one of that decimal. -/
theorem write_eq_text_iff : Binary64.write .scalar (.finite false m e) = String.ofList n.text ↔
    n.IsCanonical ∧ n.value = (shortest .even m e).value ∧
      (10 : ℚ) ^ (-5 : Int) ≤ n.value ∧ n.value < 10 ^ 16 := by
  obtain ⟨-, hmod⟩ := Binary64.shortest_spec hcanonical hpos
  have hne : (shortest .even m e).digits ≠ 0 := by
    intro hzero
    simp [hzero] at hmod
  have hpositional := positional_iff hne
  obtain ⟨k, hk, hvalue, htext⟩ := exists_positional hmod
  have hwrite : Binary64.write .scalar (.finite false m e) = String.ofList (
      if Binary64.Layout.scalar.positional ((shortest .even m e).exponent +
        (Nat.toDigits 10 (shortest .even m e).digits).length) then k.text
      else Binary64.scientificText (Nat.toDigits 10 (shortest .even m e).digits)
        ((shortest .even m e).exponent +
          (Nat.toDigits 10 (shortest .even m e).digits).length)) := by
    rw [← htext]
    simp only [Binary64.write, hpos.ne', if_false, Bool.false_eq_true]
    rfl
  rw [hwrite]
  split
  · rename_i hinside
    have hrange := hpositional.1 hinside
    rw [String.ofList_inj, text_inj]
    constructor
    · rintro rfl
      exact ⟨hk, hvalue, hvalue ▸ hrange⟩
    · rintro ⟨hn, hsame, -⟩
      exact eq_of_value hk hn (hvalue.trans hsame.symm)
  · rename_i houtside
    constructor
    · intro h
      exact absurd (String.ofList_inj.1 h ▸ e_mem_scientificText _ _) n.e_not_mem_text
    · rintro ⟨-, hsame, hrange⟩
      exact absurd (hpositional.2 (hsame ▸ hrange)) houtside

end Printed

theorem exists_not_isDigit_of_write (negative : Bool) (m : Nat) (e : Int) :
    ∃ c ∈ (Binary64.write .scalar (.finite negative m e)).toList, c.isDigit = false := by
  have hpoint : ∀ digits point, '.' ∈ Binary64.positionalText digits point := by
    intro digits point
    unfold Binary64.positionalText
    split <;> simp
  simp only [Binary64.write, String.toList_ofList]
  have hmark : ∀ unsigned : List Char, (∃ c ∈ unsigned, c.isDigit = false) →
      ∃ c ∈ if negative then '-' :: unsigned else unsigned, c.isDigit = false := by
    rintro unsigned ⟨c, hc, hdigit⟩
    refine ⟨c, ?_, hdigit⟩
    split
    · exact List.mem_cons_of_mem _ hc
    · exact hc
  apply hmark
  split
  · exact ⟨'.', by decide, by decide⟩
  · split
    · exact ⟨'.', hpoint _ _, by decide⟩
    · exact ⟨'e', e_mem_scientificText _ _, by decide⟩

/-- What a numeral rounds to, printed. -/
def printed (n : Numeral) : String := n.decimal.nearest.write .scalar

theorem printed_congr (h : n.value = k.value) : n.printed = k.printed :=
  congrArg (Binary64.write .scalar) (Decimal.nearest_congr h)

def zero : Numeral := ⟨['0'], ['0'], isDigits_zero, isDigits_zero⟩

theorem value_zero : zero.value = 0 :=
  Decimal.value_eq_zero_iff.2 rfl

theorem eq_zero_iff : n = zero ↔ n.IsCanonical ∧ n.value = 0 := by
  have hzero : zero.IsCanonical := ⟨.inl rfl, .inl rfl⟩
  constructor
  · rintro rfl
    exact ⟨hzero, value_zero⟩
  · rintro ⟨hn, hvalue⟩
    exact eq_of_value hn hzero (hvalue.trans value_zero.symm)

theorem write_zero (e : Int) :
    Binary64.write .scalar (.finite false 0 e) = String.ofList zero.text := rfl

theorem small_lt_of_le (h : (10 : ℚ) ^ (-5 : Int) ≤ n.value) :
    (2 : ℚ) ^ (-1022 : Int) ≤ n.value :=
  calc (2 : ℚ) ^ (-1022 : Int) ≤ 2 ^ (-17 : Int) := zpow_le_zpow_right₀ one_le_two (by decide)
    _ ≤ 10 ^ (-5 : Int) := by norm_num
    _ ≤ n.value := h

/-- Which numerals are printed as they are spelled: canonical ones that are zero, or neither too
small nor too large and the shortest for what they round to. -/
structure IsKept (n : Numeral) : Prop where
  canonical : n.IsCanonical
  range : n.value = 0 ∨ (10 : ℚ) ^ (-5 : Int) ≤ n.value ∧ n.value < 10 ^ 16
  shortest : n.value = 0 ∨ ∃ x : Decimal, x.value = n.value ∧ x.IsShortest

theorem printed_eq_text_iff (hfinite : n.value < Binary64.overflow) :
    n.printed = String.ofList n.text ↔ n.IsKept := by
  by_cases hzero : n.decimal.digits = 0
  · have hvalue : n.value = 0 := Decimal.value_eq_zero_iff.2 hzero
    rw [printed, Decimal.nearest_of_zero hzero, write_zero, String.ofList_inj, text_inj, eq_comm,
      eq_zero_iff]
    exact ⟨fun h => ⟨h.1, .inl hvalue, .inl hvalue⟩, fun h => ⟨h.canonical, hvalue⟩⟩
  · have hpos : 0 < n.value := Decimal.value_pos hzero
    obtain ⟨m, e, hrounds, hnearest⟩ := Decimal.exists_roundsTo hzero
    have hsmall : ¬ Binary64.greatestExponent < e := fun hlt =>
      absurd ((hrounds.greatest_lt_iff hpos).1 hlt) (not_le.2 hfinite)
    rw [if_neg hsmall] at hnearest
    rw [printed, hnearest]
    rcases Nat.eq_zero_or_pos m with rfl | hm
    · rw [write_zero, String.ofList_inj, text_inj, eq_comm, eq_zero_iff]
      constructor
      · rintro ⟨-, hvalue⟩
        exact absurd hvalue hpos.ne'
      · rintro ⟨-, hvalue | ⟨hleast, -⟩, -⟩
        · exact absurd hvalue hpos.ne'
        · exact absurd (hrounds.full (small_lt_of_le hleast)) (by norm_num)
    · rw [write_eq_text_iff hrounds.canonical hm]
      constructor
      · rintro ⟨hn, hvalue, hrange⟩
        have hfull := hrounds.full (small_lt_of_le hrange.1)
        exact ⟨hn, .inr hrange, .inr ⟨_, hvalue.symm, m, e,
          Binary64.isShortestOf_shortest hrounds.canonical hfull⟩⟩
      · rintro ⟨hn, hrange, hshortest⟩
        have hrange := hrange.resolve_left hpos.ne'
        obtain ⟨x, hx, m', e', hshortest⟩ := hshortest.resolve_left hpos.ne'
        have hrounds' : Binary64.RoundsTo n.value m' e' := hx ▸ hshortest.roundsTo
        obtain ⟨rfl, rfl⟩ := hrounds.eq hrounds' hpos
        have hfull := hrounds.full (small_lt_of_le hrange.1)
        refine ⟨hn, ?_, hrange⟩
        rw [(Binary64.shortest_eq_iff hrounds.canonical hfull).2 hshortest, hx]

/-! ### Few digits -/

section Few

variable (hlength : n.whole.length + n.fraction.length ≤ 15)

include hlength

theorem digits_lt : n.decimal.digits < 10 ^ 15 := by
  have hlt : numberOf (n.whole ++ n.fraction) < 10 ^ (n.whole ++ n.fraction).length := by
    apply numberOf_lt
    intro c hc
    rcases List.mem_append.1 hc with hc | hc
    · exact n.whole_digits.isDigit c hc
    · exact n.fraction_digits.isDigit c hc
  rw [List.length_append] at hlt
  exact hlt.trans_le (Nat.pow_le_pow_right (by decide) hlength)

theorem value_lt : n.value < 10 ^ 15 := by
  have hlt : (numberOf n.whole : ℚ) + 1 ≤ 10 ^ n.whole.length := by
    exact_mod_cast numberOf_lt n.whole_digits.isDigit
  have hpow : (10 : ℚ) ^ n.whole.length ≤ 10 ^ 15 :=
    pow_le_pow_right₀ (by norm_num) (by omega)
  linarith [n.value_bounds.2]

theorem value_lt_overflow : n.value < Binary64.overflow :=
  Binary64.lt_overflow ((value_lt hlength).le.trans (by norm_num))

variable (hleast : n.value = 0 ∨ (10 : ℚ) ^ (-5 : Int) ≤ n.value)

include hleast

/-- A numeral of at most fifteen digits that is not too small is printed as the canonical one of its
value. -/
theorem exists_printed_eq : ∃ k : Numeral, k.IsKept ∧ k.value = n.value ∧
    n.printed = String.ofList k.text := by
  rcases hleast with hzero | hleast
  · have hkept : zero.IsKept := ⟨(eq_zero_iff.1 rfl).1, .inl value_zero, .inl value_zero⟩
    refine ⟨zero, hkept, value_zero.trans hzero.symm, ?_⟩
    rw [printed_congr (hzero.trans value_zero.symm)]
    rfl
  · obtain ⟨x, hx, hmod, hshortest⟩ :=
      Decimal.exists_isShortest (digits_lt hlength) (small_lt_of_le hleast)
    obtain ⟨k, hk, hvalue, -⟩ := exists_positional hmod
    have hsame : k.value = n.value := hvalue.trans hx
    have hmost : k.value < 10 ^ 16 := hsame ▸ (value_lt hlength).trans (by norm_num)
    have hkept : k.IsKept := ⟨hk, .inr ⟨hsame ▸ hleast, hmost⟩, .inr ⟨x, hvalue.symm, hshortest⟩⟩
    refine ⟨k, hkept, hsame, ?_⟩
    rw [← printed_congr hsame]
    exact (printed_eq_text_iff (hsame ▸ value_lt_overflow hlength)).2 hkept

theorem isKept_iff_isCanonical : n.IsKept ↔ n.IsCanonical := by
  obtain ⟨k, hk, hvalue, -⟩ := exists_printed_eq hlength hleast
  constructor
  · exact fun h => h.canonical
  · intro h
    rwa [eq_of_value h hk.canonical hvalue.symm]

end Few

end Numeral

end Conformance
