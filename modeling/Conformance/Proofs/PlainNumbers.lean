import Mathlib.Data.List.TakeWhile
import Conformance.Proofs.Numerals
import Conformance.Yaml.Scalar

/-!
# Plain scalars of digits and points

Digits alone are an integer or, where they are too many, a number that need not be whole; digits on
both sides of one point are such a number, and with more points among them they are text. Zeros in
front of other digits make text of digits without a point, and so does any number that is out of
range.
-/

namespace Conformance.Yaml.Denotation

/-! ### Digits -/

theorem digit?_of_isDigit {c : Char} (h : c.isDigit = true) :
    digit? 10 c = some (c.toNat - '0'.toNat) := by
  have hrange := isDigit_iff.1 h
  have hnine : '9'.toNat = '0'.toNat + 9 := rfl
  unfold digit?
  simp only [hrange, and_self, if_true]
  rw [if_pos (by omega)]

theorem natural?_of_isDigits {s : List Char} (h : IsDigits s) :
    natural? 10 s = some (numberOf s) := by
  have hfold : ∀ (s : List Char) (n : Nat), (∀ c ∈ s, c.isDigit = true) →
      s.foldlM (fun n c => (digit? 10 c).map (10 * n + ·)) n = some (Nat.ofDigitChars 10 s n) := by
    intro s
    induction s with
    | nil => exact fun _ _ => rfl
    | cons c s ih =>
      intro n hs
      rw [List.foldlM_cons, digit?_of_isDigit (hs c List.mem_cons_self)]
      exact ih _ fun d hd => hs d (List.mem_cons_of_mem c hd)
  rw [natural?, if_neg h.ne_nil, hfold s 0 h.isDigit]
  rfl

theorem natural?_eq_none {s : List Char} (h : '.' ∈ s) : natural? 10 s = none := by
  have hfold : ∀ (s : List Char) (n : Nat), '.' ∈ s →
      s.foldlM (fun n c => (digit? 10 c).map (10 * n + ·)) n = none := by
    intro s
    induction s with
    | nil => exact fun _ h => absurd h (List.not_mem_nil)
    | cons c s ih =>
      intro n hs
      rw [List.foldlM_cons]
      rcases List.mem_cons.1 hs with rfl | hs
      · rfl
      · cases digit? 10 c with
        | none => rfl
        | some d => exact ih _ hs
  rw [natural?, if_neg (List.ne_nil_of_mem h)]
  exact hfold s 0 h

/-- Digits and points, a digit first. -/
structure IsDotted (s : List Char) : Prop where
  head : ∃ c rest, s = c :: rest ∧ c.isDigit = true
  chars : ∀ c ∈ s, c.isDigit = true ∨ c = '.'

namespace IsDotted

variable {s : List Char} (hs : IsDotted s)

include hs

theorem not_mem {c : Char} (hdigit : c.isDigit = false) (hpoint : c ≠ '.') : c ∉ s := by
  intro hc
  rcases hs.chars c hc with h | h
  · exact absurd h (by simp [hdigit])
  · exact hpoint h

theorem any_eq_false {words : List String}
    (h : ∀ word ∈ words, word.toList.head?.any Char.isDigit = false) :
    (words.any fun word => s == word.toList) = false := by
  obtain ⟨c, rest, rfl, hc⟩ := hs.head
  rw [List.any_eq_false]
  intro word hword heq
  have hhead := h word hword
  rw [← beq_iff_eq.1 heq] at hhead
  simp [hc] at hhead

theorem startsWithSign_eq : startsWithSign s = false := by
  obtain ⟨c, rest, rfl, hc⟩ := hs.head
  have hplus : c ≠ '+' := fun h => absurd hc (by simp [h])
  have hminus : c ≠ '-' := fun h => absurd hc (by simp [h])
  simp [startsWithSign, isSign, hplus, hminus]

theorem marked?_eq : marked? s = none := by
  rw [marked?, List.findSome?_eq_none_iff]
  have hfront : ∀ {front : List Char} {c : Char}, c ∈ front → c.isDigit = false → c ≠ '.' →
      dropFront? front s = none := by
    intro front c hc hdigit hpoint
    rw [dropFront?, if_neg]
    intro hprefix
    have hmem := (List.isPrefixOf_iff_prefix.1 hprefix).subset hc
    exact hs.not_mem hdigit hpoint hmem
  simp only [radixes, List.forall_mem_cons]
  refine ⟨?_, ?_, ?_, by simp⟩
  · rw [hfront (c := 'x') (by decide) (by decide) (by decide)]
    rfl
  · rw [hfront (c := 'o') (by decide) (by decide) (by decide)]
    rfl
  · rw [hfront (c := 'b') (by decide) (by decide) (by decide)]
    rfl

theorem hasLeadingZero_eq :
    hasLeadingZero s = (1 < s.length && s.head? == some '0' && s.all Char.isDigit) := by
  rw [hasLeadingZero, hs.startsWithSign_eq]
  rfl

theorem integer?_eq : integer? s =
    if hasLeadingZero s then none else (natural? 10 s).map Int.ofNat := by
  have hmagnitude : integer? s = (magnitude? s).map Int.ofNat := by
    obtain ⟨c, rest, rfl, hc⟩ := hs.head
    unfold integer?
    split
    · rename_i heq
      exact absurd hc (by simp [(List.cons.inj heq).1])
    · rename_i heq
      exact absurd hc (by simp [(List.cons.inj heq).1])
    · rfl
  rw [hmagnitude, magnitude?, hs.marked?_eq]
  cases hasLeadingZero s <;> rfl

theorem real?_eq : real? s = (decimal? false s).filter Binary64.isFinite := by
  have hinfinity : isInfinity s = false := hs.any_eq_false (by decide)
  have hundefined : ([".nan", ".NaN", ".NAN"].any fun word => s == word.toList) = false :=
    hs.any_eq_false (by decide)
  obtain ⟨c, rest, rfl, hc⟩ := hs.head
  have hplus : c ≠ '+' := fun h => absurd hc (by simp [h])
  have hminus : c ≠ '-' := fun h => absurd hc (by simp [h])
  unfold real?
  simp [hplus, hminus, hinfinity, hundefined]

theorem ofPlain_eq : ofPlain (String.ofList s) =
    if hasLeadingZero s then .text (String.ofList s)
    else match ((natural? 10 s).map Int.ofNat).bind ofInteger? with
      | some d => d
      | none => match (decimal? false s).filter Binary64.isFinite with
        | some x => .number (.real x)
        | none => .text (String.ofList s) := by
  have hne : s ≠ [] := by
    obtain ⟨c, rest, rfl, -⟩ := hs.head
    exact List.cons_ne_nil _ _
  have hnull : isNull s = false := hs.any_eq_false (by decide)
  have hbool : bool? s = none := by
    rw [bool?, hs.any_eq_false (by decide), hs.any_eq_false (by decide)]
    rfl
  have hinteger : ofIntegerText? s =
      if hasLeadingZero s then none else ((natural? 10 s).map Int.ofNat).bind ofInteger? := by
    rw [ofIntegerText?, hs.integer?_eq]
    cases hasLeadingZero s <;> rfl
  simp only [ofPlain, String.toList_ofList, hne, hnull, hbool, hs.real?_eq, hinteger]
  cases hasLeadingZero s
  · generalize ((natural? 10 s).map Int.ofNat).bind ofInteger? = d
    generalize (decimal? false s).filter Binary64.isFinite = x
    cases d <;> cases x <;> simp
  · simp

theorem ofPlain_of_point (hpoint : '.' ∈ s) : ofPlain (String.ofList s) =
    match (decimal? false s).filter Binary64.isFinite with
    | some x => .number (.real x)
    | none => .text (String.ofList s) := by
  have hzero : hasLeadingZero s = false := by
    have hall : s.all Char.isDigit = false :=
      List.all_eq_false.2 ⟨'.', hpoint, by decide⟩
    rw [hs.hasLeadingZero_eq, hall, Bool.and_false]
  rw [hs.ofPlain_eq, hzero, natural?_eq_none hpoint]
  cases (decimal? false s).filter Binary64.isFinite <;> rfl

end IsDotted

/-! ### Digits alone -/

theorem ofInteger?_natCast (n : Nat) : ofInteger? n =
    if n < 2 ^ 64 then some (.number (.integer n))
    else if n < 2 ^ 128 then some (.wide n)
    else none := by
  have hsmall : Int.pow 2 64 = (2 ^ 64 : Nat) := rfl
  have hwide : Int.pow 2 128 = (2 ^ 128 : Nat) := rfl
  have hlow : ∀ k, -Int.pow 2 k ≤ (n : Int) := fun k =>
    (Int.neg_nonpos_of_nonneg (Int.pow_nonneg (by decide))).trans (Int.natCast_nonneg n)
  simp only [ofInteger?, hlow, true_and, hsmall, hwide, Int.ofNat_lt]

/-- Whether a zero stands in front of other digits. -/
def HasZeros (s : List Char) : Prop := 1 < s.length ∧ s.head? = some '0'

instance (s : List Char) : Decidable (HasZeros s) :=
  inferInstanceAs (Decidable (1 < s.length ∧ s.head? = some '0'))

section Digits

variable {s : List Char} (hs : IsDigits s)

include hs

theorem isDotted_of_isDigits : IsDotted s := by
  refine ⟨?_, fun c hc => .inl (hs.isDigit c hc)⟩
  cases s with
  | nil => exact absurd rfl hs.ne_nil
  | cons c rest => exact ⟨c, rest, rfl, hs.isDigit c List.mem_cons_self⟩

theorem decimal?_of_isDigits : decimal? false s = some (Decimal.nearest ⟨numberOf s, 0⟩) := by
  have hwhole : s.takeWhile Char.isDigit = s := List.takeWhile_eq_self_iff.2 hs.isDigit
  have hrest : s.dropWhile Char.isDigit = [] := List.dropWhile_eq_nil_iff.2 hs.isDigit
  simp [decimal?, hwhole, hrest, hs.ne_nil, exponent?, natural?_of_isDigits hs, Decimal.nearest]

theorem hasLeadingZero_iff : hasLeadingZero s = true ↔ HasZeros s := by
  have hall : s.all Char.isDigit = true := List.all_eq_true.2 hs.isDigit
  simp [(isDotted_of_isDigits hs).hasLeadingZero_eq, hall, HasZeros]

theorem ofPlain_of_isDigits : ofPlain (String.ofList s) =
    if HasZeros s then .text (String.ofList s)
    else if numberOf s < 2 ^ 64 then .number (.integer (numberOf s))
    else if numberOf s < 2 ^ 128 then .wide (numberOf s)
    else if (numberOf s : ℚ) < Binary64.overflow then
      .number (.real (Decimal.nearest ⟨numberOf s, 0⟩))
    else .text (String.ofList s) := by
  have hzero := hasLeadingZero_iff hs
  have hvalue : (Decimal.mk (numberOf s) 0).value = numberOf s := by simp [Decimal.value]
  rw [(isDotted_of_isDigits hs).ofPlain_eq, natural?_of_isDigits hs, decimal?_of_isDigits hs]
  by_cases hzeros : HasZeros s
  · rw [if_pos (hzero.2 hzeros), if_pos hzeros]
  · rw [if_neg (mt hzero.1 hzeros), if_neg hzeros]
    rw [Option.map_some, Option.bind_some, Int.ofNat_eq_natCast, ofInteger?_natCast]
    by_cases hsmall : numberOf s < 2 ^ 64
    · simp only [if_pos hsmall]
    · simp only [if_neg hsmall]
      by_cases hwide : numberOf s < 2 ^ 128
      · simp only [if_pos hwide]
      · simp only [if_neg hwide]
        have hfinite := Decimal.isFinite_nearest_iff (x := ⟨numberOf s, 0⟩)
        rw [hvalue] at hfinite
        by_cases hrange : (numberOf s : ℚ) < Binary64.overflow
        · simp [hrange, hfinite.2 hrange, Option.filter]
        · have hinfinite := mt hfinite.1 hrange
          simp [hrange, hinfinite, Option.filter]

end Digits

/-! ### Digits and points -/

section Point

variable (n : Numeral)

theorem isDotted_text_append {rest : List Char}
    (h : ∀ c ∈ rest, c.isDigit = true ∨ c = '.') : IsDotted (n.text ++ rest) := by
  have hwhole := isDotted_of_isDigits n.whole_digits
  obtain ⟨c, digits, hsplit, hc⟩ := hwhole.head
  refine ⟨⟨c, digits ++ '.' :: n.fraction ++ rest, ?_, hc⟩, fun d hd => ?_⟩
  · simp [Numeral.text, hsplit]
  · rw [Numeral.text, List.append_assoc, List.mem_append, List.cons_append, List.mem_cons,
      List.mem_append] at hd
    rcases hd with hd | hd | hd | hd
    · exact hwhole.chars d hd
    · exact .inr hd
    · exact .inl (n.fraction_digits.isDigit d hd)
    · exact h d hd

theorem point_mem_text_append (rest : List Char) : '.' ∈ n.text ++ rest := by
  simp [Numeral.text]

theorem decimal?_text : decimal? false n.text = some n.decimal.nearest := by
  have hfraction : n.fraction.takeWhile Char.isDigit = n.fraction :=
    List.takeWhile_eq_self_iff.2 n.fraction_digits.isDigit
  have hrest : n.fraction.dropWhile Char.isDigit = [] :=
    List.dropWhile_eq_nil_iff.2 n.fraction_digits.isDigit
  have hdigits : IsDigits (n.whole ++ n.fraction) := by
    refine ⟨by simp [n.whole_digits.ne_nil], fun c hc => ?_⟩
    rcases List.mem_append.1 hc with hc | hc
    · exact n.whole_digits.isDigit c hc
    · exact n.fraction_digits.isDigit c hc
  have hnatural := natural?_of_isDigits hdigits
  simp [decimal?, n.takeWhile_text, n.dropWhile_text, hfraction, hrest, n.whole_digits.ne_nil,
    exponent?, hnatural, Decimal.nearest, Numeral.decimal]

theorem decimal?_text_append (rest : List Char) :
    decimal? false (n.text ++ '.' :: rest) = none := by
  have hsplit : n.text ++ '.' :: rest = n.whole ++ '.' :: (n.fraction ++ '.' :: rest) := by
    simp [Numeral.text]
  have hwhole : (n.text ++ '.' :: rest).takeWhile Char.isDigit = n.whole := by
    rw [hsplit, List.takeWhile_append_of_pos n.whole_digits.isDigit,
      List.takeWhile_cons_of_neg (by decide), List.append_nil]
  have hdrop : (n.text ++ '.' :: rest).dropWhile Char.isDigit =
      '.' :: (n.fraction ++ '.' :: rest) := by
    rw [hsplit, List.dropWhile_append_of_pos n.whole_digits.isDigit,
      List.dropWhile_cons_of_neg (by decide)]
  have hfraction : (n.fraction ++ '.' :: rest).takeWhile Char.isDigit = n.fraction := by
    rw [List.takeWhile_append_of_pos n.fraction_digits.isDigit,
      List.takeWhile_cons_of_neg (by decide), List.append_nil]
  have hrest : (n.fraction ++ '.' :: rest).dropWhile Char.isDigit = '.' :: rest := by
    rw [List.dropWhile_append_of_pos n.fraction_digits.isDigit,
      List.dropWhile_cons_of_neg (by decide)]
  simp [decimal?, hwhole, hdrop, hfraction, hrest, n.whole_digits.ne_nil, exponent?]

/-- Digits on both sides of a point are a number, unless it is out of range. -/
theorem ofPlain_text : ofPlain (String.ofList n.text) =
    if n.value < Binary64.overflow then .number (.real n.decimal.nearest)
    else .text (String.ofList n.text) := by
  have hdotted : IsDotted n.text := by
    simpa using isDotted_text_append n (List.forall_mem_nil _)
  have hpoint : '.' ∈ n.text := by simpa using point_mem_text_append n []
  have hfinite := Decimal.isFinite_nearest_iff (x := n.decimal)
  rw [hdotted.ofPlain_of_point hpoint, decimal?_text]
  by_cases hrange : n.value < Binary64.overflow
  · simp [hrange, hfinite.2 hrange, Option.filter]
  · have hinfinite := mt hfinite.1 hrange
    simp [hrange, hinfinite, Option.filter]

/-- With a second point it is text. -/
theorem ofPlain_text_append {rest : List Char} (h : ∀ c ∈ rest, c.isDigit = true ∨ c = '.') :
    ofPlain (String.ofList (n.text ++ '.' :: rest)) =
      .text (String.ofList (n.text ++ '.' :: rest)) := by
  have hdotted : IsDotted (n.text ++ '.' :: rest) :=
    isDotted_text_append n fun c hc => (List.mem_cons.1 hc).elim .inr (h c)
  rw [hdotted.ofPlain_of_point (point_mem_text_append n _), decimal?_text_append]
  rfl

end Point

end Conformance.Yaml.Denotation
