import Conformance.Proofs.Declarations
import Conformance.Proofs.Paths
import Conformance.Proofs.PlainNumbers

/-!
# Section ids

An id is made of digits with points between them. It is read as a plain scalar, typed by its
spelling and printed again, so that not every id is kept as it is written: `SectionId.IsKept` says
which ones are, and ids of the same value behind one point are read as one.
-/

namespace Conformance

open Yaml Yaml.Denotation

/-- Numbers with points between them. -/
structure SectionId where
  fields : List (List Char)
  ne_nil : fields ≠ []
  isDigits : ∀ field ∈ fields, IsDigits field

namespace SectionId

variable {id other : SectionId} {s : List Char} {n k : Numeral}

def text (id : SectionId) : String := String.ofList (List.intercalate ['.'] id.fields)

theorem fields_text (id : SectionId) : Text.fields '.' id.text.toList = id.fields := by
  rw [text, String.toList_ofList]
  apply Text.fields_intercalate id.ne_nil
  intro field hfield hpoint
  exact absurd ((id.isDigits field hfield).isDigit _ hpoint) (by decide)

theorem text_eq_iff : id.text = other.text ↔ id.fields = other.fields := by
  constructor
  · intro h
    rw [← fields_text, h, fields_text]
  · intro h
    rw [text, h, text]

theorem text_of_digits (h : id.fields = [s]) : id.text = String.ofList s := by
  rw [text, h, List.intercalate_singleton]

theorem text_of_numeral (h : id.fields = [n.whole, n.fraction]) :
    id.text = String.ofList n.text := by
  rw [text, h, List.intercalate_cons_cons, List.intercalate_singleton, List.append_assoc]
  rfl

theorem isDigit_or_eq_of_mem_intercalate {fields : List (List Char)}
    (h : ∀ field ∈ fields, IsDigits field) :
    ∀ c ∈ List.intercalate ['.'] fields, c.isDigit = true ∨ c = '.' := by
  induction fields with
  | nil => simp
  | cons field rest ih =>
    have hfield := (h field List.mem_cons_self).isDigit
    have hrest := ih fun other hother => h other (List.mem_cons_of_mem field hother)
    cases rest with
    | nil =>
      rw [List.intercalate_singleton]
      exact fun c hc => .inl (hfield c hc)
    | cons next rest =>
      rw [List.intercalate_cons_cons]
      intro c hc
      rw [List.mem_append, List.mem_append, List.mem_singleton] at hc
      rcases hc with (hc | hc) | hc
      · exact .inl (hfield c hc)
      · exact .inr hc
      · exact hrest c hc

theorem exists_text_eq_append {rest : List (List Char)} (hne : rest ≠ [])
    (h : id.fields = n.whole :: n.fraction :: rest) :
    ∃ tail, (∀ c ∈ tail, c.isDigit = true ∨ c = '.') ∧
      id.text = String.ofList (n.text ++ '.' :: tail) := by
  cases rest with
  | nil => exact absurd rfl hne
  | cons field rest =>
    refine ⟨List.intercalate ['.'] (field :: rest), ?_, ?_⟩
    · apply isDigit_or_eq_of_mem_intercalate
      intro other hother
      apply id.isDigits
      rw [h]
      exact List.mem_cons_of_mem _ (List.mem_cons_of_mem _ hother)
    · rw [text, h, List.intercalate_cons_cons, List.intercalate_cons_cons]
      simp [Numeral.text]

theorem exists_form (id : SectionId) : (∃ s, IsDigits s ∧ id.fields = [s]) ∨
    (∃ n : Numeral, id.fields = [n.whole, n.fraction]) ∨
    ∃ (n : Numeral) (rest : List (List Char)), rest ≠ [] ∧
      id.fields = n.whole :: n.fraction :: rest := by
  have hdigits := id.isDigits
  have hne := id.ne_nil
  match hfields : id.fields with
  | [] => exact absurd hfields hne
  | [s] => exact .inl ⟨s, hdigits s (by simp [hfields]), rfl⟩
  | [whole, fraction] =>
    exact .inr (.inl ⟨⟨whole, fraction, hdigits _ (by simp [hfields]),
      hdigits _ (by simp [hfields])⟩, rfl⟩)
  | whole :: fraction :: field :: rest =>
    exact .inr (.inr ⟨⟨whole, fraction, hdigits _ (by simp [hfields]),
      hdigits _ (by simp [hfields])⟩, field :: rest, List.cons_ne_nil _ _, rfl⟩)

theorem numeral_eq (hn : id.fields = [n.whole, n.fraction])
    (hk : id.fields = [k.whole, k.fraction]) : n = k := by
  rw [hn] at hk
  cases n
  cases k
  simp_all

/-- Which ids are kept as they are written: those that are text for their zeros, their size or
their points, small integers, and numerals that print as they are spelled. -/
structure IsKept (id : SectionId) : Prop where
  digits : ∀ s, id.fields = [s] →
    HasZeros s ∨ numberOf s < 2 ^ 64 ∨ Binary64.overflow ≤ numberOf s
  numeral : ∀ n : Numeral, id.fields = [n.whole, n.fraction] →
    n.IsKept ∨ Binary64.overflow ≤ n.value

/-- Integers that take more than 64 bits, and no more than 128. -/
def IsWide (id : SectionId) : Prop :=
  ∃ s, id.fields = [s] ∧ ¬ HasZeros s ∧ 2 ^ 64 ≤ numberOf s ∧ numberOf s < 2 ^ 128

/-! ### What ids denote -/

theorem ofPlain_of_digits (h : id.fields = [s]) : ofPlain id.text =
    if HasZeros s then .text id.text
    else if numberOf s < 2 ^ 64 then .number (.integer (numberOf s))
    else if numberOf s < 2 ^ 128 then .wide (numberOf s)
    else if (numberOf s : ℚ) < Binary64.overflow then
      .number (.real (Decimal.nearest ⟨numberOf s, 0⟩))
    else .text id.text := by
  have hs : IsDigits s := id.isDigits s (by simp [h])
  rw [text_of_digits h, ofPlain_of_isDigits hs]

theorem ofPlain_of_numeral (h : id.fields = [n.whole, n.fraction]) : ofPlain id.text =
    if n.value < Binary64.overflow then .number (.real n.decimal.nearest) else .text id.text := by
  rw [text_of_numeral h, ofPlain_text]

theorem ofPlain_of_more {rest : List (List Char)} (hne : rest ≠ [])
    (h : id.fields = n.whole :: n.fraction :: rest) : ofPlain id.text = .text id.text := by
  obtain ⟨tail, htail, htext⟩ := exists_text_eq_append hne h
  rw [htext, ofPlain_text_append n htail]

theorem isKept_iff_of_digits (h : id.fields = [s]) : id.IsKept ↔
    HasZeros s ∨ numberOf s < 2 ^ 64 ∨ Binary64.overflow ≤ numberOf s := by
  constructor
  · exact fun hkept => hkept.digits s h
  · refine fun hs => ⟨fun t ht => ?_, fun n hn => by simp [h] at hn⟩
    obtain rfl : s = t := by simpa [h] using ht
    exact hs

theorem isKept_iff_of_numeral (h : id.fields = [n.whole, n.fraction]) :
    id.IsKept ↔ n.IsKept ∨ Binary64.overflow ≤ n.value := by
  constructor
  · exact fun hkept => hkept.numeral n h
  · exact fun hn => ⟨fun t ht => by simp [h] at ht, fun k hk => numeral_eq h hk ▸ hn⟩

theorem isKept_of_more {rest : List (List Char)} (hne : rest ≠ [])
    (h : id.fields = n.whole :: n.fraction :: rest) : id.IsKept := by
  constructor
  · intro s hs
    simp [hs] at h
  · intro k hk
    rw [hk] at h
    simp only [List.cons.injEq] at h
    exact absurd h.2.2.symm hne

theorem text_integer (hs : IsDigits s) (hzeros : ¬ HasZeros s) :
    (Number.integer (numberOf s)).text = String.ofList s := by
  have hhead : s = ['0'] ∨ s.head? ≠ some '0' := by
    by_cases hhead : s.head? = some '0'
    · left
      obtain ⟨rest, hrest⟩ := List.head?_eq_some_iff.1 hhead
      have hlength : ¬ 1 < s.length := fun hlt => hzeros ⟨hlt, hhead⟩
      have hnil : rest = [] := by
        rw [hrest, List.length_cons] at hlength
        exact List.length_eq_zero_iff.1 (by omega)
      rw [hrest, hnil]
    · exact .inr hhead
  have hdigits := toDigits_numberOf hs hhead
  rw [← String.toList_inj, String.toList_ofList]
  exact (Nat.toList_repr).trans hdigits

theorem isWide_iff (h : id.fields = [s]) :
    id.IsWide ↔ ¬ HasZeros s ∧ 2 ^ 64 ≤ numberOf s ∧ numberOf s < 2 ^ 128 := by
  constructor
  · rintro ⟨t, ht, hwide⟩
    obtain rfl : s = t := by simpa [h] using ht
    exact hwide
  · exact fun hwide => ⟨s, h, hwide⟩

theorem not_isWide (h : ∀ s, id.fields ≠ [s]) : ¬ id.IsWide := by
  rintro ⟨s, hs, -⟩
  exact h s hs

/-- All ids can be read but the integers that are too large to be numbers and too small to be
text. -/
theorem isReadable_iff : FrontMatter.IsReadable id.text ↔ ¬ id.IsWide := by
  unfold FrontMatter.IsReadable
  rcases id.exists_form with ⟨s, -, h⟩ | ⟨n, h⟩ | ⟨n, rest, hne, h⟩
  · rw [isWide_iff h, ofPlain_of_digits h]
    split_ifs with hzeros hsmall hlarge hrange
    · exact ⟨fun _ hwide => hwide.1 hzeros, fun _ => nofun⟩
    · exact ⟨fun _ hwide => absurd hsmall (Nat.not_lt.2 hwide.2.1), fun _ => nofun⟩
    · exact ⟨fun hnone => absurd rfl (hnone _),
        fun hnot => absurd ⟨hzeros, Nat.not_lt.1 hsmall, hlarge⟩ hnot⟩
    · exact ⟨fun _ hwide => hlarge hwide.2.2, fun _ => nofun⟩
    · exact ⟨fun _ hwide => hlarge hwide.2.2, fun _ => nofun⟩
  · have hnot : ¬ id.IsWide := not_isWide (by simp [h])
    rw [ofPlain_of_numeral h]
    split <;> exact ⟨fun _ => hnot, fun _ => nofun⟩
  · have hnot : ¬ id.IsWide := not_isWide (by simp [h])
    rw [ofPlain_of_more hne h]
    exact ⟨fun _ => hnot, fun _ => nofun⟩

theorem print?_of_numeral (h : id.fields = [n.whole, n.fraction])
    (hlt : n.value < Binary64.overflow) : (ofPlain id.text).print? = some n.printed := by
  rw [ofPlain_of_numeral h, if_pos hlt]
  rfl

/-- A number is printed with a point or an exponent, which digits alone have not. -/
theorem write_nearest_ne (hs : IsDigits s) (hrange : (numberOf s : ℚ) < Binary64.overflow) :
    (Decimal.nearest ⟨numberOf s, 0⟩).write .scalar ≠ String.ofList s := by
  intro hwrite
  have hvalue : (Decimal.mk (numberOf s) 0).value < Binary64.overflow := by
    simpa [Decimal.value] using hrange
  obtain ⟨m, e, hfinite⟩ := Decimal.exists_finite hvalue
  obtain ⟨c, hc, hdigit⟩ := Numeral.exists_not_isDigit_of_write false m e
  rw [← hfinite, hwrite, String.toList_ofList] at hc
  exact absurd (hs.isDigit c hc) (by simp [hdigit])

theorem print?_eq_iff_of_digits (h : id.fields = [s]) (hnot : ¬ id.IsWide) :
    (ofPlain id.text).print? = some id.text ↔ id.IsKept := by
  have hs : IsDigits s := id.isDigits s (by simp [h])
  rw [isKept_iff_of_digits h, ofPlain_of_digits h]
  split_ifs with hzeros hsmall hlarge hrange
  · exact ⟨fun _ => .inl hzeros, fun _ => rfl⟩
  · refine ⟨fun _ => .inr (.inl hsmall), fun _ => ?_⟩
    rw [text_of_digits h]
    exact congrArg some (text_integer hs hzeros)
  · exact absurd ((isWide_iff h).2 ⟨hzeros, Nat.not_lt.1 hsmall, hlarge⟩) hnot
  · constructor
    · intro hprint
      exact absurd ((Option.some.inj hprint).trans (text_of_digits h)) (write_nearest_ne hs hrange)
    · rintro (hzeros' | hsmall' | hover)
      · exact absurd hzeros' hzeros
      · exact absurd hsmall' hsmall
      · exact absurd hrange (not_lt.2 hover)
  · exact ⟨fun _ => .inr (.inr (not_lt.1 hrange)), fun _ => rfl⟩

theorem print?_eq_iff_of_numeral (h : id.fields = [n.whole, n.fraction]) :
    (ofPlain id.text).print? = some id.text ↔ id.IsKept := by
  rw [isKept_iff_of_numeral h]
  by_cases hlt : n.value < Binary64.overflow
  · rw [print?_of_numeral h hlt, text_of_numeral h, Option.some_inj,
      Numeral.printed_eq_text_iff hlt]
    exact ⟨.inl, fun hn => hn.resolve_right (not_le.2 hlt)⟩
  · rw [ofPlain_of_numeral h, if_neg hlt]
    exact ⟨fun _ => .inr (not_lt.1 hlt), fun _ => rfl⟩

theorem print?_eq_iff (hnot : ¬ id.IsWide) :
    (ofPlain id.text).print? = some id.text ↔ id.IsKept := by
  rcases id.exists_form with ⟨s, -, h⟩ | ⟨n, h⟩ | ⟨n, rest, hne, h⟩
  · exact print?_eq_iff_of_digits h hnot
  · exact print?_eq_iff_of_numeral h
  · rw [ofPlain_of_more hne h]
    exact ⟨fun _ => isKept_of_more hne h, fun _ => rfl⟩

/-! ### Short ids -/

/-- At most fifteen digits, and with one point none but a zero below `0.00001`. -/
structure IsShort (id : SectionId) : Prop where
  length_le : (id.fields.map List.length).sum ≤ 15
  least : ∀ n : Numeral, id.fields = [n.whole, n.fraction] →
    n.value = 0 ∨ (10 : ℚ) ^ (-5 : Int) ≤ n.value

/-- Digits on both sides of one point are spelled without a zero too many. -/
def IsCanonical (id : SectionId) : Prop :=
  ∀ n : Numeral, id.fields = [n.whole, n.fraction] → n.IsCanonical

/-- Equal ids, and ids with one point that are equal as numbers. -/
def IsLike (id other : SectionId) : Prop :=
  id.fields = other.fields ∨ ∃ n k : Numeral, id.fields = [n.whole, n.fraction] ∧
    other.fields = [k.whole, k.fraction] ∧ n.value = k.value

theorem IsLike.symm (h : id.IsLike other) : other.IsLike id := by
  rcases h with heq | ⟨n, k, hn, hk, hvalue⟩
  · exact .inl heq.symm
  · exact .inr ⟨k, n, hk, hn, hvalue.symm⟩

theorem IsLike.trans {third : SectionId} (h : id.IsLike other) (h' : other.IsLike third) :
    id.IsLike third := by
  rcases h with heq | ⟨n, k, hn, hk, hvalue⟩ <;> rcases h' with heq' | ⟨k', j, hk', hj, hvalue'⟩
  · exact .inl (heq.trans heq')
  · exact .inr ⟨k', j, heq ▸ hk', hj, hvalue'⟩
  · exact .inr ⟨n, k, hn, heq' ▸ hk, hvalue⟩
  · obtain rfl := numeral_eq hk hk'
    exact .inr ⟨n, j, hn, hj, hvalue.trans hvalue'⟩

theorem IsLike.fields_eq (h : id.IsLike other) (hid : id.IsCanonical) (hother : other.IsCanonical) :
    id.fields = other.fields := by
  rcases h with heq | ⟨n, k, hn, hk, hvalue⟩
  · exact heq
  · rw [hn, hk, Numeral.eq_of_value (hid n hn) (hother k hk) hvalue]

def ofNumeral (n : Numeral) : SectionId where
  fields := [n.whole, n.fraction]
  ne_nil := List.cons_ne_nil _ _
  isDigits := by
    simp only [List.forall_mem_cons]
    exact ⟨n.whole_digits, n.fraction_digits, List.forall_mem_nil _⟩

section Short

variable (hshort : id.IsShort)

include hshort

theorem length_le_of_numeral (h : id.fields = [n.whole, n.fraction]) :
    n.whole.length + n.fraction.length ≤ 15 := by
  have hlength := hshort.length_le
  rw [h] at hlength
  simpa using hlength

theorem numberOf_lt_of_isShort (h : id.fields = [s]) : numberOf s < 10 ^ 15 := by
  have hlength := hshort.length_le
  rw [h] at hlength
  have hs : IsDigits s := id.isDigits s (by simp [h])
  exact (numberOf_lt hs.isDigit).trans_le
    (Nat.pow_le_pow_right (by decide) (by simpa using hlength))

theorem not_isWide_of_isShort : ¬ id.IsWide := by
  rintro ⟨s, h, -, hle, -⟩
  have hlt := numberOf_lt_of_isShort hshort h
  exact absurd (hle.trans_lt hlt) (by norm_num)

theorem isKept_iff_isCanonical : id.IsKept ↔ id.IsCanonical := by
  have hnumeral : ∀ n : Numeral, id.fields = [n.whole, n.fraction] →
      (n.IsKept ∨ Binary64.overflow ≤ n.value ↔ n.IsCanonical) := by
    intro n h
    have hlength := length_le_of_numeral hshort h
    have hrange := not_le.2 (Numeral.value_lt_overflow hlength)
    rw [← Numeral.isKept_iff_isCanonical hlength (hshort.least n h)]
    exact ⟨fun hn => hn.resolve_right hrange, .inl⟩
  constructor
  · exact fun h n hn => (hnumeral n hn).1 (h.numeral n hn)
  · refine fun h => ⟨fun s hs => .inr (.inl ?_), fun n hn => (hnumeral n hn).2 (h n hn)⟩
    exact (numberOf_lt_of_isShort hshort hs).trans (by norm_num)

theorem exists_read : ∃ reading : SectionId, reading.IsLike id ∧ reading.IsCanonical ∧
    (ofPlain id.text).print? = some reading.text := by
  by_cases h : ∃ n : Numeral, id.fields = [n.whole, n.fraction]
  · obtain ⟨n, h⟩ := h
    have hlength := length_le_of_numeral hshort h
    obtain ⟨k, hk, hvalue, hprinted⟩ :=
      Numeral.exists_printed_eq hlength (hshort.least n h)
    have hfields : (ofNumeral k).fields = [k.whole, k.fraction] := rfl
    refine ⟨ofNumeral k, .inr ⟨k, n, hfields, h, hvalue⟩, fun j hj => ?_, ?_⟩
    · obtain rfl := numeral_eq hfields hj
      exact hk.canonical
    · rw [print?_of_numeral h (Numeral.value_lt_overflow hlength), hprinted, text_of_numeral rfl]
  · have hcanonical : id.IsCanonical := fun n hn => absurd ⟨n, hn⟩ h
    refine ⟨id, .inl rfl, hcanonical, ?_⟩
    rw [print?_eq_iff (not_isWide_of_isShort hshort)]
    exact (isKept_iff_isCanonical hshort).2 hcanonical

theorem print?_eq_print?_iff (hother : other.IsShort) :
    (ofPlain id.text).print? = (ofPlain other.text).print? ↔ id.IsLike other := by
  obtain ⟨reading, hlike, hcanonical, hprint⟩ := exists_read hshort
  obtain ⟨reading', hlike', hcanonical', hprint'⟩ := exists_read hother
  rw [hprint, hprint', Option.some_inj, text_eq_iff]
  constructor
  · intro h
    exact hlike.symm.trans ((IsLike.trans (.inl h) hlike'))
  · intro h
    exact (hlike.trans (h.trans hlike'.symm)).fields_eq hcanonical hcanonical'

end Short

end SectionId

namespace FrontMatter

/-- How a section id is read that is the plain scalar of its field. It is kept as it is written just
if it is `SectionId.IsKept`, and a short id if it has no zero too many; a wide one is refused.
Ids of one value behind one point are read alike, and of short ids no others are. -/
theorem section_ids_kept_iff {source : String} {edition : Edition} {id : SectionId}
    (h : DeclaresId source edition id.text) :
    (∀ matter, extract source = .ok matter →
      (matter.givenId edition = some id.text ↔ id.IsKept)) ∧
    (id.IsShort → (id.IsKept ↔ id.IsCanonical)) ∧
    (id.IsWide → ∃ problem, extract source = .error problem) ∧
    (∀ entries, IsBlock source entries → Acceptable entries →
      ∃ matter, extract source = .ok matter) ∧
    ∀ file place other, DeclaresId file place (SectionId.text other) →
      ∀ matter others, extract source = .ok matter → extract file = .ok others →
        (id.IsShort → other.IsShort →
          (matter.givenId edition = others.givenId place ↔ id.IsLike other)) ∧
        ∀ n k : Numeral, id.fields = [n.whole, n.fraction] →
          other.fields = [k.whole, k.fraction] → n.value = k.value →
          n.value < Binary64.overflow → matter.givenId edition = others.givenId place := by
  refine ⟨fun matter hmatter => ?_, SectionId.isKept_iff_isCanonical, fun hwide => ?_,
    fun entries hblock hacceptable => ⟨_, (extract_of_isBlock hblock).1 hacceptable⟩, ?_⟩
  · obtain ⟨hreadable, hgiven⟩ := givenId_of_extract h hmatter
    rw [hgiven, SectionId.print?_eq_iff (SectionId.isReadable_iff.1 hreadable)]
  · cases hextract : extract source with
    | error problem => exact ⟨problem, rfl⟩
    | ok matter =>
      obtain ⟨hreadable, -⟩ := givenId_of_extract h hextract
      exact absurd hwide (SectionId.isReadable_iff.1 hreadable)
  · intro file place other hother matter others hmatter hothers
    obtain ⟨-, hgiven⟩ := givenId_of_extract h hmatter
    obtain ⟨-, hgiven'⟩ := givenId_of_extract hother hothers
    rw [hgiven, hgiven']
    refine ⟨SectionId.print?_eq_print?_iff, fun n k hn hk hvalue hlt => ?_⟩
    rw [SectionId.print?_of_numeral hn hlt, SectionId.print?_of_numeral hk (hvalue ▸ hlt),
      Numeral.printed_congr hvalue]

theorem declaresId_of_tokens {source id : String} {text : List Char}
    (hregion : region source.toList = .ok text)
    (htokens : tokens text = .ok [.blockMappingStart, .key, .scalar .plain "es5id", .value,
      .scalar .plain id, .blockEnd]) : DeclaresId source .es5 id := by
  have hnumber : (Node.mapping {} [(word "es5id", word id)]).number [] =
      .ok (.mapping {} [(word "es5id", word id)], []) := rfl
  have hload := Document.load_eq htokens (by rfl) hnumber
  exact ⟨_, _, {}, [], [], {}, {}, .plain, hregion, hload, rfl, rfl⟩

/-- A test of section `15.10`, and one of section `15.1`. -/
def tenthSource : String := "/*---\nes5id: 15.10\n---*/\n"

def firstSource : String := "/*---\nes5id: 15.1\n---*/\n"

theorem declaresId_tenth : DeclaresId tenthSource .es5 "15.10" := by
  have hregion : region tenthSource.toList = .ok "\nes5id: 15.10\n".toList := by decide +kernel
  exact declaresId_of_tokens hregion (by decide +kernel)

theorem declaresId_first : DeclaresId firstSource .es5 "15.1" := by
  have hregion : region firstSource.toList = .ok "\nes5id: 15.1\n".toList := by decide +kernel
  exact declaresId_of_tokens hregion (by decide +kernel)

/-- The tenth section is taken for the first. -/
theorem tenth_section_lost :
    DeclaresId tenthSource .es5 "15.10" ∧ DeclaresId firstSource .es5 "15.1" ∧
      (extract tenthSource).toOption.bind (·.es5id) = some "15.1" ∧
      (extract firstSource).toOption.bind (·.es5id) = some "15.1" :=
  ⟨declaresId_tenth, declaresId_first, by decide +kernel, by decide +kernel⟩

def tenthSection : SectionId where
  fields := ["15".toList, "10".toList]
  ne_nil := List.cons_ne_nil _ _
  isDigits := by
    simp only [List.forall_mem_cons]
    exact ⟨⟨by decide, by decide⟩, ⟨by decide, by decide⟩, List.forall_mem_nil _⟩

theorem section_ids_kept_iff_tenth :
    DeclaresId tenthSource .es5 tenthSection.text ∧ ¬ tenthSection.IsKept ∧
      ∃ matter, extract tenthSource = .ok matter ∧ matter.givenId .es5 = some "15.1" := by
  have htext : tenthSection.text = "15.10" := by decide +kernel
  have hdeclares : DeclaresId tenthSource .es5 tenthSection.text := htext ▸ declaresId_tenth
  have hid : (extract tenthSource).toOption.bind (·.es5id) = some "15.1" := by decide +kernel
  obtain ⟨hkept, -⟩ := section_ids_kept_iff hdeclares
  cases hextract : extract tenthSource with
  | error problem =>
    rw [hextract] at hid
    cases hid
  | ok matter =>
    rw [hextract] at hid
    have hgiven : matter.givenId .es5 = some "15.1" := hid
    refine ⟨hdeclares, fun h => ?_, matter, rfl, hgiven⟩
    have hsame := (hkept matter hextract).2 h
    rw [hgiven, htext] at hsame
    exact absurd hsame (by decide)

end FrontMatter

end Conformance
