import Conformance.Json.Printer
import Conformance.Proofs.Placing
import Conformance.Yaml.Token.Lexer

/-!
# The text of JSON values

Of the values that front matter is printed as (`Json.Textual`), the printed text is printable
(`Json.isPrintable_prettyText`), and a text in quotes is read back by the reader of scalars
(`Yaml.Quoted.read_escaped`). `Json.tokens` are the tokens that a value's text has when it is taken
for flow collections of YAML.
-/

namespace Conformance

namespace Json

open Yaml

mutual

/-- Values made of null and printable texts, the keys of objects short enough to be found. -/
def Textual : Json → Prop
  | .null => True
  | .string s => ∀ c ∈ s.toList, isPrintable c = true
  | .array items => ItemsTextual items
  | .object fields => FieldsTextual fields
  | _ => False

def ItemsTextual : List Json → Prop
  | [] => True
  | x :: rest => Textual x ∧ ItemsTextual rest

def FieldsTextual : List (String × Json) → Prop
  | [] => True
  | (key, x) :: rest =>
    ((∀ c ∈ key.toList, isPrintable c = true) ∧ (stringText key).length ≤ 1024) ∧
      Textual x ∧ FieldsTextual rest

end

mutual

/-- The tokens of a value's text. -/
def tokens : Json → List Token
  | .array items => .flowSequenceStart :: (itemTokens items ++ [.flowSequenceEnd])
  | .object fields => .flowMappingStart :: (fieldTokens fields ++ [.flowMappingEnd])
  | .string s => [.scalar .quoted s]
  | value => [.scalar .plain (String.ofList (scalarText value))]

def itemTokens : List Json → List Token
  | [] => []
  | [x] => tokens x
  | x :: rest => tokens x ++ .flowEntry :: itemTokens rest

def fieldTokens : List (String × Json) → List Token
  | [] => []
  | [(key, x)] => .key :: .scalar .quoted key :: .value :: tokens x
  | (key, x) :: rest =>
    .key :: .scalar .quoted key :: .value :: (tokens x ++ .flowEntry :: fieldTokens rest)

end

/-! ### Printed text is printable -/

theorem isPrintable_escapeChar {c : Char} (h : isPrintable c = true) :
    ∀ d ∈ escapeChar c, isPrintable d = true ∧ d ≠ '\n' := by
  have hall : ∀ c ∈ printables, ∀ d ∈ escapeChar c, isPrintable d = true ∧ d ≠ '\n' := by decide
  exact hall c (mem_printables h)

theorem isPrintable_stringText {s : String} (h : ∀ c ∈ s.toList, isPrintable c = true) :
    ∀ d ∈ stringText s, isPrintable d = true ∧ d ≠ '\n' := by
  intro d hd
  simp only [stringText, List.mem_cons, List.mem_append, List.mem_flatMap, List.not_mem_nil,
    or_false] at hd
  rcases hd with rfl | ⟨c, hc, hmem⟩ | rfl
  · decide
  · exact isPrintable_escapeChar (h c hc) d hmem
  · decide

theorem isPrintable_newLine (level : Nat) : ∀ d ∈ newLine level, isPrintable d = true := by
  intro d hd
  rcases List.mem_cons.1 hd with rfl | hblank
  · rfl
  · rw [List.eq_of_mem_replicate hblank]
    rfl

@[simp] theorem prettyText_array_nil (level : Nat) : prettyText level (.array []) = ['[', ']'] := by
  simp [prettyText]

@[simp] theorem prettyText_array_cons (level : Nat) (x : Json) (rest : List Json) :
    prettyText level (.array (x :: rest)) =
      '[' :: (prettyItems (level + 1) (x :: rest) ++ newLine level ++ [']']) := by
  simp [prettyText]

@[simp] theorem prettyText_object_nil (level : Nat) :
    prettyText level (.object []) = ['\x7b', '\x7d'] := by
  simp [prettyText]

@[simp] theorem prettyText_object_cons (level : Nat) (field : String × Json)
    (rest : List (String × Json)) :
    prettyText level (.object (field :: rest)) =
      '\x7b' :: (prettyFields (level + 1) (field :: rest) ++ newLine level ++ ['\x7d']) := by
  simp [prettyText]

mutual

theorem isPrintable_prettyText (level : Nat) : ∀ {value : Json}, value.Textual →
    ∀ d ∈ prettyText level value, isPrintable d = true
  | .null, _ => by
    simp only [prettyText, scalarText]
    decide
  | .string s, h => fun d hd => (isPrintable_stringText h d hd).1
  | .array [], _ => by
    rw [prettyText_array_nil]
    decide
  | .array (x :: rest), h => by
    have hitems := isPrintable_prettyItems (level + 1) h
    simp only [prettyText_array_cons, List.forall_mem_cons, List.forall_mem_append]
    exact ⟨by decide, ⟨hitems, isPrintable_newLine level⟩, by decide⟩
  | .object [], _ => by
    rw [prettyText_object_nil]
    decide
  | .object (field :: rest), h => by
    have hfields := isPrintable_prettyFields (level + 1) h
    simp only [prettyText_object_cons, List.forall_mem_cons, List.forall_mem_append]
    exact ⟨by decide, ⟨hfields, isPrintable_newLine level⟩, by decide⟩

theorem isPrintable_prettyItems (level : Nat) : ∀ {items : List Json}, ItemsTextual items →
    ∀ d ∈ prettyItems level items, isPrintable d = true
  | [], _ => by simp [prettyItems]
  | [x], h => by
    have hx := isPrintable_prettyText level h.1
    simp only [prettyItems, List.forall_mem_append]
    exact ⟨isPrintable_newLine level, hx⟩
  | x :: y :: rest, h => by
    have hx := isPrintable_prettyText level h.1
    have hrest := isPrintable_prettyItems level h.2
    simp only [prettyItems, List.forall_mem_append, List.forall_mem_cons]
    exact ⟨⟨isPrintable_newLine level, hx⟩, by decide, hrest⟩

theorem isPrintable_prettyFields (level : Nat) : ∀ {fields : List (String × Json)},
    FieldsTextual fields → ∀ d ∈ prettyFields level fields, isPrintable d = true
  | [], _ => by simp [prettyFields]
  | [(key, x)], h => by
    have hkey : ∀ d ∈ stringText key, isPrintable d = true :=
      fun d hd => (isPrintable_stringText h.1.1 d hd).1
    have hx := isPrintable_prettyText level h.2.1
    simp only [prettyFields, List.forall_mem_append, List.forall_mem_cons]
    exact ⟨⟨isPrintable_newLine level, hkey⟩, by decide, by decide, hx⟩
  | (key, x) :: y :: rest, h => by
    have hkey : ∀ d ∈ stringText key, isPrintable d = true :=
      fun d hd => (isPrintable_stringText h.1.1 d hd).1
    have hx := isPrintable_prettyText level h.2.1
    have hrest := isPrintable_prettyFields level h.2.2
    simp only [prettyFields, List.forall_mem_append, List.forall_mem_cons]
    exact ⟨⟨⟨isPrintable_newLine level, hkey⟩, by decide, by decide, hx⟩, by decide, hrest⟩

end

end Json

namespace Yaml

theorem atDocumentMark_of_column {p : Placed} (h : p.column ≠ 0) (rest : List Placed) :
    atDocumentMark (p :: rest) = false := by
  unfold atDocumentMark
  split
  · simp_all
  · rfl

theorem atDocumentMark_of_char {p : Placed} (h : p.char ≠ '-' ∧ p.char ≠ '.')
    (rest : List Placed) : atDocumentMark (p :: rest) = false := by
  unfold atDocumentMark
  split
  · simp_all
  · rfl

namespace Quoted

open Json

/-- What follows the backslash where a printable character is escaped. -/
def escapeLetter (c : Char) : Char := if c = '\n' then 'n' else c

theorem escapeChar_cases {c : Char} (h : isPrintable c = true) :
    (escapeChar c = [c] ∧ c = ' ') ∨
    (escapeChar c = [c] ∧ isBlank c = false ∧ isBreak c = false ∧ c ≠ '\x22' ∧ c ≠ '\\') ∨
    (escapeChar c = ['\\', escapeLetter c] ∧ simpleEscape? (escapeLetter c) = some c ∧
      isBreak (escapeLetter c) = false) := by
  have hall : ∀ c ∈ printables,
      (escapeChar c = [c] ∧ c = ' ') ∨
      (escapeChar c = [c] ∧ isBlank c = false ∧ isBreak c = false ∧ c ≠ '\x22' ∧ c ≠ '\\') ∨
      (escapeChar c = ['\\', escapeLetter c] ∧ simpleEscape? (escapeLetter c) = some c ∧
        isBreak (escapeLetter c) = false) := by
    decide +kernel
  exact hall c (mem_printables h)

variable {cursor : Cursor} {fuel : Nat} {seen gap : List Char} {rest : List Placed}

theorem scan_blank (after : List Placed) :
    scan false (fuel + 1) seen (.blanks gap) (cursor.put ' ' :: after) =
      scan false fuel seen (.blanks (' ' :: gap)) after := by
  rw [scan]
  rfl

theorem scan_close (h : cursor.column ≠ 0) :
    scan false (fuel + 1) seen (.blanks gap) (cursor.put '\x22' :: rest) =
      .ok (seen.reverse ++ gap.reverse, rest) := by
  rw [scan, atDocumentMark_of_column h]
  simp [isBlank, isBreak, Gap.text]

theorem scan_word {c : Char} (h : cursor.column ≠ 0)
    (hc : isBlank c = false ∧ isBreak c = false ∧ c ≠ '\x22' ∧ c ≠ '\\') (after : List Placed) :
    scan false (fuel + 1) seen (.blanks gap) (cursor.put c :: after) =
      scan false fuel (c :: (gap ++ seen)) (.blanks []) after := by
  rw [scan, atDocumentMark_of_column h]
  simp [hc, Gap.text, Gap.none]

theorem scan_escape {c : Char} {place : Cursor} (h : cursor.column ≠ 0) {e : Char}
    (he : simpleEscape? e = some c ∧ isBreak e = false) (after : List Placed) :
    scan false (fuel + 1) seen (.blanks gap) (cursor.put '\\' :: place.put e :: after) =
      scan false fuel (c :: (gap ++ seen)) (.blanks []) after := by
  have hslash : isBlank '\\' = false ∧ isBreak '\\' = false := ⟨rfl, rfl⟩
  rw [scan, atDocumentMark_of_column h]
  simp [hslash, he, escape?, Gap.text, Gap.none]

theorem scan_escaped {s : List Char} (h : ∀ c ∈ s, isPrintable c = true) (hfuel : s.length < fuel)
    (hcolumn : cursor.column ≠ 0) :
    scan false fuel seen (.blanks gap) (cursor.lay (s.flatMap escapeChar ++ ['\x22']) ++ rest) =
      .ok (seen.reverse ++ gap.reverse ++ s, rest) := by
  -- the blanks in `gap` go into the text with the character behind them
  induction s generalizing fuel seen gap cursor with
  | nil =>
    obtain ⟨fuel, rfl⟩ : ∃ n, fuel = n + 1 := ⟨fuel - 1, by omega⟩
    rw [List.append_nil]
    exact scan_close hcolumn
  | cons c s ih =>
    obtain ⟨fuel, rfl⟩ : ∃ n, fuel = n + 1 := ⟨fuel - 1, by omega⟩
    have hs : ∀ d ∈ s, isPrintable d = true := fun d hd => h d (List.mem_cons_of_mem c hd)
    have hlength : s.length < fuel := by simpa using hfuel
    rw [List.flatMap_cons, List.append_assoc]
    rcases escapeChar_cases (h c List.mem_cons_self) with
      ⟨htext, rfl⟩ | ⟨htext, hword⟩ | ⟨htext, hescape⟩
    · have hnext : (cursor.next ' ').column ≠ 0 := Cursor.column_next (by decide)
      rw [htext, List.singleton_append, Cursor.lay, List.cons_append, scan_blank,
        ih hs hlength hnext]
      simp
    · have hnext : (cursor.next c).column ≠ 0 := by
        apply Cursor.column_next
        rintro rfl
        simp [isBreak] at hword
      rw [htext, List.singleton_append, Cursor.lay, List.cons_append, scan_word hcolumn hword,
        ih hs hlength hnext]
      simp
    · generalize escapeLetter c = e at htext hescape
      have hnext : ((cursor.next '\\').next e).column ≠ 0 := by
        apply Cursor.column_next
        intro heq
        rw [heq] at hescape
        simp [isBreak] at hescape
      rw [htext, List.cons_append, List.singleton_append, Cursor.lay, Cursor.lay, List.cons_append,
        List.cons_append, scan_escape hcolumn hescape, ih hs hlength hnext]
      simp

theorem length_le_escaped {s : List Char} (h : ∀ c ∈ s, isPrintable c = true) :
    s.length ≤ (s.flatMap escapeChar).length := by
  induction s with
  | nil => exact Nat.le_refl 0
  | cons c s ih =>
    have hs := ih fun d hd => h d (List.mem_cons_of_mem c hd)
    have hc : 1 ≤ (escapeChar c).length := by
      rcases escapeChar_cases (h c List.mem_cons_self) with ⟨htext, _⟩ | ⟨htext, _⟩ | ⟨htext, _⟩ <;>
        simp [htext]
    rw [List.flatMap_cons, List.length_append, List.length_cons]
    omega

theorem read_escaped {s : List Char} (h : ∀ c ∈ s, isPrintable c = true)
    (hcolumn : cursor.column ≠ 0) :
    read false (cursor.lay (s.flatMap escapeChar ++ ['\x22']) ++ rest) = .ok (s, rest) := by
  have hlength := length_le_escaped h
  have hfuel : s.length < (cursor.lay (s.flatMap escapeChar ++ ['\x22']) ++ rest).length + 1 := by
    rw [List.length_append, Cursor.length_lay, List.length_append]
    omega
  exact scan_escaped h hfuel hcolumn

end Quoted

end Yaml

end Conformance
