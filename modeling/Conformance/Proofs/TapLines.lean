import Mathlib.Data.List.Forall2
import Conformance.Proofs.Paths
import Conformance.Report.Text

/-!
# The protocol for test tools, line by line

A tool reads the protocol by lines: those that begin with `ok ` or `not ok ` are results, and one
line says how many there are. A report tells of its results and of nothing else exactly if no name
has a line break and no text that is pasted behind a name goes on with a line that looks like one of
these: `tap_faithful_iff`. Neither is seen to where the protocol is written, so a message of two
lines can tell of a result that there is not: `forged_not_faithful`.
-/

namespace Conformance

namespace Text

variable {sep : Char}

theorem fields_append_of_not_mem {before : List Char} (h : sep ∉ before) (after : List Char) :
    fields sep (before ++ after) =
      (before ++ (fields sep after).headD []) :: (fields sep after).tail := by
  induction before with
  | nil =>
    obtain ⟨field, more, hfields⟩ := List.exists_cons_of_ne_nil (fields_ne_nil sep after)
    simp [hfields]
  | cons c before ih =>
    have hc : c ≠ sep := fun heq => h (heq ▸ List.mem_cons_self)
    have hbefore : sep ∉ before := fun hmem => h (List.mem_cons_of_mem c hmem)
    rw [List.cons_append, fields, if_neg hc, ih hbefore]
    rfl

theorem fields_flatMap {α : Type} (piece : α → List Char) (pieces : List α) :
    fields sep (pieces.flatMap fun item => piece item ++ [sep]) =
      (pieces.flatMap fun item => fields sep (piece item)) ++ [[]] := by
  induction pieces with
  | nil => rfl
  | cons item rest ih =>
    rw [List.flatMap_cons, List.flatMap_cons, List.append_assoc, List.append_assoc,
      List.singleton_append, fields_append_cons, ih]

end Text

namespace Report

open Text (fields)

/-- A line that tells of a result. -/
def IsResultLine (line : List Char) : Prop :=
  "ok ".toList <+: line ∨ "not ok ".toList <+: line

instance (line : List Char) : Decidable (IsResultLine line) :=
  inferInstanceAs (Decidable (_ ∨ _))

/-- A line that says how many results there are. -/
def IsPlanLine (line : List Char) : Prop :=
  "1..".toList <+: line ∧ line.drop 3 ≠ [] ∧ ∀ c ∈ line.drop 3, c.isDigit = true

instance (line : List Char) : Decidable (IsPlanLine line) :=
  inferInstanceAs (Decidable (_ ∧ _ ∧ _))

/-- A line that tells of nothing. -/
def IsIdleLine (line : List Char) : Prop :=
  ¬ IsResultLine line ∧ ¬ IsPlanLine line

instance (line : List Char) : Decidable (IsIdleLine line) :=
  inferInstanceAs (Decidable (_ ∧ _))

/-- A line tells of a result, the `n`-th one, what is so. -/
structure Tells (n : Nat) (result : Result) (line : List Char) : Prop where
  ok_iff : "ok ".toList <+: line ↔ result.grade = .pass ∨ result.grade = .skip
  numbered : ∃ status rest, (status = "ok " ∨ status = "not ok ") ∧
    line = (status ++ toString n ++ " ").toList ++ rest
  named : result.name.toList <:+: line

/-- A text tells of results in their order, numbered from one, and of no other result. -/
structure Faithful (results : List Result) (text : List Char) : Prop where
  plan : (fields '\n' text).filter IsPlanLine = [("1.." ++ toString results.length).toList]
  told : List.Forall₂ (fun (result, n) line => Tells n result line) (results.zipIdx 1)
    ((fields '\n' text).filter IsResultLine)

/-- The text that is pasted behind the name of a result, if there is one. -/
def pasted? (result : Result) : Option String :=
  match result.grade with
  | .pass => none
  | .skip => some (result.error.getD "skipped")
  | _ => result.error

/-- A result whose texts cannot be taken for something else. -/
structure IsClean (result : Result) : Prop where
  name : '\n' ∉ result.name.toList
  pasted : ∀ text ∈ pasted? result, ∀ line ∈ (fields '\n' text.toList).tail, IsIdleLine line

/-! ### The lines of one result -/

/-- What stands in front of a name. -/
def mark (n : Nat) (result : Result) : String :=
  (if result.grade = .pass ∨ result.grade = .skip then "ok " else "not ok ") ++ toString n ++ " - "

/-- What stands behind a name. -/
def trailer (result : Result) : String :=
  match result.grade with
  | .pass => ""
  | .skip => " # SKIP " ++ result.error.getD "skipped"
  | _ =>
    match result.error with
    | some error => "\n  ---\n  message: " ++ error ++ "\n  ---"
    | none => ""

/-- The lines of a name and what stands behind it. -/
def remainder (result : Result) : List (List Char) :=
  fields '\n' (result.name ++ trailer result).toList

/-- The first line of a result. -/
def firstLine (n : Nat) (result : Result) : List Char :=
  (mark n result).toList ++ (remainder result).headD []

theorem tapLines_eq (n : Nat) (result : Result) :
    tapLines n result = mark n result ++ (result.name ++ trailer result) ++ "\n" := by
  unfold tapLines mark trailer
  rw [← String.toList_inj]
  cases result.grade with
  | pass => simp
  | skip => simp
  | fail => cases result.error <;> simp
  | error => cases result.error <;> simp

theorem isDigit_of_mem_toString {n : Nat} {c : Char} (h : c ∈ (toString n).toList) :
    c.isDigit = true := by
  rw [Nat.toString_eq_repr, Nat.toList_repr] at h
  exact Nat.isDigit_of_mem_toDigits (by decide) (by decide) h

theorem not_mem_mark (n : Nat) (result : Result) : '\n' ∉ (mark n result).toList := by
  have hnumber : '\n' ∉ (toString n).toList := fun h =>
    absurd (isDigit_of_mem_toString h) (by decide)
  unfold mark
  split <;> simpa using hnumber

theorem fields_block (n : Nat) (result : Result) :
    fields '\n' (mark n result ++ (result.name ++ trailer result)).toList =
      firstLine n result :: (remainder result).tail := by
  rw [String.toList_append, Text.fields_append_of_not_mem (not_mem_mark n result)]
  rfl

/-- The lines of a report: two, those of its results, and nothing behind the last line break. -/
theorem fields_tap (report : Report) :
    fields '\n' report.tap.toList =
      "TAP version 13".toList :: ("1.." ++ toString report.results.length).toList ::
        ((report.results.zipIdx 1).flatMap
          fun (result, n) => firstLine n result :: (remainder result).tail) ++ [[]] := by
  have hhead : '\n' ∉ "TAP version 13".toList := by decide
  have hplan : '\n' ∉ ("1.." ++ toString report.results.length).toList := by
    intro h
    rw [String.toList_append, List.mem_append] at h
    rcases h with hdots | hnumber
    · exact absurd hdots (by decide)
    · exact absurd (isDigit_of_mem_toString hnumber) (by decide)
  have htext : report.tap.toList = "TAP version 13".toList ++ '\n' ::
      (("1.." ++ toString report.results.length).toList ++ '\n' ::
        (report.results.zipIdx 1).flatMap fun entry =>
          (mark entry.2 entry.1 ++ (entry.1.name ++ trailer entry.1)).toList ++ ['\n']) := by
    unfold tap
    simp [tapLines_eq, List.flatMap_map]
  rw [htext, Text.fields_append_cons, Text.fields_of_not_mem hhead, Text.fields_append_cons,
    Text.fields_of_not_mem hplan, Text.fields_flatMap]
  simp only [fields_block]
  rfl

theorem isResultLine_firstLine (n : Nat) (result : Result) : IsResultLine (firstLine n result) := by
  unfold IsResultLine firstLine mark
  split <;> simp

theorem not_isPlanLine_firstLine (n : Nat) (result : Result) :
    ¬ IsPlanLine (firstLine n result) := by
  rintro ⟨hdots, -⟩
  unfold firstLine mark at hdots
  split at hdots <;> simp at hdots

theorem tells_firstLine_iff (n : Nat) (result : Result) :
    Tells n result (firstLine n result) ↔ '\n' ∉ result.name.toList := by
  constructor
  · intro h hbreak
    have hline : firstLine n result ∈ fields '\n'
        (mark n result ++ (result.name ++ trailer result)).toList := by
      rw [fields_block]
      exact List.mem_cons_self
    exact Text.not_mem_of_mem_fields hline (h.named.subset hbreak)
  · intro hname
    refine ⟨?_, ?_, ?_⟩
    · unfold firstLine mark
      split
      · rename_i hgrade
        simpa using hgrade
      · rename_i hgrade
        simpa using hgrade
    · unfold firstLine mark
      split
      · exact ⟨"ok ", "- ".toList ++ (remainder result).headD [], .inl rfl, by simp⟩
      · exact ⟨"not ok ", "- ".toList ++ (remainder result).headD [], .inr rfl, by simp⟩
    · unfold firstLine remainder
      rw [String.toList_append, Text.fields_append_of_not_mem hname]
      exact ⟨(mark n result).toList, (fields '\n' (trailer result).toList).headD [], by simp⟩

theorem tail_fields_trailer (result : Result) : (fields '\n' (trailer result).toList).tail =
    match result.grade, result.error with
    | .pass, _ | .fail, none | .error, none => []
    | .skip, error => (fields '\n' (error.getD "skipped").toList).tail
    | .fail, some error | .error, some error =>
      "  ---".toList :: ("  message: ".toList ++ (fields '\n' error.toList).headD []) ::
        (fields '\n' error.toList).tail ++ ["  ---".toList] := by
  have hmessage : ∀ error : String,
      (fields '\n' ("\n  ---\n  message: " ++ error ++ "\n  ---").toList).tail =
        "  ---".toList :: ("  message: ".toList ++ (fields '\n' error.toList).headD []) ::
          (fields '\n' error.toList).tail ++ ["  ---".toList] := by
    intro error
    have htext : ("\n  ---\n  message: " ++ error ++ "\n  ---").toList =
        [] ++ '\n' :: ("  ---".toList ++ '\n' ::
          (("  message: ".toList ++ error.toList) ++ '\n' :: "  ---".toList)) := by simp
    have hrule : fields '\n' "  ---".toList = ["  ---".toList] := by decide
    have hmark : '\n' ∉ "  message: ".toList := by decide
    rw [htext, Text.fields_append_cons, Text.fields_append_cons, Text.fields_append_cons, hrule,
      Text.fields_append_of_not_mem hmark]
    rfl
  have hskip : '\n' ∉ " # SKIP ".toList := by decide
  unfold trailer
  cases result.grade with
  | pass => rfl
  | skip =>
    simp only [String.toList_append]
    rw [Text.fields_append_of_not_mem hskip]
    rfl
  | fail =>
    cases result.error with
    | none => rfl
    | some error => exact hmessage error
  | error =>
    cases result.error with
    | none => rfl
    | some error => exact hmessage error

/-- Behind the first line of a result stand lines of what is pasted, and such as tell of nothing. -/
theorem tail_remainder_iff {result : Result} (hname : '\n' ∉ result.name.toList) :
    (∀ line ∈ (remainder result).tail, IsIdleLine line) ↔
      ∀ text ∈ pasted? result, ∀ line ∈ (fields '\n' text.toList).tail, IsIdleLine line := by
  have hrule : IsIdleLine "  ---".toList := by decide
  have hmessage : ∀ line : List Char, IsIdleLine ("  message: ".toList ++ line) := by
    intro line
    simp [IsIdleLine, IsResultLine, IsPlanLine]
  have hblock : ∀ (line : List Char) (lines : List (List Char)),
      (∀ other ∈ "  ---".toList :: ("  message: ".toList ++ line) :: lines ++ ["  ---".toList],
        IsIdleLine other) ↔ ∀ other ∈ lines, IsIdleLine other := by
    intro line lines
    rw [List.forall_mem_append, List.forall_mem_cons, List.forall_mem_cons,
      List.forall_mem_singleton]
    simp only [hrule, hmessage, true_and, and_true]
  unfold remainder
  rw [String.toList_append, Text.fields_append_of_not_mem hname, List.tail_cons,
    tail_fields_trailer]
  unfold pasted?
  cases result.grade with
  | pass => simp
  | skip => simp
  | fail =>
    cases result.error with
    | none => simp
    | some error => simpa only [Option.mem_some_iff, forall_eq'] using hblock _ _
  | error =>
    cases result.error with
    | none => simp
    | some error => simpa only [Option.mem_some_iff, forall_eq'] using hblock _ _

/-! ### The lines of a report -/

section

variable {α β : Type} {first : α → β} {later : α → List β} {items : List α}

theorem length_flatMap_cons (first : α → β) (later : α → List β) (items : List α) :
    (items.flatMap fun item => first item :: later item).length =
      items.length + (items.flatMap later).length := by
  induction items with
  | nil => rfl
  | cons item rest ih =>
    simp only [List.flatMap_cons, List.length_append, List.length_cons, ih]
    omega

theorem flatMap_cons_eq_map (h : items.flatMap later = []) :
    (items.flatMap fun item => first item :: later item) = items.map first := by
  rw [List.flatMap_eq_nil_iff] at h
  induction items with
  | nil => rfl
  | cons item rest ih =>
    obtain ⟨hitem, hrest⟩ := List.forall_mem_cons.1 h
    rw [List.flatMap_cons, hitem, ih hrest]
    rfl

/-- Where each item stands first among lines of its own, the items match the lines one by one only
if there are no others. -/
theorem forall₂_flatMap_cons_iff {R : α → β → Prop} :
    List.Forall₂ R items (items.flatMap fun item => first item :: later item) ↔
      (∀ item ∈ items, R item (first item)) ∧ items.flatMap later = [] := by
  have hmap : List.Forall₂ R items (items.map first) ↔ ∀ item ∈ items, R item (first item) := by
    rw [List.forall₂_map_right_iff, List.forall₂_same]
  constructor
  · intro h
    have hlater : items.flatMap later = [] := by
      have hlength := h.length_eq
      rw [length_flatMap_cons] at hlength
      exact List.eq_nil_of_length_eq_zero (by omega)
    rw [flatMap_cons_eq_map hlater] at h
    exact ⟨hmap.1 h, hlater⟩
  · rintro ⟨hfirst, hlater⟩
    rw [flatMap_cons_eq_map hlater]
    exact hmap.2 hfirst

end

theorem filter_fields_tap (report : Report) {p : List Char → Prop} [DecidablePred p]
    (hhead : ¬ p "TAP version 13".toList) (hnone : ¬ p []) :
    (fields '\n' report.tap.toList).filter p =
      [("1.." ++ toString report.results.length).toList].filter p ++
        (report.results.zipIdx 1).flatMap fun entry =>
          (firstLine entry.2 entry.1 :: (remainder entry.1).tail).filter p := by
  simp only [fields_tap, List.filter_append, List.filter_cons, hhead, hnone, decide_false,
    Bool.false_eq_true, if_false, List.filter_nil, List.filter_flatMap, List.append_nil]
  split <;> simp

theorem filter_isPlanLine_tap (report : Report) :
    (fields '\n' report.tap.toList).filter IsPlanLine =
      ("1.." ++ toString report.results.length).toList ::
        report.results.flatMap fun result => (remainder result).tail.filter IsPlanLine := by
  have hplan : IsPlanLine ("1.." ++ toString report.results.length).toList := by
    refine ⟨by simp, ?_, ?_⟩
    · simp [Nat.toDigits_ne_nil]
    · intro c hc
      exact isDigit_of_mem_toString (by simpa using hc)
  rw [filter_fields_tap report (by decide) (by decide)]
  simp only [List.filter_cons, hplan, not_isPlanLine_firstLine, decide_true, decide_false,
    Bool.false_eq_true, if_true, if_false, List.filter_nil, List.singleton_append]
  conv_rhs => rw [← List.zipIdx_map_fst 1 report.results, List.flatMap_map, List.length_map]
  simp

theorem filter_isResultLine_tap (report : Report) :
    (fields '\n' report.tap.toList).filter IsResultLine =
      (report.results.zipIdx 1).flatMap fun entry => firstLine entry.2 entry.1 ::
        (remainder entry.1).tail.filter IsResultLine := by
  have hplan : ¬ IsResultLine ("1.." ++ toString report.results.length).toList := by
    simp [IsResultLine]
  rw [filter_fields_tap report (by decide) (by decide)]
  simp only [List.filter_cons, hplan, isResultLine_firstLine, decide_true, decide_false,
    Bool.false_eq_true, if_true, if_false, List.filter_nil, List.nil_append]

theorem isClean_iff {result : Result} : IsClean result ↔
    '\n' ∉ result.name.toList ∧ ∀ line ∈ (remainder result).tail, IsIdleLine line := by
  constructor
  · intro h
    exact ⟨h.name, (tail_remainder_iff h.name).2 h.pasted⟩
  · rintro ⟨hname, hlines⟩
    exact ⟨hname, (tail_remainder_iff hname).1 hlines⟩

/-- The protocol of a report tells of its results and of no other exactly if each of them is clean:
no name has a line break, and no text that is pasted goes on with a line of the protocol. -/
theorem tap_faithful_iff (report : Report) :
    Faithful report.results report.tap.toList ↔ ∀ result ∈ report.results, IsClean result := by
  have hentries : ∀ P : Result → Prop,
      (∀ entry ∈ report.results.zipIdx 1, P entry.1) ↔ ∀ result ∈ report.results, P result := by
    intro P
    conv_rhs => rw [← List.zipIdx_map_fst 1 report.results, List.forall_mem_map]
  have hplan : (fields '\n' report.tap.toList).filter IsPlanLine =
      [("1.." ++ toString report.results.length).toList] ↔
        ∀ result ∈ report.results, ∀ line ∈ (remainder result).tail, ¬ IsPlanLine line := by
    rw [filter_isPlanLine_tap, List.cons_eq_cons, and_iff_right rfl, List.flatMap_eq_nil_iff]
    simp only [List.filter_eq_nil_iff, decide_eq_true_eq]
  have htold : List.Forall₂ (fun (result, n) line => Tells n result line)
      (report.results.zipIdx 1) ((fields '\n' report.tap.toList).filter IsResultLine) ↔
        (∀ result ∈ report.results, '\n' ∉ result.name.toList) ∧
          ∀ result ∈ report.results, ∀ line ∈ (remainder result).tail, ¬ IsResultLine line := by
    rw [filter_isResultLine_tap, forall₂_flatMap_cons_iff, List.flatMap_eq_nil_iff]
    simp only [tells_firstLine_iff, List.filter_eq_nil_iff, decide_eq_true_eq]
    rw [hentries fun result => '\n' ∉ result.name.toList,
      hentries fun result => ∀ line ∈ (remainder result).tail, ¬ IsResultLine line]
  simp only [isClean_iff]
  constructor
  · rintro ⟨hone, hall⟩ result hresult
    obtain ⟨hnames, hresults⟩ := htold.1 hall
    exact ⟨hnames result hresult, fun line hline =>
      ⟨hresults result hresult line hline, hplan.1 hone result hresult line hline⟩⟩
  · intro h
    refine ⟨hplan.2 fun result hresult line hline => ((h result hresult).2 line hline).2,
      htold.2 ⟨fun result hresult => (h result hresult).1, ?_⟩⟩
    exact fun result hresult line hline => ((h result hresult).2 line hline).1

/-- A failed test whose message goes on with a result that there is not. -/
def forged : Report :=
  Report.empty.add
    { Result.ofFile "test/a.js" .fail (some "boom\nok 2 - forged") with variant := some .nonStrict }

theorem forged_not_faithful :
    forged.results.map (fun result => (result.name, result.grade)) = [("test/a.js", .fail)] ∧
    (fields '\n' forged.tap.toList).filter IsResultLine =
      ["not ok 1 - test/a.js".toList, "ok 2 - forged".toList] ∧
    ¬ Faithful forged.results forged.tap.toList := by
  have hlines : (fields '\n' forged.tap.toList).filter IsResultLine =
      ["not ok 1 - test/a.js".toList, "ok 2 - forged".toList] := by decide +kernel
  refine ⟨by decide +kernel, hlines, ?_⟩
  rintro ⟨-, htold⟩
  have hlength := htold.length_eq
  rw [hlines] at hlength
  exact absurd hlength (by decide +kernel)

end Report

end Conformance
