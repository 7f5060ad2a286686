import Conformance.Text.Find

/-!
# Where a mark is found

`find?` gives the place of the first occurrence of a mark, and nothing exactly where there is none:
`find?_eq_some_iff` and `find?_eq_none_iff` say so in terms of what stands before the mark. What
comes after an occurrence does not matter to the search, nor does text in front that has no
character that begins the mark.
-/

namespace Conformance.Text

variable {mark text before : List Char} {c : Char}

theorem findFrom?_add (mark : List Char) (start k : Nat) (text : List Char) :
    findFrom? mark (start + k) text = (findFrom? mark start text).map (· + k) := by
  induction text generalizing start with
  | nil =>
    rw [findFrom?, findFrom?]
    split <;> rfl
  | cons d rest ih =>
    rw [findFrom?, findFrom?, Nat.add_right_comm, ih]
    split <;> rfl

theorem find?_cons (mark : List Char) (c : Char) (rest : List Char) :
    find? mark (c :: rest) =
      if mark.isPrefixOf (c :: rest) then some 0 else (find? mark rest).map (· + 1) := by
  rw [find?, findFrom?, findFrom?_add]
  rfl

/-- A mark stands in a text behind `before`, and nowhere nearer to the front. -/
structure IsFirst (mark text before : List Char) : Prop where
  occurs : before ++ mark <+: text
  first : ∀ other, other ++ mark <+: text → before.length ≤ other.length

theorem append_prefix_cons_iff {rest : List Char} :
    before ++ mark <+: c :: rest ↔
      before = [] ∧ mark <+: c :: rest ∨
        ∃ later, before = c :: later ∧ later ++ mark <+: rest := by
  cases before with
  | nil => simp
  | cons d before =>
    rw [List.cons_append, List.cons_prefix_cons]
    constructor
    · rintro ⟨rfl, hbefore⟩
      exact .inr ⟨before, rfl, hbefore⟩
    · rintro (⟨hnil, -⟩ | ⟨later, hlater, hrest⟩)
      · cases hnil
      · obtain ⟨rfl, rfl⟩ := List.cons.inj hlater
        exact ⟨rfl, hrest⟩

theorem IsFirst.cons {rest : List Char} (h : IsFirst mark rest before)
    (hfront : ¬ mark <+: c :: rest) : IsFirst mark (c :: rest) (c :: before) where
  occurs := append_prefix_cons_iff.2 (.inr ⟨before, rfl, h.occurs⟩)
  first := by
    intro other hother
    rcases append_prefix_cons_iff.1 hother with ⟨-, hmark⟩ | ⟨later, rfl, hlater⟩
    · exact absurd hmark hfront
    · exact Nat.succ_le_succ (h.first later hlater)

theorem find?_eq_none_iff : find? mark text = none ↔ ∀ before, ¬ before ++ mark <+: text := by
  induction text with
  | nil =>
    rw [find?, findFrom?]
    by_cases hmark : mark = []
    · simp [hmark]
    · simp [hmark]
  | cons c rest ih =>
    rw [find?_cons]
    by_cases hfront : mark <+: c :: rest
    · rw [if_pos (List.isPrefixOf_iff_prefix.2 hfront)]
      simp only [reduceCtorEq, false_iff]
      exact fun hnone => hnone [] hfront
    · rw [if_neg (mt List.isPrefixOf_iff_prefix.1 hfront), Option.map_eq_none_iff, ih]
      constructor
      · intro hnone before hbefore
        rcases append_prefix_cons_iff.1 hbefore with ⟨-, hmark⟩ | ⟨later, -, hlater⟩
        · exact hfront hmark
        · exact hnone later hlater
      · intro hnone before hbefore
        exact hnone (c :: before) (append_prefix_cons_iff.2 (.inr ⟨before, rfl, hbefore⟩))

theorem exists_isFirst_of_find? {place : Nat} (h : find? mark text = some place) :
    ∃ before, IsFirst mark text before ∧ before.length = place := by
  induction text generalizing place with
  | nil =>
    rw [find?, findFrom?] at h
    split at h
    · rename_i hmark
      exact ⟨[], ⟨by simp [hmark], by simp⟩, Option.some.inj h⟩
    · cases h
  | cons c rest ih =>
    rw [find?_cons] at h
    split at h
    · rename_i hfront
      exact ⟨[], ⟨List.isPrefixOf_iff_prefix.1 hfront, by simp⟩, Option.some.inj h⟩
    · rename_i hfront
      obtain ⟨later, hlater, rfl⟩ := Option.map_eq_some_iff.1 h
      obtain ⟨before, hbefore, rfl⟩ := ih hlater
      exact ⟨c :: before, hbefore.cons (mt List.isPrefixOf_iff_prefix.2 hfront), rfl⟩

/-- Where a mark occurs at all there is a first occurrence, which is the one that is found. -/
theorem find?_eq_some_iff {place : Nat} : find? mark text = some place ↔
    ∃ before, IsFirst mark text before ∧ before.length = place := by
  refine ⟨exists_isFirst_of_find?, ?_⟩
  rintro ⟨before, hbefore, rfl⟩
  cases hfind : find? mark text with
  | none => exact absurd hbefore.occurs (find?_eq_none_iff.1 hfind before)
  | some place =>
    obtain ⟨other, hother, rfl⟩ := exists_isFirst_of_find? hfind
    have hle := hbefore.first other hother.occurs
    have hge := hother.first before hbefore.occurs
    rw [Nat.le_antisymm hge hle]

/-- Text behind an occurrence does not bring an earlier one. -/
theorem IsFirst.append (h : IsFirst mark text before) (later : List Char) :
    IsFirst mark (text ++ later) before where
  occurs := h.occurs.trans (List.prefix_append text later)
  first := by
    intro other hother
    rcases Nat.le_total before.length other.length with hle | hle
    · exact hle
    · -- an occurrence that is no later than the first one ends inside the text itself
      have hlength : (other ++ mark).length ≤ text.length := by
        have hbefore := h.occurs.length_le
        simp only [List.length_append] at hbefore ⊢
        omega
      exact h.first other
        (List.prefix_of_prefix_length_le hother (List.prefix_append text later) hlength)

theorem find?_append {place : Nat} (h : find? mark text = some place) (later : List Char) :
    find? mark (text ++ later) = some place := by
  obtain ⟨before, hbefore, hplace⟩ := find?_eq_some_iff.1 h
  exact find?_eq_some_iff.2 ⟨before, hbefore.append later, hplace⟩

theorem find?_append_of_head_not_mem {first : Char} {others front : List Char}
    (h : first ∉ front) (text : List Char) :
    find? (first :: others) (front ++ text) =
      (find? (first :: others) text).map (· + front.length) := by
  induction front with
  | nil => simp
  | cons c front ih =>
    have hne : first ≠ c := fun heq => h (heq ▸ List.mem_cons_self)
    have hrest : first ∉ front := fun hmem => h (List.mem_cons_of_mem c hmem)
    have hfront : (first :: others).isPrefixOf (c :: (front ++ text)) = false := by
      simp [List.isPrefixOf, hne]
    rw [List.cons_append, find?_cons, hfront, ih hrest]
    simp [Function.comp_def, Nat.add_assoc]

theorem isPrefixOf_append_of_not_mem (hc : c ∉ mark) (before after : List Char) :
    mark.isPrefixOf (before ++ c :: after) = mark.isPrefixOf before := by
  induction mark generalizing before with
  | nil => simp
  | cons m mark ih =>
    have hm : m ≠ c := fun heq => hc (heq ▸ List.mem_cons_self)
    have hmark : c ∉ mark := fun hmem => hc (List.mem_cons_of_mem m hmem)
    cases before with
    | nil => simp [List.isPrefixOf, hm]
    | cons d before => simp [List.isPrefixOf, ih hmark]

theorem findFrom?_append_cons (hc : c ∉ mark) (hmark : mark ≠ []) (start : Nat)
    (before after : List Char) (hnone : findFrom? mark start before = none) :
    findFrom? mark start (before ++ c :: after) =
      findFrom? mark (start + before.length + 1) after := by
  induction before generalizing start with
  | nil =>
    have hprefix : mark.isPrefixOf ([] ++ c :: after) = false := by
      rw [isPrefixOf_append_of_not_mem hc]
      cases mark with
      | nil => exact (hmark rfl).elim
      | cons m mark => rfl
    rw [List.nil_append] at hprefix ⊢
    rw [findFrom?, hprefix]
    rfl
  | cons d before ih =>
    have hprefix : mark.isPrefixOf (d :: before ++ c :: after) =
        mark.isPrefixOf (d :: before) := isPrefixOf_append_of_not_mem hc _ _
    rw [findFrom?] at hnone
    rw [List.cons_append] at hprefix ⊢
    rw [findFrom?, hprefix]
    split at hnone
    · cases hnone
    · rename_i hfirst
      rw [if_neg hfirst, ih _ hnone, List.length_cons]
      congr 1
      omega

end Conformance.Text
