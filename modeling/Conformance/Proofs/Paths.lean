import Conformance.Files.Path

/-!
# How paths are spelled

A path goes through names, and it can be spelled in many ways: with a slash more between two names,
with a dot that stays where it is, with slashes at its end. `names` are the names it goes through,
and `spell` is the plain spelling of names. Paths below a directory are made with `below`, which
takes the directory as it is spelled but for the slashes at its end: `foldl_below_eq_spell_iff` says
when that is the plain spelling.
-/

namespace Conformance

namespace Text

variable {sep : Char}

theorem fields_cons_of_ne {c : Char} (h : c ≠ sep) (text : List Char) :
    ∃ field more, fields sep text = field :: more ∧
      fields sep (c :: text) = (c :: field) :: more := by
  obtain ⟨field, more, hfields⟩ := List.exists_cons_of_ne_nil (fields_ne_nil sep text)
  exact ⟨field, more, hfields, by rw [fields, if_neg h, hfields]⟩

theorem fields_of_not_mem {text : List Char} (h : sep ∉ text) : fields sep text = [text] := by
  induction text with
  | nil => rfl
  | cons c rest ih =>
    have hc : c ≠ sep := fun heq => h (heq ▸ List.mem_cons_self)
    have hrest : sep ∉ rest := fun hmem => h (List.mem_cons_of_mem c hmem)
    rw [fields, if_neg hc, ih hrest]

theorem fields_append_cons (before after : List Char) :
    fields sep (before ++ sep :: after) = fields sep before ++ fields sep after := by
  induction before with
  | nil => simp [fields]
  | cons c before ih =>
    by_cases hc : c = sep
    · subst hc
      simp [fields, ih]
    · obtain ⟨field, more, hbefore, hcons⟩ := fields_cons_of_ne hc before
      rw [List.cons_append, fields, if_neg hc, ih, hbefore, hcons]
      rfl

theorem fields_intercalate {names : List (List Char)} (hne : names ≠ [])
    (h : ∀ name ∈ names, sep ∉ name) : fields sep (List.intercalate [sep] names) = names := by
  induction names with
  | nil => exact absurd rfl hne
  | cons name rest ih =>
    have hname := h name List.mem_cons_self
    cases rest with
    | nil => rw [List.intercalate_singleton, fields_of_not_mem hname]
    | cons next rest =>
      have hrest : ∀ other ∈ next :: rest, sep ∉ other :=
        fun other hother => h other (List.mem_cons_of_mem name hother)
      rw [List.intercalate_cons_cons, List.append_assoc, List.singleton_append,
        fields_append_cons, fields_of_not_mem hname, ih (List.cons_ne_nil _ _) hrest]
      rfl

theorem filter_fields_append_replicate (sep : Char) (text : List Char) (count : Nat) :
    (fields sep (text ++ List.replicate count sep)).filter (· ≠ []) =
      (fields sep text).filter (· ≠ []) := by
  induction count with
  | zero => simp
  | succ count ih =>
    rw [List.replicate_succ', ← List.append_assoc, fields_append_cons, List.filter_append, ih]
    simp [fields]

theorem exists_eq_trimTrailing_append (c : Char) (text : List Char) :
    ∃ count, text = trimTrailing c text ++ List.replicate count c := by
  have hreverse : text.reverse =
      text.reverse.takeWhile (· == c) ++ (trimTrailing c text).reverse := by
    rw [trimTrailing, List.reverse_reverse, List.takeWhile_append_dropWhile]
  have htail : ∀ d ∈ text.reverse.takeWhile (· == c), d = c :=
    fun d hd => eq_of_beq (List.all_eq_true.1 List.all_takeWhile d hd)
  refine ⟨(text.reverse.takeWhile (· == c)).length, ?_⟩
  have htext := congrArg List.reverse hreverse
  rw [List.eq_replicate_iff.2 ⟨rfl, htail⟩] at htext
  simpa using htext

theorem trimTrailing_of_getLast? {c : Char} {text : List Char} (h : text.getLast? ≠ some c) :
    trimTrailing c text = text := by
  rw [← List.head?_reverse] at h
  rw [trimTrailing]
  cases hreverse : text.reverse with
  | nil => simpa using hreverse
  | cons d rest =>
    rw [hreverse] at h
    have hd : d ≠ c := by simpa using h
    rw [List.dropWhile_cons_of_neg (by simpa using hd), ← hreverse, List.reverse_reverse]

theorem trimTrailing_append_replicate (c : Char) (text : List Char) (count : Nat) :
    trimTrailing c (text ++ List.replicate count c) = trimTrailing c text := by
  unfold trimTrailing
  rw [List.reverse_append, List.reverse_replicate, List.dropWhile_append_of_pos]
  intro d hd
  simp [List.eq_of_mem_replicate hd]

theorem not_mem_of_mem_fields {text field : List Char} (h : field ∈ fields sep text) :
    sep ∉ field := by
  induction text generalizing field with
  | nil =>
    have hfield : field = [] := by simpa [fields] using h
    simp [hfield]
  | cons c rest ih =>
    by_cases hc : c = sep
    · rw [fields, if_pos hc] at h
      rcases List.mem_cons.1 h with rfl | hmem
      · exact List.not_mem_nil
      · exact ih hmem
    · obtain ⟨first, more, hrest, hcons⟩ := fields_cons_of_ne hc rest
      rw [hcons] at h
      rw [hrest] at ih
      rcases List.mem_cons.1 h with rfl | hmem
      · have hfirst := ih List.mem_cons_self
        simp [hfirst, Ne.symm hc]
      · exact ih (List.mem_cons_of_mem first hmem)

end Text

namespace Files

/-- A name that leads a path further. -/
def IsStep (name : String) : Prop :=
  name ≠ "" ∧ name ≠ "." ∧ '/' ∉ name.toList

instance (name : String) : Decidable (IsStep name) :=
  inferInstanceAs (Decidable (_ ∧ _ ∧ _))

/-- The names that a path goes through, apart from dots that stay where they are. -/
def names (path : String) : List String :=
  (steps path.toList).filter (· ≠ ".")

/-- The plain spelling of names: a slash between any two of them. -/
def spell (names : List String) : String :=
  String.ofList (List.intercalate ['/'] (names.map String.toList))

/-- A directory in its plain spelling, but for slashes at its end. Where names lead nowhere that is
the empty text, since a slash in front leads to the root of the whole tree. -/
def IsPlain (dir : String) : Prop :=
  dir = "" ∨ names dir ≠ [] ∧
    ∃ count, dir.toList = (spell (names dir)).toList ++ List.replicate count '/'

/-- What stands in front of a name below a directory. -/
def lead (dir : String) : List Char :=
  if dir = "" then [] else Text.trimTrailing '/' dir.toList ++ ['/']

variable {dir name : String} {way : List String}

theorem toList_below (dir name : String) : (below dir name).toList = lead dir ++ name.toList := by
  unfold below lead
  split <;> simp

theorem lead_of_getLast? (hne : dir ≠ "") (hlast : dir.toList.getLast? ≠ some '/') :
    lead dir = dir.toList ++ ['/'] := by
  rw [lead, if_neg hne, Text.trimTrailing_of_getLast? hlast]

theorem getLast?_below (h : IsStep name) (dir : String) :
    (below dir name).toList.getLast? ≠ some '/' := by
  have hname : name.toList ≠ [] := mt String.toList_eq_nil_iff.1 h.1
  intro hlast
  rw [toList_below, List.getLast?_append, List.getLast?_eq_some_getLast hname] at hlast
  exact h.2.2 (List.mem_of_getLast? ((List.getLast?_eq_some_getLast hname).trans hlast))

theorem below_ne_empty (h : IsStep name) (dir : String) : below dir name ≠ "" := by
  intro hempty
  have hchars := congrArg String.toList hempty
  rw [toList_below] at hchars
  exact h.1 (String.toList_eq_nil_iff.1 (List.append_eq_nil_iff.1 hchars).2)

theorem lead_below (h : IsStep name) (dir : String) :
    lead (below dir name) = (below dir name).toList ++ ['/'] :=
  lead_of_getLast? (below_ne_empty h dir) (getLast?_below h dir)

theorem toList_spell (names : List String) :
    (spell names).toList = List.intercalate ['/'] (names.map String.toList) :=
  String.toList_ofList

/-- Below a directory names are spelled plainly. -/
theorem toList_foldl_below (hne : way ≠ []) (h : ∀ name ∈ way, IsStep name) (dir : String) :
    (way.foldl below dir).toList = lead dir ++ (spell way).toList := by
  induction way generalizing dir with
  | nil => exact absurd rfl hne
  | cons name rest ih =>
    have hname := h name List.mem_cons_self
    cases rest with
    | nil => simp [toList_below, toList_spell]
    | cons next rest =>
      have hrest := ih (List.cons_ne_nil _ _) (fun other hother =>
        h other (List.mem_cons_of_mem name hother)) (below dir name)
      rw [List.foldl_cons, hrest, lead_below hname, toList_below, toList_spell, toList_spell,
        List.map_cons, List.map_cons, List.map_cons, List.intercalate_cons_cons]
      simp

theorem foldl_below_empty (h : ∀ name ∈ way, IsStep name) : way.foldl below "" = spell way := by
  cases way with
  | nil => rfl
  | cons name rest =>
    apply String.toList_inj.1
    rw [toList_foldl_below (List.cons_ne_nil _ _) h]
    rfl

theorem spell_append (h : ∀ name ∈ way, IsStep name) {later : List String}
    (hlater : ∀ name ∈ later, IsStep name) :
    spell (way ++ later) = later.foldl below (spell way) := by
  have hall : ∀ name ∈ way ++ later, IsStep name := by
    intro name hname
    rcases List.mem_append.1 hname with hmem | hmem
    · exact h name hmem
    · exact hlater name hmem
  rw [← foldl_below_empty hall, ← foldl_below_empty h, List.foldl_append]

theorem fields_spell (hne : way ≠ []) (h : ∀ name ∈ way, IsStep name) :
    Text.fields '/' (spell way).toList = way.map String.toList := by
  rw [toList_spell]
  apply Text.fields_intercalate (by simpa using hne)
  intro chars hchars
  obtain ⟨name, hname, rfl⟩ := List.mem_map.1 hchars
  exact (h name hname).2.2

theorem eq_of_foldl_below_eq {other : List String} (hne : way ≠ []) (hother : other ≠ [])
    (h : ∀ name ∈ way, IsStep name) (hsteps : ∀ name ∈ other, IsStep name)
    (heq : way.foldl below dir = other.foldl below dir) : way = other := by
  have hchars := congrArg String.toList heq
  rw [toList_foldl_below hne h, toList_foldl_below hother hsteps] at hchars
  have hfields := congrArg (Text.fields '/') (List.append_cancel_left hchars)
  rw [fields_spell hne h, fields_spell hother hsteps] at hfields
  exact (List.map_inj_right fun a b => String.toList_inj.1).1 hfields

/-! ### Names -/

theorem names_eq (path : String) : names path =
    (((Text.fields '/' path.toList).filter (· ≠ [])).map String.ofList).filter (· ≠ ".") := by
  unfold names steps
  dsimp only
  split
  · rw [List.map_append, List.filter_append]
    exact List.append_nil _
  · rfl

theorem isStep_of_mem_names {path : String} (h : name ∈ names path) : IsStep name := by
  rw [names_eq] at h
  obtain ⟨hmem, hdot⟩ := List.mem_filter.1 h
  obtain ⟨field, hfield, rfl⟩ := List.mem_map.1 hmem
  obtain ⟨hfield, hne⟩ := List.mem_filter.1 hfield
  refine ⟨?_, by simpa using hdot, ?_⟩
  · intro hempty
    rw [← String.toList_inj, String.toList_ofList] at hempty
    simp [hempty] at hne
  · rw [String.toList_ofList]
    exact Text.not_mem_of_mem_fields hfield

theorem filter_map_toList (h : ∀ name ∈ way, IsStep name) :
    ((((way.map String.toList).filter (· ≠ [])).map String.ofList).filter (· ≠ ".")) = way := by
  have hne : (way.map String.toList).filter (· ≠ []) = way.map String.toList := by
    apply List.filter_eq_self.2
    intro chars hchars
    obtain ⟨name, hname, rfl⟩ := List.mem_map.1 hchars
    simpa using (h name hname).1
  rw [hne, List.map_map]
  have hself : String.ofList ∘ String.toList = id := funext fun name => String.ofList_toList
  rw [hself, List.map_id]
  apply List.filter_eq_self.2
  intro name hname
  simpa using (h name hname).2.1

/-- A path below a directory goes through the names of the directory first. -/
theorem names_foldl_below (hne : way ≠ []) (h : ∀ name ∈ way, IsStep name) (dir : String) :
    names (way.foldl below dir) = names dir ++ way := by
  rw [names_eq, names_eq, toList_foldl_below hne h]
  by_cases hdir : dir = ""
  · subst hdir
    rw [lead, if_pos rfl, List.nil_append, fields_spell hne h, filter_map_toList h]
    rfl
  · obtain ⟨count, hcount⟩ := Text.exists_eq_trimTrailing_append '/' dir.toList
    have htrim : (Text.fields '/' dir.toList).filter (· ≠ []) =
        (Text.fields '/' (Text.trimTrailing '/' dir.toList)).filter (· ≠ []) := by
      have hslashes := Text.filter_fields_append_replicate '/'
        (Text.trimTrailing '/' dir.toList) count
      rw [← hcount] at hslashes
      exact hslashes
    rw [lead, if_neg hdir, List.append_assoc, List.singleton_append, Text.fields_append_cons,
      fields_spell hne h, List.filter_append, List.map_append, List.filter_append,
      filter_map_toList h, htrim]

/-! ### Plain spellings -/

theorem exists_spell_eq_below (hne : way ≠ []) (h : ∀ name ∈ way, IsStep name) :
    ∃ base last, IsStep last ∧ spell way = below base last := by
  have hlast := h _ (List.getLast_mem hne)
  have hway : way = way.dropLast ++ [way.getLast hne] := (List.dropLast_concat_getLast hne).symm
  refine ⟨way.dropLast.foldl below "", way.getLast hne, hlast, ?_⟩
  rw [← foldl_below_empty h]
  exact (congrArg (List.foldl below "") hway).trans List.foldl_append

theorem isPlain_iff (dir : String) : IsPlain dir ↔ lead dir = lead (spell (names dir)) := by
  unfold IsPlain
  by_cases hdir : dir = ""
  · subst hdir
    exact ⟨fun _ => rfl, fun _ => .inl rfl⟩
  · by_cases hnames : names dir = []
    · rw [hnames]
      simp [hdir, lead, spell]
    · obtain ⟨base, last, hlast, hspell⟩ :=
        exists_spell_eq_below hnames fun name => isStep_of_mem_names
      have htrim := Text.trimTrailing_of_getLast? (getLast?_below hlast base)
      rw [hspell, lead_below hlast, lead, if_neg hdir, List.append_cancel_right_eq]
      constructor
      · rintro (hempty | ⟨-, count, hcount⟩)
        · exact absurd hempty hdir
        · rw [hcount, Text.trimTrailing_append_replicate, htrim]
      · intro heq
        obtain ⟨count, hcount⟩ := Text.exists_eq_trimTrailing_append '/' dir.toList
        exact .inr ⟨hnames, count, by rw [← heq]; exact hcount⟩

instance (dir : String) : Decidable (IsPlain dir) :=
  decidable_of_iff _ (isPlain_iff dir).symm

example : IsPlain "test/" ∧ ¬ IsPlain "./test" ∧ ¬ IsPlain "a//b" := by decide +kernel

/-- A path below a directory is plain where the directory is. -/
theorem foldl_below_eq_spell_iff (hne : way ≠ []) (h : ∀ name ∈ way, IsStep name) (dir : String) :
    way.foldl below dir = spell (names dir ++ way) ↔ IsPlain dir := by
  have hdir : ∀ name ∈ names dir, IsStep name := fun name => isStep_of_mem_names
  rw [spell_append hdir h, isPlain_iff, ← String.toList_inj, toList_foldl_below hne h,
    toList_foldl_below hne h, List.append_cancel_right_eq]

end Files

end Conformance
