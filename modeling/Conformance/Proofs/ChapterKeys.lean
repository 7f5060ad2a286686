import Mathlib.Data.List.Basic
import Conformance.Proofs.Bookkeeping
import Conformance.Proofs.Paths

/-!
# Chapters by directories

What decides the chapter of a path is what is left of it without one `test/` in front: the first two
directories there, or the only one, or a name that stands in none. Slashes can stand side by side or
in front of everything, so that directories may have no name; `IsKey` says by the slashes alone what
a path is filed under, and there is just one such key (`IsKey.eq`). Every result of a report stands
in the chapter of its path and in no other: `chapters_by_directories`.
-/

namespace Conformance

/-- What is left of a path without one `test/` in front. -/
def belowTest (path : String) : List Char :=
  (Text.dropMark? "test/".toList path.toList).getD path.toList

theorem belowTest_append (rest : String) : belowTest ("test/" ++ rest) = rest.toList := by
  have hmark : "test/".toList.isPrefixOf ("test/" ++ rest).toList = true := by
    rw [List.isPrefixOf_iff_prefix, String.toList_append]
    exact List.prefix_append _ _
  rw [belowTest, Text.dropMark?, if_pos hmark, String.toList_append, Option.getD_some,
    List.drop_left]

theorem belowTest_of_not_isPrefix {path : String} (h : ¬ "test/".toList <+: path.toList) :
    belowTest path = path.toList := by
  rw [belowTest, Text.dropMark?, if_neg (mt List.isPrefixOf_iff_prefix.1 h), Option.getD_none]

/-! ### Keys -/

/-- Nothing to file a path by: no text at all, or a slash at the front and no other. -/
def IsUnnamed (text : List Char) : Prop :=
  text = [] ∨ text.head? = some '/' ∧ '/' ∉ text.tail

instance (text : List Char) : Decidable (IsUnnamed text) :=
  inferInstanceAs (Decidable (_ ∨ _ ∧ _))

/-- A text of three names or more, of which the first two are given. -/
structure BeginsWith (text first second : List Char) : Prop where
  first_not_mem : '/' ∉ first
  second_not_mem : '/' ∉ second
  exists_later : ∃ later, text = first ++ '/' :: second ++ '/' :: later

/-- A start of a text, not empty and with one slash at most, behind which there is a slash or the
end. -/
structure IsHeading (key text : List Char) : Prop where
  ne_nil : key ≠ []
  isPrefix : key <+: text
  count_le_one : key.count '/' ≤ 1
  ends : key ++ ['/'] <+: text ∨ key = text

/-- The longest heading in front of a slash, where there is a slash; without one there is no more
than one heading. -/
structure IsKey (key text : List Char) : Prop extends IsHeading key text where
  in_front : '/' ∈ text → key ++ ['/'] <+: text
  longest : ∀ other, other ++ ['/'] <+: text → other.count '/' ≤ 1 → other <+: key

section Keys

variable {text key other first second later last : List Char}

theorem slash_isPrefix_append (key later : List Char) : key ++ ['/'] <+: key ++ '/' :: later :=
  ⟨later, by simp⟩

theorem slash_mem_of_isPrefix (h : key ++ ['/'] <+: text) : '/' ∈ text :=
  h.subset (List.mem_append_right key List.mem_cons_self)

/-- What stands in front of a slash stands in front of a given one, or goes beyond that. -/
theorem prefix_or_beyond (h : other ++ ['/'] <+: key ++ '/' :: later) :
    other <+: key ∨ ∃ between, other = key ++ '/' :: between ∧ between ++ ['/'] <+: later := by
  obtain ⟨rest, hrest⟩ := h
  rw [List.append_assoc, List.append_eq_append_iff] at hrest
  rcases hrest with ⟨more, hkey, -⟩ | ⟨more, hother, hmore⟩
  · exact .inl ⟨more, hkey.symm⟩
  · cases more with
    | nil =>
      rw [List.append_nil] at hother
      exact .inl (hother ▸ List.prefix_rfl)
    | cons c between =>
      obtain ⟨rfl, hlater⟩ := List.cons.inj hmore
      exact .inr ⟨between, hother, rest, by simp [hlater]⟩

theorem IsHeading.eq_of_not_mem (h : IsHeading key text) (htext : '/' ∉ text) : key = text :=
  h.ends.resolve_left fun hslash => htext (slash_mem_of_isPrefix hslash)

theorem IsKey.eq (h : IsKey key text) (hother : IsKey other text) : key = other := by
  by_cases htext : '/' ∈ text
  · have hle := hother.longest key (h.in_front htext) h.count_le_one
    have hge := h.longest other (hother.in_front htext) hother.count_le_one
    exact hle.eq_of_length_le hge.length_le
  · rw [h.eq_of_not_mem htext, hother.eq_of_not_mem htext]

theorem slashes_cases (text : List Char) :
    '/' ∉ text ∨
      (∃ first last, text = first ++ '/' :: last ∧ '/' ∉ first ∧ '/' ∉ last) ∨
      ∃ first second, BeginsWith text first second := by
  by_cases htext : '/' ∈ text
  · obtain ⟨first, rest, rfl, hfirst⟩ := List.eq_append_cons_of_mem htext
    by_cases hrest : '/' ∈ rest
    · obtain ⟨second, later, rfl, hsecond⟩ := List.eq_append_cons_of_mem hrest
      exact .inr (.inr ⟨first, second, hfirst, hsecond, later, by simp⟩)
    · exact .inr (.inl ⟨first, rest, rfl, hfirst, hrest⟩)
  · exact .inl htext

theorem isKey_self (hne : text ≠ []) (h : '/' ∉ text) : IsKey text text where
  ne_nil := hne
  isPrefix := List.prefix_rfl
  count_le_one := by simp [List.count_eq_zero.2 h]
  ends := .inr rfl
  in_front hslash := absurd hslash h
  longest _ hother _ := absurd (slash_mem_of_isPrefix hother) h

theorem isKey_append (hne : key ≠ []) (hcount : key.count '/' ≤ 1)
    (hfull : key.count '/' = 1 ∨ '/' ∉ later) : IsKey key (key ++ '/' :: later) where
  ne_nil := hne
  isPrefix := List.prefix_append _ _
  count_le_one := hcount
  ends := .inl (slash_isPrefix_append _ _)
  in_front _ := slash_isPrefix_append _ _
  longest other hother hle := by
    rcases prefix_or_beyond hother with hprefix | ⟨between, rfl, hbetween⟩
    · exact hprefix
    · rcases hfull with hone | hlater
      -- a second slash is one too many
      · rw [List.count_append, hone, List.count_cons_self] at hle
        omega
      · exact absurd (slash_mem_of_isPrefix hbetween) hlater

theorem isKey_directory (hne : first ≠ []) (hfirst : '/' ∉ first) (hlast : '/' ∉ last) :
    IsKey first (first ++ '/' :: last) := by
  have hcount : first.count '/' = 0 := List.count_eq_zero.2 hfirst
  exact isKey_append hne (hcount.trans_le (Nat.zero_le 1)) (.inr hlast)

theorem BeginsWith.isKey (h : BeginsWith text first second) :
    IsKey (first ++ '/' :: second) text := by
  obtain ⟨hfirst, hsecond, later, rfl⟩ := h
  have hcount : (first ++ '/' :: second).count '/' = 1 := by
    simp [List.count_eq_zero.2 hfirst, List.count_eq_zero.2 hsecond]
  exact isKey_append (by simp) hcount.le (.inl hcount)

end Keys

/-! ### The chapter of a path -/

section ChapterOf

variable {path other : String} {first second last : List Char}

theorem chapterOf_def (path : String) :
    chapterOf path = match Text.fields '/' (belowTest path) with
      | first :: second :: _ :: _ => String.ofList (first ++ '/' :: second)
      | first :: _ => if first = [] then "unknown" else String.ofList first
      | [] => "unknown" :=
  rfl

theorem chapterOf_of_not_mem (h : '/' ∉ belowTest path) :
    chapterOf path =
      if belowTest path = [] then "unknown" else String.ofList (belowTest path) := by
  rw [chapterOf_def, Text.fields_of_not_mem h]

theorem chapterOf_of_directory (h : belowTest path = first ++ '/' :: last) (hfirst : '/' ∉ first)
    (hlast : '/' ∉ last) :
    chapterOf path = if first = [] then "unknown" else String.ofList first := by
  rw [chapterOf_def, h, Text.fields_append_cons, Text.fields_of_not_mem hfirst,
    Text.fields_of_not_mem hlast]
  rfl

theorem BeginsWith.chapterOf_eq (h : BeginsWith (belowTest path) first second) :
    chapterOf path = String.ofList (first ++ '/' :: second) := by
  obtain ⟨hfirst, hsecond, later, hpath⟩ := h
  obtain ⟨third, more, hlater⟩ := List.exists_cons_of_ne_nil (Text.fields_ne_nil '/' later)
  rw [chapterOf_def, hpath, Text.fields_append_cons, Text.fields_append_cons,
    Text.fields_of_not_mem hfirst, Text.fields_of_not_mem hsecond, hlater]
  rfl

theorem chapterOf_of_isUnnamed (h : IsUnnamed (belowTest path)) : chapterOf path = "unknown" := by
  rcases h with hempty | ⟨hhead, htail⟩
  · rw [chapterOf_of_not_mem (by simp [hempty]), if_pos hempty]
  · have hpath : belowTest path = [] ++ '/' :: (belowTest path).tail :=
      (List.cons_head?_tail hhead).symm
    rw [chapterOf_of_directory hpath List.not_mem_nil htail, if_pos rfl]

/-- Whatever there is to file a path by, it is filed under the key of it. -/
theorem isKey_chapterOf (h : ¬ IsUnnamed (belowTest path)) :
    IsKey (chapterOf path).toList (belowTest path) := by
  rcases slashes_cases (belowTest path) with hname | ⟨first, last, hpath, hfirst, hlast⟩ |
    ⟨first, second, hpath⟩
  · have hne : belowTest path ≠ [] := fun hempty => h (.inl hempty)
    rw [chapterOf_of_not_mem hname, if_neg hne, String.toList_ofList]
    exact isKey_self hne hname
  · have hne : first ≠ [] := by
      rintro rfl
      exact h (.inr (by simpa [hpath] using hlast))
    rw [chapterOf_of_directory hpath hfirst hlast, if_neg hne, String.toList_ofList, hpath]
    exact isKey_directory hne hfirst hlast
  · rw [hpath.chapterOf_eq, String.toList_ofList]
    exact hpath.isKey

example : chapterOf "test///" = "/" ∧ chapterOf "a/b" = "a" := by decide

theorem chapterOf_eq_iff (h : ¬ IsUnnamed (belowTest path)) {key : String} :
    chapterOf path = key ↔ IsKey key.toList (belowTest path) := by
  constructor
  · rintro rfl
    exact isKey_chapterOf h
  · intro hkey
    exact String.toList_inj.1 ((isKey_chapterOf h).eq hkey)

theorem BeginsWith.chapterOf_eq_iff {first' second' : List Char}
    (h : BeginsWith (belowTest path) first second)
    (h' : BeginsWith (belowTest other) first' second') :
    chapterOf path = chapterOf other ↔ first = first' ∧ second = second' := by
  rw [h.chapterOf_eq, h'.chapterOf_eq, String.ofList_inj,
    List.append_cons_inj_of_notMem h.first_not_mem h.second_not_mem]
  simp

end ChapterOf

theorem Report.Kept.exists_entry {report : Report} {added : List Result} (h : report.Kept added)
    {result : Result} (hresult : result ∈ added) :
    ∃ chapter, ∀ entry, entry ∈ report.chapters ∧ result ∈ entry.2.tests ↔
      entry = (chapterOf result.path, chapter) := by
  obtain ⟨⟨key, chapter⟩, hentry, hkey⟩ :=
    List.mem_map.1 ((h.filed.mem_keys_iff _).2 ⟨result, hresult, rfl⟩)
  obtain rfl : key = chapterOf result.path := hkey
  have hchapter := h.filed.chapter_eq _ hentry
  dsimp only at hchapter
  refine ⟨chapter, fun entry => ⟨?_, ?_⟩⟩
  · rintro ⟨hmem, htest⟩
    obtain ⟨other, otherChapter⟩ := entry
    obtain rfl : chapterOf result.path = other := h.chapterOf_eq hmem htest
    rw [hchapter, ← h.filed.chapter_eq _ hmem]
  · rintro rfl
    refine ⟨hentry, ?_⟩
    rw [hchapter]
    simpa [Chapter.ofResults, resultsIn] using hresult

/-- Chapters part the paths of a corpus by their first two directories. What counts is what is left
of a path without one `test/` in front. With nothing there to file it by, the chapter is `unknown`;
else it is the one key that there is, and among paths of three names or more the first two decide.
One entry of a report holds a given result, and it is the entry of that chapter. -/
theorem chapters_by_directories :
    (∀ rest, belowTest ("test/" ++ rest) = rest.toList) ∧
    (∀ path, ¬ "test/".toList <+: path.toList → belowTest path = path.toList) ∧
    (∀ path, IsUnnamed (belowTest path) → chapterOf path = "unknown") ∧
    (∀ path, ¬ IsUnnamed (belowTest path) →
      ∀ key, chapterOf path = key ↔ IsKey key.toList (belowTest path)) ∧
    (∀ path other first second first' second', BeginsWith (belowTest path) first second →
      BeginsWith (belowTest other) first' second' →
      (chapterOf path = chapterOf other ↔ first = first' ∧ second = second')) ∧
    ∀ calls, ∀ result ∈ calls.filterMap Report.Call.result?,
      ∃ chapter, ∀ entry, entry ∈ (Report.ofCalls calls).chapters ∧ result ∈ entry.2.tests ↔
        entry = (chapterOf result.path, chapter) := by
  refine ⟨belowTest_append, fun _ => belowTest_of_not_isPrefix, fun _ => chapterOf_of_isUnnamed,
    fun _ h _ => chapterOf_eq_iff h, fun _ _ _ _ _ _ h h' => h.chapterOf_eq_iff h', ?_⟩
  intro calls result hresult
  have h : (Report.ofCalls calls).Kept (calls.filterMap Report.Call.result?) :=
    Report.kept_empty.calls calls
  exact h.exists_entry hresult

/-- A test below a directory without a name, and one that is spelled from the root. -/
def namelessDirectory : List Report.Call :=
  [.add (Result.ofFile "test//Date/now.js" .pass none), .leaveOut,
    .add (Result.ofFile "/Date/zone/first.js" .skip (some "timezone"))]

theorem chapters_by_directories_nameless :
    chapterOf "test//top.js" = "unknown" ∧
    IsKey (chapterOf "test/test/top.js").toList "test/top.js".toList ∧
    chapterOf "test//Date/now.js" = chapterOf "/Date/zone/first.js" ∧
    ∃ chapter, ∀ entry, entry ∈ (Report.ofCalls namelessDirectory).chapters ∧
      Result.ofFile "test//Date/now.js" .pass none ∈ entry.2.tests ↔
        entry = (chapterOf "test//Date/now.js", chapter) := by
  obtain ⟨hbelow, helse, hunknown, hkey, hsection, hfiled⟩ := chapters_by_directories
  have hdate : belowTest "test//Date/now.js" = "/Date/now.js".toList := hbelow "/Date/now.js"
  have hzone : belowTest "/Date/zone/first.js" = "/Date/zone/first.js".toList :=
    helse _ (by decide)
  have htop : belowTest "test/test/top.js" = "test/top.js".toList := hbelow "test/top.js"
  refine ⟨hunknown _ (by decide), ?_, ?_, hfiled namelessDirectory _ List.mem_cons_self⟩
  · rw [← htop]
    exact (hkey _ (by rw [htop]; decide) _).1 rfl
  · refine (hsection _ _ [] "Date".toList [] "Date".toList ?_ ?_).2 ⟨rfl, rfl⟩
    · exact ⟨by decide, by decide, "now.js".toList, hdate⟩
    · exact ⟨by decide, by decide, "zone/first.js".toList, hzone⟩

end Conformance
