import Mathlib.Algebra.BigOperators.Group.List.Basic
import Mathlib.Algebra.Ring.Nat
import Conformance.Proofs.Counters

/-!
# The books of a report

A report grows by calls that add a result or leave a test out. `Chapters.Filed` says what its
chapters hold at any time: each key that occurs, once and in ascending order, with the results that
belong there in the order in which they came. Everything that the renderings rely on follows from
that and from the counters, and is put together in `Report.Balanced`.
-/

namespace Conformance

/-- The results of a chapter, in order. -/
def resultsIn (key : String) (results : List Result) : List Result :=
  results.filter fun result => chapterOf result.path = key

theorem resultsIn_concat_self (results : List Result) (result : Result) :
    resultsIn (chapterOf result.path) (results ++ [result]) =
      resultsIn (chapterOf result.path) results ++ [result] := by
  simp [resultsIn]

theorem resultsIn_concat_of_ne {key : String} {result : Result}
    (h : chapterOf result.path ≠ key) (results : List Result) :
    resultsIn key (results ++ [result]) = resultsIn key results := by
  simp [resultsIn, h]

namespace Chapter

/-- The chapter of a name that holds the given results. -/
def ofResults (name : String) (results : List Result) : Chapter where
  name
  total := results.length
  passed := results.countP (·.grade = .pass)
  failed := results.countP (·.grade.isFailing)
  tests := results.toArray

theorem add_ofResults (name : String) (results : List Result) (result : Result) :
    (ofResults name results).add result = ofResults name (results ++ [result]) := by
  simp [ofResults, add, List.countP_append, List.countP_singleton]

theorem add_empty (name : String) (result : Result) :
    (empty name).add result = ofResults name [result] := by
  rw [← List.nil_append [result], ← add_ofResults]
  rfl

end Chapter

namespace Chapters

abbrev keys (chapters : Chapters) : List String :=
  chapters.map Prod.fst

variable {chapters : Chapters} {key : String} {result : Result}

theorem mem_keys_add {other : String} :
    other ∈ (add key result chapters).keys ↔ other = key ∨ other ∈ chapters.keys := by
  induction chapters with
  | nil => simp [add]
  | cons entry rest ih =>
    obtain ⟨known, chapter⟩ := entry
    rcases lt_or_eq_or_gt key known with hlt | rfl | hgt
    · rw [add_of_lt result hlt]
      simp
    · rw [add_self]
      simp
    · rw [add_of_gt result hgt]
      simp only [keys, List.map_cons, List.mem_cons] at ih ⊢
      rw [ih]
      exact or_left_comm

theorem ascending_add (h : chapters.keys.Pairwise (· < ·)) :
    (add key result chapters).keys.Pairwise (· < ·) := by
  induction chapters with
  | nil => simp [add]
  | cons entry rest ih =>
    obtain ⟨known, chapter⟩ := entry
    obtain ⟨hknown, hrest⟩ := List.pairwise_cons.1 h
    rcases lt_or_eq_or_gt key known with hlt | rfl | hgt
    · rw [add_of_lt result hlt]
      refine List.pairwise_cons.2 ⟨fun other hother => ?_, h⟩
      rcases List.mem_cons.1 hother with rfl | hother
      · exact hlt
      · exact String.lt_trans hlt (hknown other hother)
    · rw [add_self]
      exact h
    · rw [add_of_gt result hgt]
      refine List.pairwise_cons.2 ⟨fun other hother => ?_, ih hrest⟩
      rcases mem_keys_add.1 hother with rfl | hother
      · exact hgt
      · exact hknown other hother

/-- What stands in the chapters after filing: the chapters of other keys, and that of the key with
one result more. -/
theorem mem_add {entry : String × Chapter} (h : chapters.keys.Pairwise (· < ·))
    (hmem : entry ∈ add key result chapters) :
    (entry ∈ chapters ∧ entry.1 ≠ key) ∨
      (∃ chapter, (key, chapter) ∈ chapters ∧ entry = (key, chapter.add result)) ∨
      (key ∉ chapters.keys ∧ entry = (key, (Chapter.empty key).add result)) := by
  induction chapters with
  | nil => exact .inr (.inr ⟨by simp, by simpa [add] using hmem⟩)
  | cons first rest ih =>
    obtain ⟨known, chapter⟩ := first
    obtain ⟨hknown, hrest⟩ := List.pairwise_cons.1 h
    rcases lt_or_eq_or_gt key known with hlt | rfl | hgt
    · rw [add_of_lt result hlt] at hmem
      have habove : ∀ other ∈ keys ((known, chapter) :: rest), key < other := by
        intro other hother
        rcases List.mem_cons.1 hother with rfl | hother
        · exact hlt
        · exact String.lt_trans hlt (hknown other hother)
      rcases List.mem_cons.1 hmem with rfl | hmem
      · exact .inr (.inr ⟨fun hkey => String.lt_irrefl key (habove key hkey), rfl⟩)
      · have hentry := habove entry.1 (List.mem_map_of_mem hmem)
        exact .inl ⟨hmem, (String.ne_of_lt hentry).symm⟩
    · rw [add_self] at hmem
      rcases List.mem_cons.1 hmem with rfl | hmem
      · exact .inr (.inl ⟨chapter, List.mem_cons_self, rfl⟩)
      · have hentry := hknown entry.1 (List.mem_map_of_mem hmem)
        exact .inl ⟨List.mem_cons_of_mem _ hmem, (String.ne_of_lt hentry).symm⟩
    · rw [add_of_gt result hgt] at hmem
      have hne : known ≠ key := String.ne_of_lt hgt
      rcases List.mem_cons.1 hmem with rfl | hmem
      · exact .inl ⟨List.mem_cons_self, hne⟩
      · rcases ih hrest hmem with ⟨hold, hother⟩ | ⟨old, hold, rfl⟩ | ⟨hnew, rfl⟩
        · exact .inl ⟨List.mem_cons_of_mem _ hold, hother⟩
        · exact .inr (.inl ⟨old, List.mem_cons_of_mem _ hold, rfl⟩)
        · refine .inr (.inr ⟨fun hkey => ?_, rfl⟩)
          rcases List.mem_cons.1 hkey with heq | hkey
          · exact hne heq.symm
          · exact hnew hkey

/-- Chapters that hold the given results, each under its key, and nothing else. -/
structure Filed (chapters : Chapters) (results : List Result) : Prop where
  ascending : chapters.keys.Pairwise (· < ·)
  chapter_eq : ∀ entry ∈ chapters,
    entry.2 = Chapter.ofResults entry.1 (resultsIn entry.1 results)
  mem_keys_iff : ∀ key, key ∈ chapters.keys ↔ ∃ result ∈ results, chapterOf result.path = key

theorem filed_nil : Filed [] [] where
  ascending := List.Pairwise.nil
  chapter_eq := by simp
  mem_keys_iff := by simp

variable {results : List Result}

theorem Filed.add (h : chapters.Filed results) (result : Result) :
    (Chapters.add (chapterOf result.path) result chapters).Filed (results ++ [result]) where
  ascending := ascending_add h.ascending
  chapter_eq := by
    intro entry hentry
    rcases mem_add h.ascending hentry with ⟨hold, hne⟩ | ⟨chapter, hold, rfl⟩ | ⟨hnew, rfl⟩
    · rw [resultsIn_concat_of_ne hne.symm]
      exact h.chapter_eq entry hold
    · have hchapter := h.chapter_eq _ hold
      dsimp only at hchapter ⊢
      rw [hchapter, Chapter.add_ofResults, resultsIn_concat_self]
    · have hnone : resultsIn (chapterOf result.path) results = [] := by
        refine List.filter_eq_nil_iff.2 fun other hother heq => hnew ?_
        exact (h.mem_keys_iff _).2 ⟨other, hother, by simpa using heq⟩
      dsimp only
      rw [Chapter.add_empty, resultsIn_concat_self, hnone, List.nil_append]
  mem_keys_iff := by
    intro key
    rw [mem_keys_add, h.mem_keys_iff]
    simp only [List.mem_append, List.mem_singleton, or_and_right, exists_or, exists_eq_left]
    rw [or_comm, eq_comm]

/-- What is counted in each chapter adds up to what is counted over all results. -/
theorem sum_countP (chapters : Chapters) (p : Result → Bool) :
    (chapters.map fun entry => entry.2.tests.toList.countP p).sum = chapters.results.countP p := by
  unfold Chapters.results
  rw [List.countP_flatMap]
  rfl

section Filed

variable (h : chapters.Filed results)

include h

theorem Filed.results_eq :
    chapters.results = chapters.keys.flatMap fun key => resultsIn key results := by
  unfold Chapters.results keys
  rw [List.flatMap_map]
  apply List.flatMap_congr
  rintro ⟨key, chapter⟩ hentry
  have hchapter := h.chapter_eq _ hentry
  dsimp only at hchapter ⊢
  rw [hchapter]
  rfl

theorem Filed.total_eq {entry : String × Chapter} (hentry : entry ∈ chapters) :
    entry.2.total = entry.2.tests.toList.length := by
  rw [h.chapter_eq entry hentry]
  rfl

theorem Filed.passed_eq {entry : String × Chapter} (hentry : entry ∈ chapters) :
    entry.2.passed = entry.2.tests.toList.countP (·.grade = .pass) := by
  rw [h.chapter_eq entry hentry]
  rfl

theorem Filed.failed_eq {entry : String × Chapter} (hentry : entry ∈ chapters) :
    entry.2.failed = entry.2.tests.toList.countP (·.grade.isFailing) := by
  rw [h.chapter_eq entry hentry]
  rfl

end Filed

end Chapters

/-- Every result is passed, failing or skipped, and no two of these. -/
theorem length_eq_countP_grades (results : List Result) :
    results.length = results.countP (·.grade = .pass) + results.countP (·.grade.isFailing) +
      results.countP (·.grade = .skip) := by
  induction results with
  | nil => rfl
  | cons result rest ih =>
    simp only [List.length_cons, List.countP_cons, ih]
    cases result.grade <;> simp [Grade.isFailing] <;> omega

theorem countP_isFailing (results : List Result) :
    results.countP (·.grade.isFailing) =
      results.countP (·.grade = .fail) + results.countP (·.grade = .error) := by
  induction results with
  | nil => rfl
  | cons result rest ih =>
    simp only [List.countP_cons, ih]
    cases result.grade <;> simp [Grade.isFailing] <;> omega

namespace Report

/-- A call that makes a report grow. -/
inductive Call where
  | add (result : Result)
  | leaveOut

def Call.result? : Call → Option Result
  | .add result => some result
  | .leaveOut => none

def call (report : Report) : Call → Report
  | .add result => report.add result
  | .leaveOut => report.addNotApplicable 1

/-- The report that some calls lead to, one after the other. -/
def ofCalls (calls : List Call) : Report :=
  calls.foldl call .empty

/-- A report whose books are in order when the given results have been added. -/
structure Balanced (report : Report) (added : List Result) : Prop where
  total_eq : report.total = added.length
  passed_eq : report.passed = added.countP (·.grade = .pass)
  failed_eq : report.failed = added.countP (·.grade = .fail)
  errors_eq : report.errors = added.countP (·.grade = .error)
  skipped_eq : report.skipped = added.countP (·.grade = .skip)
  total_eq_grades :
    report.total = report.passed + report.failed + report.errors + report.skipped
  /-- The share that counts for the pass rate is a proper difference. -/
  skipped_le : report.skipped ≤ report.total
  total_eq_sum : report.total = (report.chapters.map fun entry => entry.2.total).sum
  passed_eq_sum : report.passed = (report.chapters.map fun entry => entry.2.passed).sum
  failing_eq_sum :
    report.failed + report.errors = (report.chapters.map fun entry => entry.2.failed).sum
  chapter_total_eq : ∀ entry ∈ report.chapters, entry.2.total = entry.2.tests.size
  chapter_skipped_eq : ∀ entry ∈ report.chapters,
    entry.2.passed + entry.2.failed + entry.2.tests.toList.countP (·.grade = .skip) =
      entry.2.total
  chapter_name_eq : ∀ entry ∈ report.chapters, entry.2.name = entry.1
  chapterOf_eq : ∀ entry ∈ report.chapters, ∀ test ∈ entry.2.tests, chapterOf test.path = entry.1
  keys_ascending : report.chapters.keys.Pairwise (· < ·)
  mem_keys_iff : ∀ key, key ∈ report.chapters.keys ↔ ∃ result ∈ added, chapterOf result.path = key
  results_eq : report.results = report.chapters.keys.flatMap fun key => resultsIn key added
  failing_ascending : (report.failing.map (·.name)).Pairwise (· ≤ ·)
  failing_perm : report.failing.Perm (added.filter fun result =>
    result.grade = .fail ∨ result.grade = .error)
  length_failing : report.failing.length = report.failed + report.errors
  isSuccess_iff : report.isSuccess = true ↔ report.failing = []

/-- What every call keeps. -/
structure Kept (report : Report) (added : List Result) : Prop where
  filed : report.chapters.Filed added
  counted : report.Counted
  results_perm : report.results.Perm added

theorem kept_empty : Report.empty.Kept [] where
  filed := Chapters.filed_nil
  counted := counted_empty
  results_perm := .nil

variable {report : Report} {added : List Result}

theorem Kept.call (h : report.Kept added) (c : Call) :
    (report.call c).Kept (added ++ c.result?.toList) := by
  cases c with
  | add result =>
    have hresults : (report.add result).results.Perm (result :: report.results) :=
      Chapters.results_add result report.chapters
    exact {
      filed := h.filed.add result
      counted := h.counted.add result
      results_perm := hresults.trans ((h.results_perm.cons result).trans
        (List.perm_append_singleton result added).symm) }
  | leaveOut =>
    obtain ⟨hfiled, ⟨htotal, hpassed, hfailed, herrors, hskipped⟩, hperm⟩ := h
    simp only [Call.result?, Option.toList_none, List.append_nil]
    exact ⟨hfiled, ⟨htotal, hpassed, hfailed, herrors, hskipped⟩, hperm⟩

theorem Kept.calls (h : report.Kept added) (calls : List Call) :
    (calls.foldl Report.call report).Kept (added ++ calls.filterMap Call.result?) := by
  induction calls generalizing report added with
  | nil => simpa using h
  | cons c rest ih =>
    have hcons : (c :: rest).filterMap Call.result? =
        c.result?.toList ++ rest.filterMap Call.result? := by
      cases c <;> rfl
    rw [hcons, ← List.append_assoc]
    exact ih (h.call c)

theorem failing_perm (report : Report) :
    report.failing.Perm (report.results.filter (·.grade.isFailing)) :=
  Sorting.sort_perm _ _

section Kept

variable (h : report.Kept added)

include h

theorem Kept.countP_eq (p : Result → Bool) : report.results.countP p = added.countP p :=
  h.results_perm.countP_eq p

theorem Kept.failing_perm : report.failing.Perm (added.filter fun result =>
    result.grade = .fail ∨ result.grade = .error) := by
  have hfilter : (added.filter fun result => result.grade = .fail ∨ result.grade = .error) =
      added.filter (·.grade.isFailing) := by
    apply List.filter_congr
    intro result _
    simp [Grade.isFailing]
  rw [hfilter]
  exact (Report.failing_perm report).trans (h.results_perm.filter _)

theorem Kept.length_failing : report.failing.length = report.failed + report.errors := by
  rw [(Report.failing_perm report).length_eq, ← List.countP_eq_length_filter, countP_isFailing,
    ← h.counted.failed_eq, ← h.counted.errors_eq]

theorem Kept.isSuccess_iff : report.isSuccess = true ↔ report.failing = [] := by
  have hlength := h.length_failing
  rw [← List.length_eq_zero_iff, hlength]
  simp [isSuccess]

theorem Kept.total_eq_grades :
    report.total = report.passed + report.failed + report.errors + report.skipped := by
  have hgrades := length_eq_countP_grades report.results
  have hfailing := countP_isFailing report.results
  have ⟨htotal, hpassed, hfailed, herrors, hskipped⟩ := h.counted
  omega

theorem Kept.total_eq_sum :
    report.total = (report.chapters.map fun entry => entry.2.total).sum := by
  have hsum := report.chapters.sum_countP fun _ => true
  have htotals : (report.chapters.map fun entry => entry.2.total) =
      report.chapters.map fun entry => entry.2.tests.toList.countP fun _ => true := by
    apply List.map_congr_left
    intro entry hentry
    rw [h.filed.total_eq hentry, List.countP_true]
  rw [htotals, hsum, List.countP_true]
  exact h.counted.total_eq

theorem Kept.passed_eq_sum :
    report.passed = (report.chapters.map fun entry => entry.2.passed).sum := by
  rw [List.map_congr_left fun entry hentry => h.filed.passed_eq hentry, Chapters.sum_countP]
  exact h.counted.passed_eq

theorem Kept.failing_eq_sum :
    report.failed + report.errors = (report.chapters.map fun entry => entry.2.failed).sum := by
  rw [List.map_congr_left fun entry hentry => h.filed.failed_eq hentry, Chapters.sum_countP,
    h.counted.failed_eq, h.counted.errors_eq]
  exact (countP_isFailing report.results).symm

theorem Kept.chapterOf_eq {entry : String × Chapter} (hentry : entry ∈ report.chapters)
    {test : Result} (htest : test ∈ entry.2.tests) : chapterOf test.path = entry.1 := by
  rw [h.filed.chapter_eq entry hentry] at htest
  have hmem : test ∈ resultsIn entry.1 added := by simpa [Chapter.ofResults] using htest
  simpa using (List.mem_filter.1 hmem).2

end Kept

/-- Whatever results were added and tests left out, in whatever order: the books are in order. -/
theorem balanced_ofCalls (calls : List Call) :
    (ofCalls calls).Balanced (calls.filterMap Call.result?) := by
  have h : (ofCalls calls).Kept (calls.filterMap Call.result?) := kept_empty.calls calls
  have hgrades := h.total_eq_grades
  exact {
    total_eq := h.counted.total_eq.trans h.results_perm.length_eq
    passed_eq := h.counted.passed_eq.trans (h.countP_eq _)
    failed_eq := h.counted.failed_eq.trans (h.countP_eq _)
    errors_eq := h.counted.errors_eq.trans (h.countP_eq _)
    skipped_eq := h.counted.skipped_eq.trans (h.countP_eq _)
    total_eq_grades := hgrades
    skipped_le := by omega
    total_eq_sum := h.total_eq_sum
    passed_eq_sum := h.passed_eq_sum
    failing_eq_sum := h.failing_eq_sum
    chapter_total_eq := fun entry hentry => h.filed.total_eq hentry
    chapter_skipped_eq := by
      intro entry hentry
      rw [h.filed.passed_eq hentry, h.filed.failed_eq hentry, h.filed.total_eq hentry]
      exact (length_eq_countP_grades _).symm
    chapter_name_eq := by
      intro entry hentry
      rw [h.filed.chapter_eq entry hentry]
      rfl
    chapterOf_eq := fun entry hentry test htest => h.chapterOf_eq hentry htest
    keys_ascending := h.filed.ascending
    mem_keys_iff := h.filed.mem_keys_iff
    results_eq := h.filed.results_eq
    failing_ascending := ascending_names_failing _
    failing_perm := h.failing_perm
    length_failing := h.length_failing
    isSuccess_iff := h.isSuccess_iff }

end Report

end Conformance
