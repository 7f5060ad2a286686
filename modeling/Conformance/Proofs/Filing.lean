import Conformance.Report.Text
import Conformance.Run.Suite

/-!
# Reports and the order of results

A report loses no result and adds none: `results_addAll`. The order in which results come decides
nothing but their order within a chapter, so that everything else in a report, its `outline`, is
the same for every order: `outline_addAll_of_perm`.
-/

namespace Conformance

namespace Chapter

/-- A chapter without its results. -/
def outline (chapter : Chapter) : Chapter :=
  { chapter with tests := #[] }

theorem outline_add_add_comm (chapter : Chapter) (a b : Result) :
    ((chapter.add a).add b).outline = ((chapter.add b).add a).outline := by
  simp only [outline, add]
  congr 1 <;> omega

end Chapter

namespace Chapters

/-- The chapters without their results. -/
def outline (chapters : Chapters) : Chapters :=
  chapters.map fun (key, chapter) => (key, chapter.outline)

variable {key known : String} {chapter : Chapter} {rest : Chapters} (a b : Result)

theorem add_self :
    add key a ((key, chapter) :: rest) = (key, chapter.add a) :: rest := by
  simp [add]

theorem add_of_lt (h : key < known) :
    add key a ((known, chapter) :: rest) =
      (key, (Chapter.empty key).add a) :: (known, chapter) :: rest := by
  simp [add, String.ne_of_lt h, h]

theorem add_of_gt (h : known < key) :
    add key a ((known, chapter) :: rest) = (known, chapter) :: add key a rest := by
  have hne : key ≠ known := (String.ne_of_lt h).symm
  have hlt : ¬ key < known := String.lt_asymm h
  simp [add, hne, hlt]

theorem lt_or_eq_or_gt (key known : String) : key < known ∨ key = known ∨ known < key := by
  by_cases hlt : key < known
  · exact .inl hlt
  by_cases hgt : known < key
  · exact .inr (.inr hgt)
  · exact .inr (.inl (String.le_antisymm (String.not_lt.1 hgt) (String.not_lt.1 hlt)))

/-- Filing loses no result and adds none. -/
theorem results_add (chapters : Chapters) :
    (add key a chapters).results.Perm (a :: chapters.results) := by
  induction chapters with
  | nil => simp [add, results, Chapter.add, Chapter.empty]
  | cons entry rest ih =>
    obtain ⟨known, chapter⟩ := entry
    rcases lt_or_eq_or_gt key known with hlt | rfl | hgt
    · simp [add_of_lt a hlt, results, Chapter.add, Chapter.empty]
    · rw [add_self]
      simp only [results, List.flatMap_cons, Chapter.add, Array.toList_push, List.append_assoc]
      exact List.perm_middle
    · rw [add_of_gt a hgt]
      simp only [results, List.flatMap_cons] at ih ⊢
      exact (ih.append_left _).trans List.perm_middle

theorem add_add_comm_of_lt {first second : String} (h : first < second) (chapters : Chapters) :
    add first a (add second b chapters) = add second b (add first a chapters) := by
  induction chapters with
  | nil => simp [add, h, (String.ne_of_lt h).symm, String.ne_of_lt h, String.lt_asymm h]
  | cons entry rest ih =>
    obtain ⟨known, chapter⟩ := entry
    rcases lt_or_eq_or_gt first known with hlt | rfl | hgt
    · rw [add_of_lt a hlt, add_of_gt b h]
      rcases lt_or_eq_or_gt second known with hsecond | rfl | hsecond
      · rw [add_of_lt b hsecond, add_of_lt a h]
      · rw [add_self, add_of_lt a h]
      · rw [add_of_gt b hsecond, add_of_lt a hlt]
    · rw [add_of_gt b h, add_self, add_self, add_of_gt b h]
    · have hsecond := String.lt_trans hgt h
      rw [add_of_gt b hsecond, add_of_gt a hgt, add_of_gt a hgt, add_of_gt b hsecond, ih]

theorem outline_add_add_self (chapters : Chapters) :
    (add key a (add key b chapters)).outline = (add key b (add key a chapters)).outline := by
  induction chapters with
  | nil => simp [add, outline, Chapter.outline_add_add_comm _ a b]
  | cons entry rest ih =>
    obtain ⟨known, chapter⟩ := entry
    rcases lt_or_eq_or_gt key known with hlt | rfl | hgt
    · simp [add_of_lt _ hlt, add_self, outline, Chapter.outline_add_add_comm _ a b]
    · simp [add_self, outline, Chapter.outline_add_add_comm _ a b]
    · simpa [add_of_gt _ hgt, outline] using ih

theorem outline_add_add_comm (first second : String) (chapters : Chapters) :
    (add first a (add second b chapters)).outline =
      (add second b (add first a chapters)).outline := by
  rcases lt_or_eq_or_gt first second with hlt | rfl | hgt
  · rw [add_add_comm_of_lt a b hlt]
  · exact outline_add_add_self a b chapters
  · rw [add_add_comm_of_lt b a hgt]

theorem outline_add (chapters : Chapters) :
    (add key a chapters).outline = (add key a chapters.outline).outline := by
  induction chapters with
  | nil => rfl
  | cons entry rest ih =>
    obtain ⟨known, chapter⟩ := entry
    rcases lt_or_eq_or_gt key known with hlt | rfl | hgt
    · simp [add_of_lt a hlt, outline, Chapter.outline]
    · simp [add_self, outline, Chapter.outline, Chapter.add]
    · simp only [outline, List.map_cons, add_of_gt a hgt] at ih ⊢
      rw [ih]
      rfl

end Chapters

theorem Duration.add_right_comm (a b c : Duration) : (a.add b).add c = (a.add c).add b := by
  simp only [Duration.add, Nat.add_right_comm]

namespace Report

/-- A report without the results that are filed in it. -/
def outline (report : Report) : Report :=
  { report with chapters := report.chapters.outline }

theorem results_addAll (report : Report) (results : List Result) :
    (report.addAll results).results.Perm (report.results ++ results) := by
  induction results generalizing report with
  | nil => simp [addAll]
  | cons result rest ih =>
    have hadd : (report.add result).results.Perm (result :: report.results) :=
      Chapters.results_add result report.chapters
    calc List.Perm ((report.add result).addAll rest).results
          ((report.add result).results ++ rest) := ih _
      List.Perm _ (result :: (report.results ++ rest)) := hadd.append_right rest
      List.Perm _ (report.results ++ result :: rest) := List.perm_middle.symm

theorem notApplicable_addAll (report : Report) (results : List Result) :
    (report.addAll results).notApplicable = report.notApplicable := by
  induction results generalizing report with
  | nil => rfl
  | cons result rest ih => exact ih (report.add result)

theorem outline_add (report : Report) (result : Result) :
    (report.add result).outline = (report.outline.add result).outline := by
  simp only [outline, add]
  rw [Chapters.outline_add]

theorem outline_add_add_comm (report : Report) (a b : Result) :
    ((report.add a).add b).outline = ((report.add b).add a).outline := by
  simp only [outline, add]
  rw [Chapters.outline_add_add_comm, Duration.add_right_comm]
  congr 1 <;> omega

theorem outline_addAll (report : Report) (results : List Result) :
    (report.addAll results).outline =
      results.foldl (fun outlined result => (outlined.add result).outline) report.outline := by
  induction results generalizing report with
  | nil => rfl
  | cons result rest ih =>
    rw [List.foldl_cons, ← outline_add]
    exact ih _

/-- The order of results makes no difference to the outline of their report. -/
theorem outline_addAll_of_perm {results others : List Result} (h : results.Perm others)
    (report : Report) : (report.addAll results).outline = (report.addAll others).outline := by
  rw [outline_addAll, outline_addAll]
  apply h.foldl_eq'
  intro a _ b _ outlined
  rw [← outline_add, ← outline_add, outline_add_add_comm]

theorem markdown_outline (report : Report) : report.outline.markdown = report.markdown := by
  have hrows : report.outline.chapters.map (fun (_, chapter) => markdownRow chapter) =
      report.chapters.map (fun (_, chapter) => markdownRow chapter) := by
    simp only [outline, Chapters.outline, List.map_map]
    rfl
  unfold markdown
  rw [hrows]
  rfl

theorem ascending_failing (report : Report) :
    Sorting.Ascending (fun a b : Result => a.name ≤ b.name) report.failing := by
  apply Sorting.pairwise_sort
  · intro a b
    simpa using String.le_total a.name b.name
  · intro a b c hab hbc
    simp only [decide_eq_true_eq] at hab hbc ⊢
    exact String.le_trans hab hbc

theorem ascending_names_failing (report : Report) :
    (report.failing.map (·.name)).Pairwise (fun a b => a ≤ b) :=
  List.pairwise_map.2 (report.ascending_failing.imp fun hle => by simpa using hle)

theorem failing_perm_of_perm {report other : Report} (h : report.results.Perm other.results) :
    report.failing.Perm other.failing :=
  (Sorting.sort_perm _ _).trans ((h.filter _).trans (Sorting.sort_perm _ _).symm)

theorem names_failing_of_perm {report other : Report} (h : report.results.Perm other.results) :
    report.failing.map (·.name) = other.failing.map (·.name) := by
  have hperm := (failing_perm_of_perm h).map (·.name)
  refine List.Perm.eq_of_pairwise ?_ report.ascending_names_failing
    other.ascending_names_failing hperm
  intro a b _ _ hab hba
  exact String.le_antisymm hab hba

/-- What two reports agree in when nothing but the order of their results differs. -/
structure Agree (report other : Report) : Prop where
  results : report.results.Perm other.results
  total : report.total = other.total
  passed : report.passed = other.passed
  failed : report.failed = other.failed
  errors : report.errors = other.errors
  skipped : report.skipped = other.skipped
  notApplicable : report.notApplicable = other.notApplicable
  /-- Keys, names and counts of all chapters. -/
  chapters : report.chapters.outline = other.chapters.outline
  isSuccess : report.isSuccess = other.isSuccess
  markdown : report.markdown = other.markdown
  failing : report.failing.map (·.name) = other.failing.map (·.name)

theorem exists_chapters_of_outline_eq {report other : Report} (h : report.outline = other.outline) :
    ∃ chapters : Chapters, other = { report with chapters } ∧
      report.chapters.outline = chapters.outline := by
  refine ⟨other.chapters, ?_, congrArg Report.chapters h⟩
  cases report
  cases other
  simp only [outline, mk.injEq] at h ⊢
  obtain ⟨-, rfl, rfl, rfl, rfl, rfl, rfl, rfl⟩ := h
  simp

theorem agree_of_outline_eq {report other : Report} (houtline : report.outline = other.outline)
    (hresults : report.results.Perm other.results) : report.Agree other := by
  have hmarkdown := congrArg markdown houtline
  rw [markdown_outline, markdown_outline] at hmarkdown
  obtain ⟨chapters, rfl, hchapters⟩ := exists_chapters_of_outline_eq houtline
  exact {
    results := hresults
    total := rfl
    passed := rfl
    failed := rfl
    errors := rfl
    skipped := rfl
    notApplicable := rfl
    chapters := hchapters
    isSuccess := rfl
    markdown := hmarkdown
    failing := names_failing_of_perm hresults }

end Report

namespace Progress

theorem results_report (progress : Progress) :
    progress.report.results.Perm progress.results.toList :=
  Report.results_addAll .empty progress.results.toList

theorem notApplicable_report (progress : Progress) :
    progress.report.notApplicable = progress.notApplicable := by
  rw [report, Report.addNotApplicable, Report.notApplicable_addAll]
  exact Nat.zero_add _

/-- Progress that differs in nothing but the order of results leads to the same report. -/
theorem agree_report {progress other : Progress}
    (hresults : progress.results.toList.Perm other.results.toList)
    (hnotApplicable : progress.notApplicable = other.notApplicable) :
    progress.report.Agree other.report := by
  apply Report.agree_of_outline_eq
  · have houtline := Report.outline_addAll_of_perm hresults .empty
    have hcounted : ∀ report : Report, ∀ count, (report.addNotApplicable count).outline =
        report.outline.addNotApplicable count := fun _ _ => rfl
    rw [report, report, hcounted, hcounted, houtline, hnotApplicable]
  · exact (results_report progress).trans (hresults.trans (results_report other).symm)

end Progress

end Conformance
