import Conformance.Proofs.Filing
import Conformance.Report.Json

/-!
# The order of arrival

Of the renderings of a report, the table in Markdown shows its outline alone. The summary and the
JSON show the failing results too, in the order of their names; where names tie, the order of
arrival decides, so that they are the same for every order once no two different failing results
share a name.
-/

namespace Conformance

theorem Chapters.map_eq_of_outline_eq {α : Type} {chapters others : Chapters}
    (h : chapters.outline = others.outline) (f : String × Chapter → α)
    (hf : ∀ key chapter, f (key, chapter.outline) = f (key, chapter)) :
    chapters.map f = others.map f := by
  have houtline : ∀ chapters : Chapters, chapters.outline.map f = chapters.map f := by
    intro chapters
    rw [outline, List.map_map]
    exact List.map_congr_left fun entry _ => hf entry.1 entry.2
  rw [← houtline chapters, ← houtline others, h]

namespace Report

variable {report other : Report}

/-- Where equal names mean equal results, sorting by name leaves no choice. -/
theorem failing_eq_of_perm (h : report.results.Perm other.results)
    (hnames : ∀ a ∈ report.results, ∀ b ∈ report.results, a.grade.isFailing = true →
      b.grade.isFailing = true → a.name = b.name → a = b) :
    report.failing = other.failing := by
  have hmem : ∀ result ∈ report.failing,
      result ∈ report.results ∧ result.grade.isFailing = true := by
    intro result hresult
    have hperm : report.failing.Perm (report.results.filter (·.grade.isFailing)) :=
      Sorting.sort_perm _ _
    exact List.mem_filter.1 (hperm.mem_iff.1 hresult)
  have hperm : report.failing.Perm other.failing := failing_perm_of_perm h
  refine hperm.eq_of_pairwise ?_ report.ascending_failing other.ascending_failing
  intro a b ha hb hab hba
  have ⟨ha, hafailing⟩ := hmem a ha
  have ⟨hb, hbfailing⟩ := hmem b (hperm.mem_iff.2 hb)
  have hname : a.name = b.name :=
    String.le_antisymm (by simpa using hab) (by simpa using hba)
  exact hnames a ha b hb hafailing hbfailing hname

theorem summary_eq_of_outline_eq (houtline : report.outline = other.outline)
    (hfailing : report.failing = other.failing) : report.summary = other.summary := by
  obtain ⟨chapters, rfl, hchapters⟩ := exists_chapters_of_outline_eq houtline
  have hrows := Chapters.map_eq_of_outline_eq hchapters (fun entry => chapterRow entry.2)
    fun _ _ => rfl
  unfold summary
  rw [hrows, hfailing]
  rfl

theorem toJson_eq_of_outline_eq (houtline : report.outline = other.outline)
    (hfailing : report.failing = other.failing) : report.toJson = other.toJson := by
  obtain ⟨chapters, rfl, hchapters⟩ := exists_chapters_of_outline_eq houtline
  have hobjects := Chapters.map_eq_of_outline_eq hchapters
    (fun entry => (entry.1, entry.2.toJson)) fun _ _ => rfl
  unfold toJson
  rw [hobjects, hfailing]
  rfl

/-- What a chapter shows without its results. -/
def chapterFigures (report : Report) : List (String × String × Nat × Nat × Nat × Binary64) :=
  report.chapters.map fun (key, chapter) =>
    (key, chapter.name, chapter.total, chapter.passed, chapter.failed, chapter.passRate)

/-- What the order of arrival cannot reach, and what it cannot reach as long as different failing
results have different names. -/
theorem renderings_eq_of_perm {results others : List Result} (h : results.Perm others) :
    let report := Report.empty.addAll results
    let other := Report.empty.addAll others
    report.Agree other ∧ report.totalTime = other.totalTime ∧
      report.passRate = other.passRate ∧ report.chapterFigures = other.chapterFigures ∧
      ((∀ a ∈ results, ∀ b ∈ results, a.grade.isFailing = true → b.grade.isFailing = true →
        a.name = b.name → a = b) →
        report.summary = other.summary ∧ report.toJson = other.toJson) := by
  intro report other
  have houtline : report.outline = other.outline := outline_addAll_of_perm h .empty
  have hfiled : ∀ results, (Report.empty.addAll results).results.Perm results :=
    results_addAll .empty
  have hresults : report.results.Perm other.results :=
    (hfiled results).trans (h.trans (hfiled others).symm)
  have hrate : report.outline.passRate = other.outline.passRate := congrArg passRate houtline
  have htime : report.outline.totalTime = other.outline.totalTime := congrArg totalTime houtline
  have hchapters : report.chapters.outline = other.chapters.outline :=
    congrArg Report.chapters houtline
  refine ⟨agree_of_outline_eq houtline hresults, htime, hrate,
    Chapters.map_eq_of_outline_eq hchapters _ fun _ _ => rfl, fun hnames => ?_⟩
  have hfailing : report.failing = other.failing := by
    apply failing_eq_of_perm hresults
    intro a ha b hb
    exact hnames a ((hfiled results).mem_iff.1 ha) b ((hfiled results).mem_iff.1 hb)
  exact ⟨summary_eq_of_outline_eq houtline hfailing, toJson_eq_of_outline_eq houtline hfailing⟩

/-- Two tests of one chapter that cannot be read, in either order. -/
theorem renderings_eq_of_perm_unreadable :
    let first := Result.ofFile "test/language/types/b.js" .error (some "no front matter")
    let second := Result.ofFile "test/language/types/a.js" .error none
    [first, second].Perm [second, first] ∧
      (∀ a ∈ [first, second], ∀ b ∈ [first, second], a.grade.isFailing = true →
        b.grade.isFailing = true → a.name = b.name → a = b) ∧
      (Report.empty.addAll [first, second]).Agree (Report.empty.addAll [second, first]) ∧
      (Report.empty.addAll [first, second]).summary =
        (Report.empty.addAll [second, first]).summary := by
  intro first second
  have hperm : [first, second].Perm [second, first] := .swap second first []
  have hnames : ∀ a ∈ [first, second], ∀ b ∈ [first, second], a.grade.isFailing = true →
      b.grade.isFailing = true → a.name = b.name → a = b := by
    decide
  have ⟨hagree, _, _, _, hrenderings⟩ := renderings_eq_of_perm hperm
  exact ⟨hperm, hnames, hagree, (hrenderings hnames).1⟩

end Report

end Conformance
