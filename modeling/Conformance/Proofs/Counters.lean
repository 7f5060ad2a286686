import Conformance.Proofs.Filing

/-!
# The counters of a report

A report counts each result once by its grade, however it files them: `Report.Counted` ties the
counters to the results that are filed, and filing one more keeps it.
-/

namespace Conformance

namespace Report

structure Counted (report : Report) : Prop where
  total_eq : report.total = report.results.length
  passed_eq : report.passed = report.results.countP (·.grade = .pass)
  failed_eq : report.failed = report.results.countP (·.grade = .fail)
  errors_eq : report.errors = report.results.countP (·.grade = .error)
  skipped_eq : report.skipped = report.results.countP (·.grade = .skip)

theorem counted_empty : Report.empty.Counted where
  total_eq := rfl
  passed_eq := rfl
  failed_eq := rfl
  errors_eq := rfl
  skipped_eq := rfl

theorem countP_add (report : Report) (result : Result) (p : Result → Bool) :
    (report.add result).results.countP p =
      report.results.countP p + if p result then 1 else 0 := by
  have hperm : (report.add result).results.Perm (result :: report.results) :=
    Chapters.results_add result report.chapters
  rw [hperm.countP_eq, List.countP_cons]

theorem Counted.add {report : Report} (h : report.Counted) (result : Result) :
    (report.add result).Counted := by
  have hperm : (report.add result).results.Perm (result :: report.results) :=
    Chapters.results_add result report.chapters
  constructor
  · rw [hperm.length_eq, List.length_cons, ← h.total_eq]
    rfl
  · rw [countP_add, ← h.passed_eq]
    simp [Report.add]
  · rw [countP_add, ← h.failed_eq]
    simp [Report.add]
  · rw [countP_add, ← h.errors_eq]
    simp [Report.add]
  · rw [countP_add, ← h.skipped_eq]
    simp [Report.add]

theorem Counted.addAll {report : Report} (h : report.Counted) (results : List Result) :
    (report.addAll results).Counted := by
  induction results generalizing report with
  | nil => exact h
  | cons result rest ih => exact ih (h.add result)

end Report

theorem Progress.counted_report (progress : Progress) : progress.report.Counted := by
  obtain ⟨htotal, hpassed, hfailed, herrors, hskipped⟩ :=
    Report.counted_empty.addAll progress.results.toList
  exact ⟨htotal, hpassed, hfailed, herrors, hskipped⟩

end Conformance
