import Mathlib.Algebra.BigOperators.Ring.List
import Mathlib.Algebra.Order.BigOperators.Group.List
import Conformance.Proofs.Bookkeeping
import Conformance.Proofs.Percentages

/-!
# The rates of a report

The report takes its rate over the results that were not skipped, a chapter over all of its results.
So the rate of the report lies between the rates that its chapters have without what was skipped
(`Report.Rated`), and the rate that a chapter is given falls short of that exactly if it has passed
and skipped results both.
-/

namespace Conformance

/-! ### Means -/

section Mean

variable {α : Type} {l : List α} {part whole : α → Nat}

theorem sum_map_filter_pos {f : α → Nat} (h : ∀ x ∈ l, whole x = 0 → f x = 0) :
    ((l.filter (0 < whole ·)).map f).sum = (l.map f).sum := by
  induction l with
  | nil => rfl
  | cons x rest ih =>
    obtain ⟨hx, hrest⟩ := List.forall_mem_cons.1 h
    rcases Nat.eq_zero_or_pos (whole x) with hzero | hpos
    · rw [List.filter_cons_of_neg (by simp [hzero]), ih hrest, List.map_cons, List.sum_cons,
        hx hzero, Nat.zero_add]
    · rw [List.filter_cons_of_pos (by simpa using hpos), List.map_cons, List.map_cons,
        List.sum_cons, List.sum_cons, ih hrest]

theorem exists_quotients (hpart : ∀ x ∈ l, part x ≤ whole x) (hpos : 0 < (l.map whole).sum) :
    (∃ x ∈ l, 0 < whole x ∧ (part x / whole x : ℚ) ≤ (l.map part).sum / (l.map whole).sum) ∧
      ∃ x ∈ l, 0 < whole x ∧ ((l.map part).sum / (l.map whole).sum : ℚ) ≤ part x / whole x := by
  have hwholes : ((l.filter (0 < whole ·)).map whole).sum = (l.map whole).sum :=
    sum_map_filter_pos fun _ _ h => h
  have hparts : ((l.filter (0 < whole ·)).map part).sum = (l.map part).sum :=
    sum_map_filter_pos fun x hx hzero => Nat.le_zero.1 (hzero ▸ hpart x hx)
  have hne : l.filter (0 < whole ·) ≠ [] := by
    intro hnil
    rw [hnil, List.map_nil, List.sum_nil] at hwholes
    exact hpos.ne hwholes
  generalize (l.map whole).sum = w at *
  generalize (l.map part).sum = p at *
  -- both functions have the sum `p * w`
  have hsum : ((l.filter (0 < whole ·)).map fun x => part x * w).sum =
      ((l.filter (0 < whole ·)).map fun x => p * whole x).sum := by
    rw [List.sum_map_mul_right, List.sum_map_mul_left, hwholes, hparts]
  have hw : (0 : ℚ) < w := by exact_mod_cast hpos
  constructor
  · obtain ⟨x, hx, hle⟩ := List.exists_le_of_sum_le hne _ _ hsum.le
    obtain ⟨hmem, hx⟩ : x ∈ l ∧ 0 < whole x := by simpa using hx
    refine ⟨x, hmem, hx, ?_⟩
    rw [div_le_div_iff₀ (by exact_mod_cast hx) hw]
    exact_mod_cast hle
  · obtain ⟨x, hx, hle⟩ := List.exists_le_of_sum_le hne _ _ hsum.ge
    obtain ⟨hmem, hx⟩ : x ∈ l ∧ 0 < whole x := by simpa using hx
    refine ⟨x, hmem, hx, ?_⟩
    rw [div_le_div_iff₀ hw (by exact_mod_cast hx)]
    exact_mod_cast hle

end Mean

/-! ### The rates of chapters -/

namespace Chapter

variable {chapter : Chapter}

/-- The results that were skipped, for which a chapter has no counter. -/
def skipped (chapter : Chapter) : Nat :=
  chapter.tests.toList.countP (·.grade = .skip)

/-- How many results of a chapter count for the rate of a report. -/
def runnable (chapter : Chapter) : Nat :=
  chapter.total - chapter.skipped

/-- The quotient that `passRate` gives as a percentage; of nothing it is zero. -/
def rate (chapter : Chapter) : ℚ := chapter.passed / chapter.total

/-- The rate over the results that were not skipped. -/
def runnableRate (chapter : Chapter) : ℚ := chapter.passed / chapter.runnable

/-- A chapter that counts every result once. -/
structure Tallied (chapter : Chapter) : Prop where
  total_eq : chapter.total = chapter.passed + chapter.failed + chapter.skipped
  total_pos : 0 < chapter.total

section Tallied

variable (h : chapter.Tallied)

include h

theorem Tallied.runnable_eq : chapter.runnable = chapter.passed + chapter.failed := by
  have htotal := h.total_eq
  unfold runnable
  omega

theorem Tallied.passed_le : chapter.passed ≤ chapter.runnable := by
  rw [h.runnable_eq]
  exact Nat.le_add_right _ _

theorem Tallied.rate_le : chapter.rate ≤ chapter.runnableRate := by
  rcases Nat.eq_zero_or_pos chapter.passed with hzero | hpassed
  · simp [rate, runnableRate, hzero]
  · have hrunnable := hpassed.trans_le h.passed_le
    have hle : chapter.runnable ≤ chapter.total := Nat.sub_le _ _
    exact div_le_div_of_nonneg_left (Nat.cast_nonneg _) (by exact_mod_cast hrunnable)
      (by exact_mod_cast hle)

/-- What was skipped lowers the rate of a chapter unless that is zero. -/
theorem Tallied.rate_eq_iff :
    chapter.rate = chapter.runnableRate ↔ chapter.passed = 0 ∨ chapter.skipped = 0 := by
  rcases Nat.eq_zero_or_pos chapter.passed with hzero | hpassed
  · simp [rate, runnableRate, hzero]
  · have hrunnable := hpassed.trans_le h.passed_le
    have hpassed' : (chapter.passed : ℚ) ≠ 0 := by exact_mod_cast hpassed.ne'
    have htotal' : (chapter.total : ℚ) ≠ 0 := by exact_mod_cast h.total_pos.ne'
    have hrunnable' : (chapter.runnable : ℚ) ≠ 0 := by exact_mod_cast hrunnable.ne'
    rw [rate, runnableRate, div_eq_div_iff htotal' hrunnable', mul_right_inj' hpassed',
      Nat.cast_inj, or_iff_right hpassed.ne', h.total_eq, h.runnable_eq]
    omega

end Tallied

end Chapter

namespace Report

/-- The quotient that `passRate` gives as a percentage; of nothing it is zero. -/
def rate (report : Report) : ℚ := report.passed / report.runnable

variable {report : Report} {added : List Result}

section Kept

variable (h : report.Kept added)

include h

theorem Kept.tallied {entry : String × Chapter} (hentry : entry ∈ report.chapters) :
    entry.2.Tallied := by
  have hkey : entry.1 ∈ report.chapters.keys := List.mem_map_of_mem hentry
  obtain ⟨result, hresult, hchapter⟩ := (h.filed.mem_keys_iff _).1 hkey
  rw [h.filed.chapter_eq entry hentry]
  refine ⟨length_eq_countP_grades _, ?_⟩
  exact List.length_pos_of_mem (List.mem_filter.2 ⟨hresult, by simpa using hchapter⟩)

theorem Kept.runnable_eq_sum :
    report.runnable = (report.chapters.map fun entry => entry.2.runnable).sum := by
  have hgrades := h.total_eq_grades
  have hpassed := h.passed_eq_sum
  have hfailing := h.failing_eq_sum
  rw [List.map_congr_left fun entry hentry => (h.tallied hentry).runnable_eq, List.sum_map_add,
    ← hpassed, ← hfailing]
  unfold runnable
  omega

theorem Kept.passed_le : report.passed ≤ report.runnable := by
  have hgrades := h.total_eq_grades
  unfold runnable
  omega

theorem Kept.rates_of_runnable_eq_zero (hzero : report.runnable = 0) :
    report.rate = 0 ∧ ∀ entry ∈ report.chapters, entry.2.runnableRate = 0 := by
  constructor
  · rw [rate, hzero, Nat.cast_zero, div_zero]
  · intro entry hentry
    rw [h.runnable_eq_sum, List.sum_eq_zero_iff] at hzero
    have hentry := hzero _ (List.mem_map_of_mem hentry)
    rw [Chapter.runnableRate, hentry, Nat.cast_zero, div_zero]

end Kept

/-- How the rates of a report and of its chapters go together. A chapter is given the rate over all
of its results. -/
structure Rated (report : Report) : Prop where
  rate_le : ∀ entry ∈ report.chapters, entry.2.rate ≤ entry.2.runnableRate
  rate_eq_iff : ∀ entry ∈ report.chapters,
    entry.2.rate = entry.2.runnableRate ↔ entry.2.passed = 0 ∨ entry.2.skipped = 0
  exists_runnableRate_le : report.chapters ≠ [] → ∃ entry ∈ report.chapters,
    (0 < report.runnable → 0 < entry.2.runnable) ∧ entry.2.runnableRate ≤ report.rate
  exists_le_runnableRate : report.chapters ≠ [] → ∃ entry ∈ report.chapters,
    (0 < report.runnable → 0 < entry.2.runnable) ∧ report.rate ≤ entry.2.runnableRate
  /-- The least rate given is no more than that of the report. -/
  exists_rate_le : report.chapters ≠ [] → ∃ entry ∈ report.chapters,
    (0 < report.runnable → 0 < entry.2.runnable) ∧ entry.2.rate ≤ report.rate
  /-- The greatest rate given is as much as that of the report where nothing lowers one. -/
  exists_le_rate : report.chapters ≠ [] →
    (∀ entry ∈ report.chapters, entry.2.passed = 0 ∨ entry.2.skipped = 0) →
    ∃ entry ∈ report.chapters, report.rate ≤ entry.2.rate
  /-- A chapter is shown with the percentage of the report just if it is given the rate of it. -/
  passRate_eq_iff : report.total < 2 ^ 25 → ∀ entry ∈ report.chapters,
    entry.2.passRate = report.passRate ↔ entry.2.rate = report.rate

section Kept

variable (h : report.Kept added)

include h

theorem Kept.exists_runnableRates (hne : report.chapters ≠ []) :
    (∃ entry ∈ report.chapters,
      (0 < report.runnable → 0 < entry.2.runnable) ∧ entry.2.runnableRate ≤ report.rate) ∧
    ∃ entry ∈ report.chapters,
      (0 < report.runnable → 0 < entry.2.runnable) ∧ report.rate ≤ entry.2.runnableRate := by
  rcases Nat.eq_zero_or_pos report.runnable with hzero | hpos
  · obtain ⟨hrate, hrates⟩ := h.rates_of_runnable_eq_zero hzero
    obtain ⟨entry, hentry⟩ := List.exists_mem_of_ne_nil _ hne
    have hnone : 0 < report.runnable → 0 < entry.2.runnable := fun hpos => absurd hzero hpos.ne'
    have hsame : entry.2.runnableRate = report.rate := (hrates entry hentry).trans hrate.symm
    exact ⟨⟨entry, hentry, hnone, hsame.le⟩, ⟨entry, hentry, hnone, hsame.ge⟩⟩
  · have hsum := h.runnable_eq_sum
    have hpart : ∀ entry ∈ report.chapters, entry.2.passed ≤ entry.2.runnable :=
      fun entry hentry => (h.tallied hentry).passed_le
    obtain ⟨⟨low, hlow, hlowPos, hlowRate⟩, ⟨high, hhigh, hhighPos, hhighRate⟩⟩ :=
      exists_quotients hpart (hsum ▸ hpos)
    rw [← hsum, ← h.passed_eq_sum] at hlowRate hhighRate
    exact ⟨⟨low, hlow, fun _ => hlowPos, hlowRate⟩, ⟨high, hhigh, fun _ => hhighPos, hhighRate⟩⟩

theorem Kept.total_le {entry : String × Chapter} (hentry : entry ∈ report.chapters) :
    entry.2.total ≤ report.total := by
  rw [h.total_eq_sum]
  exact List.le_sum_of_mem (List.mem_map_of_mem hentry)

theorem Kept.passRate_eq_iff (hlt : report.total < 2 ^ 25) {entry : String × Chapter}
    (hentry : entry ∈ report.chapters) :
    entry.2.passRate = report.passRate ↔ entry.2.rate = report.rate := by
  have htallied := h.tallied hentry
  have htotal : entry.2.total < 2 ^ 25 := (h.total_le hentry).trans_lt hlt
  have hpassed : entry.2.passed ≤ entry.2.total := htallied.passed_le.trans (Nat.sub_le _ _)
  have hrunnable : report.runnable < 2 ^ 25 := (Nat.sub_le _ _).trans_lt hlt
  rcases Nat.eq_zero_or_pos report.runnable with hzero | hpos
  · have hnone : report.passed = 0 := Nat.le_zero.1 (hzero ▸ h.passed_le)
    have hnone' : entry.2.passed = 0 := by
      have hsum := h.passed_eq_sum.symm
      rw [hnone, List.sum_eq_zero_iff] at hsum
      exact hsum _ (List.mem_map_of_mem hentry)
    have hwide : (2 : Nat) ^ 25 < 2 ^ 53 := by norm_num
    have hsame : entry.2.passRate = report.passRate := by
      rw [Chapter.passRate, passRate, hnone, hnone', passRate_zero (htotal.trans hwide),
        passRate_zero (hrunnable.trans hwide)]
    have hrate : entry.2.rate = report.rate := by
      rw [Chapter.rate, rate, hnone, hnone', Nat.cast_zero, zero_div, zero_div]
    exact iff_of_true hsame hrate
  · exact Conformance.passRate_eq_iff htallied.total_pos hpos hpassed h.passed_le htotal hrunnable

theorem Kept.rated : report.Rated where
  rate_le _ hentry := (h.tallied hentry).rate_le
  rate_eq_iff _ hentry := (h.tallied hentry).rate_eq_iff
  exists_runnableRate_le hne := (h.exists_runnableRates hne).1
  exists_le_runnableRate hne := (h.exists_runnableRates hne).2
  exists_rate_le hne := by
    obtain ⟨entry, hentry, hcounts, hle⟩ := (h.exists_runnableRates hne).1
    exact ⟨entry, hentry, hcounts, (h.tallied hentry).rate_le.trans hle⟩
  exists_le_rate hne hnone := by
    obtain ⟨entry, hentry, -, hle⟩ := (h.exists_runnableRates hne).2
    have hrate := (h.tallied hentry).rate_eq_iff.2 (hnone entry hentry)
    exact ⟨entry, hentry, hle.trans hrate.ge⟩
  passRate_eq_iff hlt _ hentry := h.passRate_eq_iff hlt hentry

theorem Kept.chapters_eq_nil_iff : report.chapters = [] ↔ added = [] := by
  constructor
  · intro hnil
    have hlength := h.total_eq_sum.symm.trans (h.counted.total_eq.trans h.results_perm.length_eq)
    rw [hnil, List.map_nil, List.sum_nil] at hlength
    exact List.length_eq_zero_iff.1 hlength.symm
  · rintro rfl
    rw [List.eq_nil_iff_forall_not_mem]
    intro entry hentry
    obtain ⟨result, hresult, -⟩ := (h.filed.mem_keys_iff entry.1).1 (List.mem_map_of_mem hentry)
    exact List.not_mem_nil hresult

theorem Kept.exists_chapters_eq {key : String} (hne : added ≠ [])
    (hkey : ∀ result ∈ added, chapterOf result.path = key) :
    ∃ chapter, report.chapters = [(key, chapter)] := by
  have hmem : ∀ entry ∈ report.chapters, entry.1 = key := by
    intro entry hentry
    obtain ⟨result, hresult, hchapter⟩ :=
      (h.filed.mem_keys_iff entry.1).1 (List.mem_map_of_mem hentry)
    rw [← hchapter, hkey result hresult]
  have hascending := h.filed.ascending
  cases hchapters : report.chapters with
  | nil => exact absurd (h.chapters_eq_nil_iff.1 hchapters) hne
  | cons first rest =>
    rw [hchapters] at hmem hascending
    obtain ⟨known, chapter⟩ := first
    obtain rfl : known = key := hmem _ List.mem_cons_self
    cases rest with
    | nil => exact ⟨chapter, rfl⟩
    | cons second rest =>
      have hlt := (List.pairwise_cons.1 hascending).1 second.1 List.mem_cons_self
      rw [hmem second (List.mem_cons_of_mem _ List.mem_cons_self)] at hlt
      exact absurd hlt (String.lt_irrefl _)

theorem Kept.rates_of_chapters_eq {key : String} {chapter : Chapter}
    (hchapters : report.chapters = [(key, chapter)]) :
    chapter.runnableRate = report.rate ∧ chapter.passed = report.passed ∧
      chapter.skipped = report.skipped := by
  have hpassed := h.passed_eq_sum
  have hrunnable := h.runnable_eq_sum
  have htotal := h.total_eq_sum
  have hgrades := h.total_eq_grades
  have hfailing := h.failing_eq_sum
  have htallied := (h.tallied (hchapters ▸ List.mem_singleton_self _)).total_eq
  rw [hchapters, List.map_singleton, List.sum_singleton] at hpassed hrunnable htotal hfailing
  dsimp only at *
  refine ⟨?_, hpassed.symm, by omega⟩
  rw [Chapter.runnableRate, rate, hpassed, hrunnable]

end Kept

/-- Whatever results were added: the rate of the report lies between the rates that its chapters
have without what was skipped. If all results are of one chapter, that is one rate, and the chapter
is given it just if nothing passed or nothing was skipped. -/
theorem rates_ofCalls (calls : List Call) :
    let report := ofCalls calls
    let results := calls.filterMap Call.result?
    report.Rated ∧ (report.chapters = [] ↔ results = []) ∧
      ∀ key, results ≠ [] → (∀ result ∈ results, chapterOf result.path = key) →
        ∃ chapter, report.chapters = [(key, chapter)] ∧ chapter.runnableRate = report.rate ∧
          (chapter.rate = report.rate ↔ report.passed = 0 ∨ report.skipped = 0) := by
  intro report results
  have h : report.Kept results := kept_empty.calls calls
  refine ⟨h.rated, h.chapters_eq_nil_iff, fun key hne hkey => ?_⟩
  obtain ⟨chapter, hchapters⟩ := h.exists_chapters_eq hne hkey
  obtain ⟨hrate, hpassed, hskipped⟩ := h.rates_of_chapters_eq hchapters
  have hentry : (key, chapter) ∈ report.chapters := by
    rw [hchapters]
    exact List.mem_cons_self
  refine ⟨chapter, hchapters, hrate, ?_⟩
  rw [← hrate, (h.tallied hentry).rate_eq_iff, hpassed, hskipped]

/-- A test that passed and one of the same chapter that was skipped. -/
def halfSkipped : Report :=
  ofCalls [.add (Result.ofFile "test/built-ins/Date/now.js" .pass none),
    .add (Result.ofFile "test/built-ins/Date/zone.js" .skip (some "timezone"))]

/-- The chapter of a report that has no other is shown with half of its rate. -/
theorem skipped_lowers_rate :
    ∃ chapter, halfSkipped.chapters = [("built-ins/Date", chapter)] ∧
      chapter.rate = 1 / 2 ∧ halfSkipped.rate = 1 ∧
      chapter.passRate = .ofNat 50 ∧ halfSkipped.passRate = .ofNat 100 := by
  refine ⟨_, rfl, ?_, ?_, by decide +kernel, by decide +kernel⟩
  · change ((1 : Nat) / (2 : Nat) : ℚ) = 1 / 2
    norm_num
  · change ((1 : Nat) / (1 : Nat) : ℚ) = 1
    norm_num

end Report

end Conformance
