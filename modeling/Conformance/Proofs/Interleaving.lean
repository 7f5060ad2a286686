import Conformance.Proofs.Completion
import Conformance.Proofs.Filing
import Conformance.Proofs.Forecast

/-!
# Every schedule leads to the same report

Runs that go on side by side hand in their results in some order. When the last worker has gone
there are the same results, each as often, as when the runs are performed one after the other, and
the report differs in nothing but their order within a chapter.
-/

namespace Conformance

namespace Suite

variable (suite : Suite)

/-- The suite without parallel runs. -/
def inOrder : Suite :=
  { suite with settings := { suite.settings with parallel := false } }

theorem fileTasks_inOrder : suite.inOrder.fileTasks = suite.fileTasks := by
  funext path
  have hplan : suite.inOrder.planOf path = suite.planOf path := by
    simp only [planOf, Plan.ofFile, Plan.ofSource, inOrder]
  simp only [fileTasks, hplan]

theorem directoryTasks_inOrder : suite.inOrder.directoryTasks = suite.directoryTasks := by
  funext dir
  unfold directoryTasks
  rw [fileTasks_inOrder]
  rfl

theorem performAll_inOrder :
    suite.inOrder.performAll suite.inOrder.corpusTasks =
      suite.performAll suite.corpusTasks := by
  have htasks : suite.inOrder.corpusTasks = suite.corpusTasks := by
    unfold corpusTasks
    rw [directoryTasks_inOrder]
    rfl
  rw [htasks]
  rfl

end Suite

namespace Schedule

/-- Whichever thread comes first at each step, and however many runs may go on at a time, a complete
schedule hands in the results that it hands in when runs go on one at a time, and leaves out as many
tests; those are, in order, the results of performing all tasks. -/
theorem agree_of_complete (suite : Suite) (capacity other : Nat) {final : State}
    {sequential : State}
    (hreaches : Reaches suite (· = suite.engine) (.start (.ofCapacity capacity) suite.errands)
      final)
    (hfinal : final.IsFinal)
    (hsequential : Reaches suite.inOrder (· = suite.engine)
      (.start (.ofCapacity other) suite.inOrder.errands) sequential)
    (hend : sequential.IsFinal) :
    final.results.Perm sequential.results ∧
      final.notApplicable = sequential.notApplicable ∧
      final.report.Agree sequential.report ∧
      sequential.results = (suite.performAll suite.corpusTasks).results.toList := by
  have hinOrder := results_eq_of_complete hsequential hend rfl
  have hleftOut := notApplicable_of_complete hsequential hend
  rw [suite.performAll_inOrder] at hinOrder hleftOut
  have hresults : final.results.Perm sequential.results := by
    rw [hinOrder]
    exact results_perm_of_complete hreaches hfinal
  have hnotApplicable : final.notApplicable = sequential.notApplicable :=
    (notApplicable_of_complete hreaches hfinal).trans hleftOut.symm
  exact ⟨hresults, hnotApplicable, Progress.agree_report hresults hnotApplicable, hinOrder⟩

theorem agree_of_complete_sample : ∃ final sequential,
    Reaches .sample (· = Scripted.engine) (.start (.ofCapacity 2) Suite.sample.errands) final ∧
      final.IsFinal ∧
      Reaches Suite.sample.inOrder (· = Scripted.engine)
        (.start (.ofCapacity 0) Suite.sample.inOrder.errands) sequential ∧
      sequential.IsFinal ∧ final.report.markdown = sequential.report.markdown := by
  have hengines : ∃ engine, engine = Scripted.engine := ⟨_, rfl⟩
  obtain ⟨final, hreaches, hfinal⟩ :=
    exists_final_of_start .sample 2 Suite.sample.errands hengines
  obtain ⟨sequential, hsequential, hend⟩ :=
    exists_final_of_start Suite.sample.inOrder 0 Suite.sample.inOrder.errands hengines
  have hagree := agree_of_complete .sample 2 0 hreaches hfinal hsequential hend
  exact ⟨final, sequential, hreaches, hfinal, hsequential, hend, hagree.2.2.1.markdown⟩

end Schedule

end Conformance
