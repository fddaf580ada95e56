import Wavefront.Evaluation
import Wavefront.Proofs.Liveness.Reachability
import Wavefront.Proofs.Schedule.Reordering

set_option autoImplicit false

/-!
# The order of operations

Operations may be written in any order. Evaluations of a list and of a permutation of it differ in
the numbers of operations only, as long as the prints keep their order.
-/
namespace Wavefront

namespace Program

def unresolvedNames (p : Program) (r : Report) : List Name :=
  r.unresolved.filterMap fun i => p.operations[i]?.map Operation.target

theorem mem_unresolvedNames_iff (p : Program) (settings : Settings) (live : NameSet) (s : Store)
    (n : Name) :
    n ∈ p.unresolvedNames (p.run settings live s).report ↔
      ∃ t ∈ p.tasks, t.Wanted live (p.run settings live s).store ∧
        (∀ a b, ¬ t.Resolves (p.run settings live s).store a b) ∧ t.target = n := by
  have hunresolved := mem_report_unresolved_iff settings live (s := s) p.distinct_tasks
  have htarget {t : Task} (ht : t ∈ p.tasks) :
      p.operations[t.index]?.map Operation.target = some t.target := by
    rw [(p.mem_tasks_iff t).1 ht]
    rfl
  rw [unresolvedNames, List.mem_filterMap]
  constructor
  · rintro ⟨i, hi, hn⟩
    obtain ⟨t, ht, hw, hblocked, rfl⟩ := (hunresolved i).1 hi
    rw [htarget ht] at hn
    exact ⟨t, ht, hw, hblocked, Option.some.inj hn⟩
  · rintro ⟨t, ht, hw, hblocked, rfl⟩
    exact ⟨t.index, (hunresolved t.index).2 ⟨t, ht, hw, hblocked, rfl⟩, htarget ht⟩

end Program

theorem perm_definedNames {ops ops' : List Operation} (h : ops.Perm ops') :
    (definedNames ops).Perm (definedNames ops') :=
  (h.filterMap Operation.definition?).map Calc.target

theorem liveNames_eq_of_perm {ops ops' : List Operation} (h : ops.Perm ops') :
    liveNames ops = liveNames ops' := by
  have hrefers : Refers ops = Refers ops' := by
    funext n m
    unfold Refers
    simp only [h.mem_iff]
  refine Std.ExtTreeSet.ext_mem fun n => ?_
  rw [mem_liveNames_iff_refers, mem_liveNames_iff_refers, hrefers]
  simp only [h.mem_iff]

theorem sameDefinitions_tasks {p q : Program} (h : p.operations.Perm q.operations) :
    SameDefinitions p.tasks q.tasks := by
  intro c
  rw [← p.define_mem_iff, ← q.define_mem_iff]
  exact h.mem_iff

/-- Two evaluations that differ in the numbers of operations only. -/
structure Evaluation.Agrees (p q : Program) (e f : Evaluation) : Prop where
  items : e.printout.items = f.printout.items
  broken : e.printout.broken = f.printout.broken
  live : e.live = f.live
  waves : e.run.report.waves = f.run.report.waves
  computed : e.run.report.computed = f.run.report.computed
  discarded : (e.run.report.discarded.map Discarded.failure).Perm
    (f.run.report.discarded.map Discarded.failure)
  unresolved : ∀ n, n ∈ p.unresolvedNames e.run.report ↔ n ∈ q.unresolvedNames f.run.report

theorem agrees_evaluate (settings settings' : Settings) {p q : Program}
    (hperm : p.operations.Perm q.operations)
    (hprints : p.operations.filterMap Operation.printed? =
      q.operations.filterMap Operation.printed?) :
    Evaluation.Agrees p q (p.evaluate settings) (q.evaluate settings') := by
  have hlive : liveNames p.operations = liveNames q.operations := liveNames_eq_of_perm hperm
  have hrun : (q.evaluate settings').run =
      q.run settings' (liveNames p.operations) Store.empty := by
    rw [hlive]
    rfl
  have hsame := sameDefinitions_tasks hperm
  have hd := p.distinct_tasks
  have hd' := q.distinct_tasks
  have hstore : (p.evaluate settings).run.store = (q.evaluate settings').run.store := by
    rw [hrun]
    exact (hsame.runTasks_agree settings settings' _ hd hd').2
  have hreport : (p.evaluate settings).run.report.waves =
        (q.evaluate settings').run.report.waves ∧
      (p.evaluate settings).run.report.computed = (q.evaluate settings').run.report.computed := by
    rw [hrun]
    exact hsame.report_agrees settings settings' _ hd hd'
  have hprintout : (p.evaluate settings).printout = (q.evaluate settings').printout := by
    change Printout.ofOperations _ (p.evaluate settings).run.store =
      Printout.ofOperations _ (q.evaluate settings').run.store
    rw [hstore, Printout.ofOperations, hprints]
    rfl
  constructor
  case items => rw [hprintout]
  case broken => rw [hprintout]
  case live => exact hlive
  case waves => exact hreport.1
  case computed => exact hreport.2
  case discarded =>
    rw [hrun]
    exact hsame.perm_failures settings settings' _ hd hd' p.numbered_tasks q.numbered_tasks
  case unresolved =>
    intro n
    rw [hrun]
    change n ∈ p.unresolvedNames (p.run settings (liveNames p.operations) Store.empty).report ↔ _
    rw [p.mem_unresolvedNames_iff, q.mem_unresolvedNames_iff]
    rw [hrun] at hstore
    rw [← hstore]
    exact hsame.exists_iff fun c =>
      (⟨0, c⟩ : Task).Wanted (liveNames p.operations) (p.evaluate settings).run.store ∧
        (∀ a b, ¬ (⟨0, c⟩ : Task).Resolves (p.evaluate settings).run.store a b) ∧ c.target = n

/-- Two lists of the same operations, with the prints in the same order, are both programs or
both none, and as programs they come to the same. -/
theorem evaluate_reordered {ops ops' : List Operation} (hperm : ops.Perm ops')
    (hprints : ops.filterMap Operation.printed? = ops'.filterMap Operation.printed?) :
    ((∃ p, Program.ofOperations ops = .ok p) ↔ ∃ q, Program.ofOperations ops' = .ok q) ∧
      ∀ p q, Program.ofOperations ops = .ok p → Program.ofOperations ops' = .ok q →
        ∀ settings settings',
          Evaluation.Agrees p q (p.evaluate settings) (q.evaluate settings') := by
  constructor
  · rw [Program.exists_ofOperations_iff, Program.exists_ofOperations_iff]
    exact (perm_definedNames hperm).nodup_iff
  · intro p q hp hq settings settings'
    obtain rfl := (Program.ofOperations_eq_ok_iff ops p).1 hp
    obtain rfl := (Program.ofOperations_eq_ok_iff ops' q).1 hq
    exact agrees_evaluate settings settings' hperm hprints

/-- A definition that comes before what it refers to, or after it and all prints. -/
theorem evaluate_reordered_forward_reference :
    let x := Operation.define (Calc.ofTexts "x" "y" "*" "y")
    let y := Operation.define (Calc.ofTexts "y" "2" "+" "3")
    let ops := [x, .print ⟨"x"⟩, y, .print ⟨"z"⟩]
    let ops' := [y, .print ⟨"x"⟩, .print ⟨"z"⟩, x]
    ops.Perm ops' ∧ ops.filterMap Operation.printed? = ops'.filterMap Operation.printed? ∧
      ∃ p q, Program.ofOperations ops = .ok p ∧ Program.ofOperations ops' = .ok q ∧
        Evaluation.Agrees p q (p.evaluate {}) (q.evaluate .sequential) := by
  intro x y ops ops'
  have hperm : ops.Perm ops' := by decide
  have hprints : ops.filterMap Operation.printed? = ops'.filterMap Operation.printed? := rfl
  obtain ⟨hboth, hagree⟩ := evaluate_reordered hperm hprints
  obtain ⟨p, hp⟩ := (Program.exists_ofOperations_iff ops).2 (by decide)
  obtain ⟨q, hq⟩ := hboth.1 ⟨p, hp⟩
  exact ⟨hperm, hprints, p, q, hp, hq, hagree p q hp hq {} .sequential⟩

end Wavefront
