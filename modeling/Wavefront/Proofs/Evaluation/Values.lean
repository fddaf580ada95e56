import Wavefront.Evaluation
import Wavefront.Proofs.Liveness.Reachability
import Wavefront.Proofs.Schedule.Report

set_option autoImplicit false

/-!
# The values of an evaluation

An evaluation starts from an empty store, so each of its values comes from a live definition whose
operands have values too. A variable with a value therefore leads only to variables with values.
-/
namespace Wavefront

open Relation

def Evaluation.HasValue (e : Evaluation) (n : Name) : Prop := e.run.store.contains n

theorem Evaluation.hasValue_iff (e : Evaluation) (n : Name) :
    e.HasValue n ↔ ∃ v, e.run.store.get? n = some v := Store.contains_iff _ n

namespace Program

theorem evaluate_settings (p : Program) (settings settings' : Settings) :
    p.evaluate settings = p.evaluate settings' := by
  have hrun : p.run settings (liveNames p.operations) Store.empty =
      p.run settings' (liveNames p.operations) Store.empty :=
    runTasks_settings settings settings' _ p.distinct_tasks
  simp only [evaluate, hrun]

section
variable (p : Program) (settings : Settings)

theorem get?_evaluate_iff (n : Name) (v : Value) :
    (p.evaluate settings).run.store.get? n = some v ↔
      n ∈ liveNames p.operations ∧ ∃ c : Calc, .define c ∈ p.operations ∧ c.target = n ∧
        c.Yields (p.evaluate settings).run.store v := by
  have h := p.get?_run_iff settings (liveNames p.operations) Store.empty n v
  simp only [Store.get?_empty, reduceCtorEq, false_or, true_and] at h
  exact h

variable {n : Name}

theorem exists_define_of_hasValue (h : (p.evaluate settings).HasValue n) :
    ∃ c : Calc, .define c ∈ p.operations ∧ c.target = n ∧
      ∃ v, c.Yields (p.evaluate settings).run.store v := by
  obtain ⟨v, hv⟩ := (Evaluation.hasValue_iff _ n).1 h
  obtain ⟨-, c, hc, htarget, hyields⟩ := (p.get?_evaluate_iff settings n v).1 hv
  exact ⟨c, hc, htarget, v, hyields⟩

theorem mem_live_of_hasValue (h : (p.evaluate settings).HasValue n) :
    n ∈ (p.evaluate settings).live := by
  obtain ⟨v, hv⟩ := (Evaluation.hasValue_iff _ n).1 h
  exact ((p.get?_evaluate_iff settings n v).1 hv).1

theorem hasValue_of_refers (h : (p.evaluate settings).HasValue n) {m : Name}
    (hm : Refers p.operations n m) : (p.evaluate settings).HasValue m := by
  obtain ⟨c, hc, htarget, -, left, right, hl, hr, -⟩ := p.exists_define_of_hasValue settings h
  obtain ⟨d, hd, htarget', hmem⟩ := hm
  obtain rfl := p.define_unique hc hd (htarget.trans htarget'.symm)
  rw [Evaluation.hasValue_iff]
  rcases (c.mem_references_iff m).1 hmem with hleft | hright
  · rw [hleft] at hl
    exact ⟨left, hl⟩
  · rw [hright] at hr
    exact ⟨right, hr⟩

theorem hasValue_of_reflTransGen (h : (p.evaluate settings).HasValue n) {m : Name}
    (hm : ReflTransGen (Refers p.operations) n m) : (p.evaluate settings).HasValue m := by
  induction hm with
  | refl => exact h
  | tail _ hm ih => exact p.hasValue_of_refers settings ih hm

theorem mem_broken_evaluate (n : Name) :
    n ∈ (p.evaluate settings).printout.broken ↔
      .print n ∈ p.operations ∧ ¬ (p.evaluate settings).HasValue n := by
  change n ∈ List.filter _ _ ↔ _
  rw [List.mem_filter, List.mem_filterMap]
  simp only [Operation.printed?_eq_some_iff, exists_eq_right, Bool.not_eq_true',
    Evaluation.HasValue, Bool.not_eq_true]
  rfl

theorem computed_eq_size :
    (p.evaluate settings).run.report.computed = (p.evaluate settings).run.store.size := by
  have h := size_store_runTasks settings (liveNames p.operations) (s := Store.empty)
    p.distinct_tasks
  have hempty : Store.empty.size = 0 := rfl
  rw [hempty, Nat.zero_add] at h
  exact h.symm

end

end Program

end Wavefront
