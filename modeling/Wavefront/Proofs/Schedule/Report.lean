import Mathlib.Data.List.Perm.Subperm
import Wavefront.Proofs.Schedule.FixedPoint

set_option autoImplicit false

/-!
# What a report says about the last store

Nothing is discarded and nothing unresolved exactly when every wanted task has got its value, and
the number of computed variables is the number of values a run adds.
-/
namespace Wavefront

theorem Store.size_eq_size_iff {s : Store} {names : NameSet} (h : ∀ n, s.contains n → n ∈ names) :
    s.size = names.size ↔ ∀ n ∈ names, s.contains n := by
  have hkeys (n : Name) : n ∈ s.values.keys ↔ s.contains n := Std.ExtTreeMap.mem_keys
  have hnames : names.toList.Nodup :=
    names.distinct_toList.imp fun hne heq => hne (Std.compare_eq_iff_eq.2 heq)
  have hsub : s.values.keys ⊆ names.toList := by
    intro n hn
    exact Std.ExtTreeSet.mem_toList.2 (h n ((hkeys n).1 hn))
  have hs : s.values.keys.length = s.size := Std.ExtTreeMap.length_keys
  have hn : names.toList.length = names.size := Std.ExtTreeSet.length_toList
  rw [← hs, ← hn]
  constructor
  · intro hlen n hmem
    have hperm := (List.subperm_of_subset s.values.nodup_keys hsub).perm_of_length_le
      (Nat.le_of_eq hlen.symm)
    exact (hkeys n).1 (hperm.mem_iff.2 (Std.ExtTreeSet.mem_toList.2 hmem))
  · intro hall
    refine ((List.perm_ext_iff_of_nodup s.values.nodup_keys hnames).2 fun n => ?_).length_eq
    refine ⟨fun hmem => hsub hmem, fun hmem => ?_⟩
    exact (hkeys n).2 (hall n (Std.ExtTreeSet.mem_toList.1 hmem))

theorem Ready.discarded?_attempt_eq_none_iff (r : Ready) :
    r.attempt.discarded? = none ↔ ∃ v, r.attempt.value? = some v := by
  unfold attempt Attempt.discarded? Attempt.reason? Attempt.value? verdict
  cases r.operator.apply r.left r.right with
  | ok v => simp
  | error e => cases e <;> simp

section
variable (settings : Settings) (live : NameSet) {s : Store} {pending : List Task}

theorem report_discarded_eq_nil_iff (hd : Distinct pending) :
    (runTasks settings live s pending).report.discarded = [] ↔
      ∀ t ∈ pending, t.Wanted live s → ∀ a b,
        t.Resolves (runTasks settings live s pending).store a b →
          (runTasks settings live s pending).store.contains t.target := by
  have hvalue {t : Task} {a b : Value} (ht : t ∈ pending) (hw : t.Wanted live s)
      (hres : t.Resolves (runTasks settings live s pending).store a b) :
      (t.withOperands a b).attempt.discarded? = none ↔
        (runTasks settings live s pending).store.contains t.target := by
    rw [Ready.discarded?_attempt_eq_none_iff, Store.contains_iff]
    refine exists_congr fun v => ?_
    rw [Ready.value?_attempt, get?_store_target_iff settings live hd ht hw, hres.yields_iff]
    rfl
  change List.filterMap _ _ = [] ↔ _
  rw [List.filterMap_eq_nil_iff]
  constructor
  · intro h t ht hw a b hres
    exact (hvalue ht hw hres).1
      (h _ ((mem_attempts_runTasks settings live hd _).2 ⟨t, ht, hw, a, b, hres, rfl⟩))
  · intro h att hatt
    obtain ⟨t, ht, hw, a, b, hres, rfl⟩ := (mem_attempts_runTasks settings live hd att).1 hatt
    exact (hvalue ht hw hres).2 (h t ht hw a b hres)

theorem report_unresolved_eq_nil_iff (hd : Distinct pending) :
    (runTasks settings live s pending).report.unresolved = [] ↔
      ∀ t ∈ pending, t.Wanted live (runTasks settings live s pending).store → ∃ a b,
        t.Resolves (runTasks settings live s pending).store a b := by
  change (runTasks settings live s pending).unresolved = [] ↔ _
  rw [unresolved_runTasks settings live hd, List.map_eq_nil_iff, List.eq_nil_iff_forall_not_mem]
  simp only [mem_blockedTasks, not_and, not_forall, not_not]

/-- A report without failures: every wanted task has got its value. -/
theorem report_clean_iff (hd : Distinct pending) :
    ((runTasks settings live s pending).report.discarded = [] ∧
        (runTasks settings live s pending).report.unresolved = []) ↔
      ∀ t ∈ pending, t.Wanted live s →
        (runTasks settings live s pending).store.contains t.target := by
  rw [report_discarded_eq_nil_iff settings live hd, report_unresolved_eq_nil_iff settings live hd]
  constructor
  · rintro ⟨hdiscarded, hunresolved⟩ t ht hw
    by_contra hno
    have hnone : (runTasks settings live s pending).store.get? t.target = none := by
      simpa [Store.contains_eq_isSome] using hno
    obtain ⟨a, b, hres⟩ := hunresolved t ht ⟨hw.1, hnone⟩
    exact hno (hdiscarded t ht hw a b hres)
  · intro h
    refine ⟨fun t ht hw _ _ _ => h t ht hw, fun t ht hw => ?_⟩
    have hvalue := h t ht (hw.of_le (le_store_runTasks settings live hd))
    simp [Store.contains_eq_isSome, hw.2] at hvalue

end

end Wavefront
