import Mathlib.Order.Bounds.Defs
import Wavefront.Proofs.Schedule.Run

set_option autoImplicit false

/-!
# The fixed point of a run

A run gives an operand a value exactly when the value can be derived from the first store by the
definitions of the pending tasks. The last store is therefore the least one that holds the first
and is closed under those definitions.
-/
namespace Wavefront

/-- What follows from the values of `s` by the tasks that are wanted there. -/
inductive Derives (live : NameSet) (s : Store) (tasks : List Task) : Operand → Value → Prop
  | literal (v : Value) : Derives live s tasks (.literal v) v
  | stored {n : Name} {v : Value} (h : s.get? n = some v) : Derives live s tasks (.reference n) v
  | computed {t : Task} {a b v : Value} (mem : t ∈ tasks) (wanted : t.Wanted live s)
      (left : Derives live s tasks t.definition.left a)
      (right : Derives live s tasks t.definition.right b)
      (result : t.definition.operator.apply a b = .ok v) :
      Derives live s tasks (.reference t.target) v

namespace Derives

variable {live : NameSet} {s : Store} {tasks : List Task} {o : Operand} {v : Value}

theorem of_resolve (h : s.resolve o = some v) : Derives live s tasks o v := by
  cases o with
  | literal w =>
    obtain rfl := Option.some.inj h
    exact .literal w
  | reference n => exact .stored h

/-- A wave finds nothing that cannot be derived without it. -/
theorem of_afterWave (hd : Distinct tasks)
    (h : Derives live (s.afterWave (readyTasks live s tasks)) (blockedTasks live s tasks) o v) :
    Derives live s tasks o v := by
  have hi := hd.independent live s
  induction h with
  | literal v => exact .literal v
  | stored hg =>
    rcases (hi.get?_afterWave_iff _ _).1 hg with hs | ⟨r, hr, rfl, hok⟩
    · exact .stored hs
    · obtain ⟨t, ht, hw, a, b, hres, rfl⟩ := mem_readyTasks.1 hr
      exact .computed ht hw (of_resolve hres.1) (of_resolve hres.2) hok
  | computed ht hw _ _ hok ihl ihr =>
    exact .computed (mem_blockedTasks.1 ht).1 (hw.of_le hi.le_afterWave) ihl ihr hok

end Derives

section
variable (settings : Settings) (live : NameSet) {s : Store} {pending : List Task}

/-- The last store as the solution of an equation: a value is there from the start, or a wanted
task yields it on the values that are there at the end. -/
theorem get?_store_iff_yields (hd : Distinct pending) (n : Name) (v : Value) :
    (runTasks settings live s pending).store.get? n = some v ↔
      s.get? n = some v ∨
        ∃ t ∈ pending, t.Wanted live s ∧ t.target = n ∧
          t.definition.Yields (runTasks settings live s pending).store v := by
  rw [get?_store_runTasks settings live hd]
  refine or_congr Iff.rfl ?_
  constructor
  · rintro ⟨a, ha, htarget, hv⟩
    obtain ⟨t, ht, hw, left, right, hres, rfl⟩ := (mem_attempts_runTasks settings live hd a).1 ha
    have hok := (Ready.value?_attempt _ v).1 hv
    exact ⟨t, ht, hw, htarget, (hres.yields_iff v).2 hok⟩
  · rintro ⟨t, ht, hw, htarget, left, right, hl, hr, hok⟩
    have hmem :=
      (mem_attempts_runTasks settings live hd _).2 ⟨t, ht, hw, left, right, ⟨hl, hr⟩, rfl⟩
    have hv := ((t.withOperands left right).value?_attempt v).2 hok
    exact ⟨_, hmem, htarget, hv⟩

theorem get?_store_target_iff (hd : Distinct pending) {t : Task} (ht : t ∈ pending)
    (hw : t.Wanted live s) (v : Value) :
    (runTasks settings live s pending).store.get? t.target = some v ↔
      t.definition.Yields (runTasks settings live s pending).store v := by
  rw [get?_store_iff_yields settings live hd]
  constructor
  · rintro (hs | ⟨u, hu, -, htarget, hyields⟩)
    · simp [hw.2] at hs
    · obtain rfl := hd.eq_of_target_eq hu ht htarget
      exact hyields
  · intro hyields
    exact .inr ⟨t, ht, hw, rfl, hyields⟩

theorem derives_of_resolve (hd : Distinct pending) {o : Operand} {v : Value}
    (h : (runTasks settings live s pending).store.resolve o = some v) :
    Derives live s pending o v := by
  induction s, pending, hd using runTasks_induct live with
  | idle s pending hd hr =>
    rw [runTasks_of_idle hr] at h
    exact .of_resolve h
  | barren s pending hd hr hnone =>
    rw [runTasks_of_barren hd hr hnone] at h
    exact .of_resolve h
  | fruitful s pending hd hr ih =>
    rw [runTasks_of_fruitful hd hr] at h
    exact .of_afterWave hd (ih h)

theorem resolve_of_derives (hd : Distinct pending) {o : Operand} {v : Value}
    (h : Derives live s pending o v) :
    (runTasks settings live s pending).store.resolve o = some v := by
  induction h with
  | literal v => rfl
  | stored hs => exact le_store_runTasks settings live hd _ _ hs
  | computed ht hw _ _ hok ihl ihr =>
    exact (get?_store_target_iff settings live hd ht hw _).2 ⟨_, _, ihl, ihr, hok⟩

theorem resolve_store_iff_derives (hd : Distinct pending) (o : Operand) (v : Value) :
    (runTasks settings live s pending).store.resolve o = some v ↔ Derives live s pending o v :=
  ⟨derives_of_resolve settings live hd, resolve_of_derives settings live hd⟩

end

theorem map_definition_tasksFrom (i : Nat) (ops : List Operation) :
    (tasksFrom i ops).map Task.definition = ops.filterMap Operation.definition? := by
  induction ops generalizing i with
  | nil => rfl
  | cons o rest ih =>
    cases o with
    | define c => exact congrArg (c :: ·) (ih (i + 1))
    | print n => exact ih (i + 1)

namespace Program

theorem define_mem_iff (p : Program) (c : Calc) :
    .define c ∈ p.operations ↔ ∃ t ∈ p.tasks, t.definition = c := by
  rw [← List.mem_map, tasks, map_definition_tasksFrom]
  simp

theorem define_mem_of_mem_tasks {p : Program} {t : Task} (h : t ∈ p.tasks) :
    .define t.definition ∈ p.operations :=
  (p.define_mem_iff _).2 ⟨t, h, rfl⟩

theorem define_unique (p : Program) {c d : Calc} (hc : .define c ∈ p.operations)
    (hd : .define d ∈ p.operations) (h : c.target = d.target) : c = d := by
  obtain ⟨t, ht, rfl⟩ := (p.define_mem_iff c).1 hc
  obtain ⟨u, hu, rfl⟩ := (p.define_mem_iff d).1 hd
  rw [p.distinct_tasks.eq_of_target_eq ht hu h]

/-- A store that holds `s` and whatever the live definitions give to it, those of targets with a
value in `s` left out. -/
structure Saturated (p : Program) (live : NameSet) (s u : Store) : Prop where
  le : s ≤ u
  closed : ∀ c : Calc, .define c ∈ p.operations → c.target ∈ live → s.get? c.target = none →
    ∀ v, c.Yields u v → u.get? c.target = some v

variable {p : Program} {live : NameSet} {s u : Store}

theorem Saturated.resolve_of_derives (h : p.Saturated live s u) {o : Operand} {v : Value}
    (hv : Derives live s p.tasks o v) : u.resolve o = some v := by
  induction hv with
  | literal v => rfl
  | stored hs => exact h.le _ _ hs
  | computed ht hw _ _ hok ihl ihr =>
    exact h.closed _ (define_mem_of_mem_tasks ht) hw.1 hw.2 _ ⟨_, _, ihl, ihr, hok⟩

theorem saturated_run (p : Program) (settings : Settings) (live : NameSet) (s : Store) :
    p.Saturated live s (p.run settings live s).store where
  le := le_store_runTasks settings live p.distinct_tasks
  closed c hc hlive hfresh v hyields := by
    obtain ⟨t, ht, rfl⟩ := (p.define_mem_iff c).1 hc
    exact (get?_store_target_iff settings live p.distinct_tasks ht ⟨hlive, hfresh⟩ v).2 hyields

theorem get?_run_iff (p : Program) (settings : Settings) (live : NameSet) (s : Store) (n : Name)
    (v : Value) :
    (p.run settings live s).store.get? n = some v ↔
      s.get? n = some v ∨
        s.get? n = none ∧ n ∈ live ∧ ∃ c : Calc, .define c ∈ p.operations ∧ c.target = n ∧
          c.Yields (p.run settings live s).store v := by
  constructor
  · intro h
    rcases (get?_store_iff_yields settings live p.distinct_tasks n v).1 h with
      hs | ⟨t, ht, hw, rfl, hyields⟩
    · exact .inl hs
    · exact .inr ⟨hw.2, hw.1, t.definition, define_mem_of_mem_tasks ht, rfl, hyields⟩
  · rintro (hs | ⟨hfresh, hlive, c, hc, rfl, hyields⟩)
    · exact (p.saturated_run settings live s).le n v hs
    · exact (p.saturated_run settings live s).closed c hc hlive hfresh v hyields

/-- A run ends in the least store that holds the first one and is closed under the live
definitions. What it adds are results of live definitions on operands that have values at its
end. -/
theorem isLeast_store_run (p : Program) (settings : Settings) (live : NameSet) (s : Store) :
    IsLeast {u | p.Saturated live s u} (p.run settings live s).store ∧
      ∀ n, (p.run settings live s).store.get? n ≠ s.get? n →
        s.get? n = none ∧ n ∈ live ∧ ∃ c : Calc, .define c ∈ p.operations ∧ c.target = n ∧
          ∃ v, (p.run settings live s).store.get? n = some v ∧
            c.Yields (p.run settings live s).store v := by
  refine ⟨⟨p.saturated_run settings live s, fun u hu n v hv => ?_⟩, fun n hn => ?_⟩
  · exact hu.resolve_of_derives (derives_of_resolve settings live p.distinct_tasks
      (o := .reference n) hv)
  · cases hg : (p.run settings live s).store.get? n with
    | none =>
      have hs := Store.get?_eq_none_of_le (p.saturated_run settings live s).le hg
      exact absurd (hg.trans hs.symm) hn
    | some v =>
      rcases (p.get?_run_iff settings live s n v).1 hg with
        hs | ⟨hfresh, hlive, c, hc, htarget, hyields⟩
      · exact absurd (hg.trans hs.symm) hn
      · exact ⟨hfresh, hlive, c, hc, htarget, v, rfl, hyields⟩

end Program

end Wavefront
