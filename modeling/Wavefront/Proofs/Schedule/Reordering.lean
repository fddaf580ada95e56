import Mathlib.Data.List.Perm.Basic
import Wavefront.Proofs.Schedule.Accounting

set_option autoImplicit false

/-!
# Runs of the same definitions

Two runs whose pending tasks have the same definitions stay together wave by wave: the same
definitions are ready, the same values are stored, and the same definitions are left waiting. So
the order and the numbers of the tasks change neither the waves nor the last store, and the
reports tell of the same failures.
-/
namespace Wavefront

def SameDefinitions (tasks tasks' : List Task) : Prop :=
  ∀ c, (∃ t ∈ tasks, t.definition = c) ↔ ∃ t ∈ tasks', t.definition = c

theorem exists_mem_readyTasks_iff (live : NameSet) (s : Store) (pending : List Task) (n : Name)
    (v : Value) :
    (∃ r ∈ readyTasks live s pending,
        r.target = n ∧ r.operator.apply r.left r.right = .ok v) ↔
      ∃ t ∈ pending, t.Wanted live s ∧ t.target = n ∧ t.definition.Yields s v := by
  constructor
  · rintro ⟨r, hr, htarget, hok⟩
    obtain ⟨t, ht, hw, a, b, hres, rfl⟩ := mem_readyTasks.1 hr
    exact ⟨t, ht, hw, htarget, (hres.yields_iff v).2 hok⟩
  · rintro ⟨t, ht, hw, htarget, a, b, hl, hr, hok⟩
    exact ⟨t.withOperands a b, mem_readyTasks.2 ⟨t, ht, hw, a, b, ⟨hl, hr⟩, rfl⟩, htarget, hok⟩

namespace SameDefinitions

variable {live : NameSet} {s : Store} {tasks tasks' : List Task}

theorem exists_iff (h : SameDefinitions tasks tasks') (P : Calc → Prop) :
    (∃ t ∈ tasks, P t.definition) ↔ ∃ t ∈ tasks', P t.definition := by
  constructor
  · rintro ⟨t, ht, hP⟩
    obtain ⟨u, hu, heq⟩ := (h t.definition).1 ⟨t, ht, rfl⟩
    exact ⟨u, hu, heq ▸ hP⟩
  · rintro ⟨u, hu, hP⟩
    obtain ⟨t, ht, heq⟩ := (h u.definition).2 ⟨u, hu, rfl⟩
    exact ⟨t, ht, heq ▸ hP⟩

theorem readyTasks_eq_nil_iff (h : SameDefinitions tasks tasks') :
    readyTasks live s tasks = [] ↔ readyTasks live s tasks' = [] := by
  have hready (pending : List Task) : readyTasks live s pending = [] ↔
      ¬ ∃ t ∈ pending, t.Wanted live s ∧ ∃ a b, t.Resolves s a b := by
    rw [List.eq_nil_iff_forall_not_mem]
    constructor
    · rintro hnone ⟨t, ht, hw, a, b, hres⟩
      exact hnone _ (mem_readyTasks.2 ⟨t, ht, hw, a, b, hres, rfl⟩)
    · intro hno r hr
      obtain ⟨t, ht, hw, a, b, hres, -⟩ := mem_readyTasks.1 hr
      exact hno ⟨t, ht, hw, a, b, hres⟩
  rw [hready, hready]
  exact not_congr (h.exists_iff fun c =>
    (⟨0, c⟩ : Task).Wanted live s ∧ ∃ a b, (⟨0, c⟩ : Task).Resolves s a b)

theorem blockedTasks (h : SameDefinitions tasks tasks') :
    SameDefinitions (blockedTasks live s tasks) (blockedTasks live s tasks') := by
  have hblocked (pending : List Task) (c : Calc) :
      (∃ t ∈ Wavefront.blockedTasks live s pending, t.definition = c) ↔
        ∃ t ∈ pending, (t.Wanted live s ∧ ∀ a b, ¬ t.Resolves s a b) ∧ t.definition = c := by
    simp only [mem_blockedTasks, and_assoc]
  intro c
  rw [hblocked, hblocked]
  exact h.exists_iff fun d =>
    ((⟨0, d⟩ : Task).Wanted live s ∧ ∀ a b, ¬ (⟨0, d⟩ : Task).Resolves s a b) ∧ d = c

theorem exists_ready_iff (h : SameDefinitions tasks tasks') (n : Name) (v : Value) :
    (∃ r ∈ readyTasks live s tasks, r.target = n ∧ r.operator.apply r.left r.right = .ok v) ↔
      ∃ r ∈ readyTasks live s tasks', r.target = n ∧ r.operator.apply r.left r.right = .ok v := by
  rw [exists_mem_readyTasks_iff, exists_mem_readyTasks_iff]
  exact h.exists_iff fun c =>
    (⟨0, c⟩ : Task).Wanted live s ∧ c.target = n ∧ c.Yields s v

theorem exists_value_iff (h : SameDefinitions tasks tasks') :
    (∃ r ∈ readyTasks live s tasks, r.attempt.value?.isSome) ↔
      ∃ r ∈ readyTasks live s tasks', r.attempt.value?.isSome := by
  have hvalue (pending : List Task) : (∃ r ∈ readyTasks live s pending, r.attempt.value?.isSome) ↔
      ∃ n v, ∃ r ∈ readyTasks live s pending,
        r.target = n ∧ r.operator.apply r.left r.right = .ok v := by
    simp only [Option.isSome_iff_exists, Ready.value?_attempt]
    constructor
    · rintro ⟨r, hr, v, hok⟩
      exact ⟨r.target, v, r, hr, rfl, hok⟩
    · rintro ⟨n, v, r, hr, -, hok⟩
      exact ⟨r, hr, v, hok⟩
  rw [hvalue, hvalue]
  exact exists_congr fun n => exists_congr fun v => h.exists_ready_iff n v

theorem afterWave_eq (h : SameDefinitions tasks tasks') (hd : Distinct tasks)
    (hd' : Distinct tasks') :
    s.afterWave (readyTasks live s tasks) = s.afterWave (readyTasks live s tasks') := by
  refine Store.ext fun n => Option.ext fun v => ?_
  rw [(hd.independent live s).get?_afterWave_iff, (hd'.independent live s).get?_afterWave_iff]
  exact or_congr Iff.rfl (h.exists_ready_iff n v)

/-- The two runs have as many waves and end in the same store. -/
theorem runTasks_agree (settings settings' : Settings) (live : NameSet) {s : Store}
    {tasks tasks' : List Task} (h : SameDefinitions tasks tasks') (hd : Distinct tasks)
    (hd' : Distinct tasks') :
    (runTasks settings live s tasks).waves.length =
        (runTasks settings' live s tasks').waves.length ∧
      (runTasks settings live s tasks).store = (runTasks settings' live s tasks').store := by
  induction s, tasks, hd using runTasks_induct live generalizing tasks' with
  | idle s tasks hd hr =>
    rw [runTasks_of_idle hr, runTasks_of_idle (h.readyTasks_eq_nil_iff.1 hr)]
    exact ⟨rfl, rfl⟩
  | barren s tasks hd hr hnone =>
    have hr' := mt h.readyTasks_eq_nil_iff.2 hr
    have hnone' : ∀ r ∈ readyTasks live s tasks', r.attempt.value? = none := by
      intro r hmem
      by_contra hsome
      obtain ⟨q, hq, hv⟩ := h.exists_value_iff.2 ⟨r, hmem, Option.isSome_iff_ne_none.2 hsome⟩
      simp [hnone q hq] at hv
    rw [runTasks_of_barren hd hr hnone, runTasks_of_barren hd' hr' hnone']
    exact ⟨rfl, rfl⟩
  | fruitful s tasks hd hr ih =>
    have hlater := ih h.blockedTasks (hd'.blockedTasks live s)
    rw [h.afterWave_eq hd hd'] at hlater
    rw [runTasks_of_fruitful hd hr, runTasks_of_fruitful hd' (h.exists_value_iff.1 hr),
      h.afterWave_eq hd hd']
    exact ⟨congrArg (· + 1) hlater.1, hlater.2⟩

theorem report_agrees (settings settings' : Settings) (live : NameSet) {s : Store}
    {tasks tasks' : List Task} (h : SameDefinitions tasks tasks') (hd : Distinct tasks)
    (hd' : Distinct tasks') :
    (runTasks settings live s tasks).report.waves =
        (runTasks settings' live s tasks').report.waves ∧
      (runTasks settings live s tasks).report.computed =
        (runTasks settings' live s tasks').report.computed := by
  obtain ⟨hwaves, hstore⟩ := h.runTasks_agree settings settings' live (s := s) hd hd'
  have hsize := size_store_runTasks settings live (s := s) hd
  have hsize' := size_store_runTasks settings' live (s := s) hd'
  rw [← hstore] at hsize'
  exact ⟨hwaves, by omega⟩

end SameDefinitions

/-! ## Failures -/

def Discarded.failure (d : Discarded) : Name × DiscardReason := (d.target, d.reason)

section
variable (settings : Settings) (live : NameSet) {s : Store} {tasks : List Task}

theorem mem_failures_iff (hd : Distinct tasks) (f : Name × DiscardReason) :
    f ∈ (runTasks settings live s tasks).report.discarded.map Discarded.failure ↔
      ∃ t ∈ tasks, t.Wanted live s ∧ ∃ a b,
        t.Resolves (runTasks settings live s tasks).store a b ∧
          ∃ e, t.definition.operator.apply a b = .error e ∧
            f = (t.target, e.reason t.definition.operator) := by
  rw [List.mem_map]
  constructor
  · rintro ⟨d, hmem, rfl⟩
    obtain ⟨t, ht, hw, a, b, hres, e, herror, rfl⟩ :=
      (mem_report_discarded_iff settings live hd d).1 hmem
    exact ⟨t, ht, hw, a, b, hres, e, herror, rfl⟩
  · rintro ⟨t, ht, hw, a, b, hres, e, herror, rfl⟩
    exact ⟨_, (mem_report_discarded_iff settings live hd _).2
      ⟨t, ht, hw, a, b, hres, e, herror, rfl⟩, rfl⟩

/-- A target is discarded once at most, so a failure is not reported twice. -/
theorem nodup_failures (hd : Distinct tasks) (hn : Numbered tasks) :
    ((runTasks settings live s tasks).report.discarded.map Discarded.failure).Nodup := by
  have hnodup := (nodup_index_discarded settings live (s := s) hd hn.nodup).of_map
  refine List.Nodup.map_on ?_ hnodup
  intro d hmem d' hmem' heq
  obtain ⟨t, ht, -, a, b, hres, e, herror, rfl⟩ :=
    (mem_report_discarded_iff settings live hd d).1 hmem
  obtain ⟨t', ht', -, a', b', hres', e', herror', rfl⟩ :=
    (mem_report_discarded_iff settings live hd d').1 hmem'
  obtain rfl := hd.eq_of_target_eq ht ht' (congrArg Prod.fst heq)
  obtain ⟨rfl, rfl⟩ := hres.unique hres'
  obtain rfl := Except.error.inj (herror.symm.trans herror')
  rfl

end

theorem SameDefinitions.perm_failures (settings settings' : Settings) (live : NameSet) {s : Store}
    {tasks tasks' : List Task} (h : SameDefinitions tasks tasks') (hd : Distinct tasks)
    (hd' : Distinct tasks') (hn : Numbered tasks) (hn' : Numbered tasks') :
    ((runTasks settings live s tasks).report.discarded.map Discarded.failure).Perm
      ((runTasks settings' live s tasks').report.discarded.map Discarded.failure) := by
  have hstore := (h.runTasks_agree settings settings' live (s := s) hd hd').2
  refine (List.perm_ext_iff_of_nodup (nodup_failures settings live hd hn)
    (nodup_failures settings' live hd' hn')).2 fun f => ?_
  rw [mem_failures_iff settings live hd, mem_failures_iff settings' live hd', ← hstore]
  exact h.exists_iff fun c => (⟨0, c⟩ : Task).Wanted live s ∧ ∃ a b,
    (⟨0, c⟩ : Task).Resolves (runTasks settings live s tasks).store a b ∧
      ∃ e, c.operator.apply a b = .error e ∧ f = (c.target, e.reason c.operator)

end Wavefront
