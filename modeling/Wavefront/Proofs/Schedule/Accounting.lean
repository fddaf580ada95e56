import Wavefront.Proofs.Program.Numbering
import Wavefront.Proofs.Schedule.Report

set_option autoImplicit false

/-!
# Accounting for a run

A run has to account for the tasks that are wanted when it starts. Each wave splits the wanted
tasks into those that it attempts and those that stay wanted and wait, so the attempts of a run
and its unresolved tasks are together the wanted ones, each once. The report therefore shows
exactly one fate for each of them, and nothing else.
-/
namespace Wavefront

instance (live : NameSet) (s : Store) (t : Task) : Decidable (t.Wanted live s) :=
  inferInstanceAs (Decidable (_ ∧ _))

def wantedTasks (live : NameSet) (s : Store) (pending : List Task) : List Task :=
  pending.filter fun t => t.Wanted live s

theorem mem_wantedTasks {live : NameSet} {s : Store} {pending : List Task} {t : Task} :
    t ∈ wantedTasks live s pending ↔ t ∈ pending ∧ t.Wanted live s := by
  simp [wantedTasks]

/-- A wave attempts some of the wanted tasks and keeps the others waiting. -/
theorem perm_wave (live : NameSet) (s : Store) (pending : List Task) :
    ((readyTasks live s pending).map Ready.index ++
      (blockedTasks live s pending).map Task.index).Perm
        ((wantedTasks live s pending).map Task.index) := by
  induction pending with
  | nil => exact List.Perm.refl _
  | cons t rest ih =>
    unfold readyTasks blockedTasks wantedTasks at ih ⊢
    cases hst : t.standing live s with
    | done =>
      have hw : ¬ t.Wanted live s := by
        intro hw
        rw [Task.standing_of_wanted hw] at hst
        split at hst <;> cases hst
      simpa [hst, hw, Standing.ready?] using ih
    | ready r =>
      obtain ⟨hw, a, b, -, rfl⟩ := (Task.standing_eq_ready_iff r).1 hst
      simpa [hst, hw, Standing.ready?, Task.withOperands] using ih.cons t.index
    | blocked =>
      have hw := (Task.standing_eq_blocked_iff.1 hst).1
      simpa [hst, hw, Standing.ready?] using List.perm_middle.trans (ih.cons t.index)

theorem map_index_attempts (ready : List Ready) :
    ((ready.map Ready.attempt).map fun a => a.ready.index) = ready.map Ready.index := by
  rw [List.map_map]
  rfl

theorem wantedTasks_blockedTasks {live : NameSet} {s : Store} {pending : List Task}
    (hd : Distinct pending) :
    wantedTasks live (s.afterWave (readyTasks live s pending)) (blockedTasks live s pending) =
      blockedTasks live s pending := by
  unfold wantedTasks
  rw [List.filter_eq_self]
  intro t ht
  exact decide_eq_true (wanted_afterWave hd ht)

section
variable (settings : Settings) (live : NameSet) {s : Store} {pending : List Task}

/-- The attempts of a run and the tasks it leaves unresolved are the tasks that were wanted at its
start. -/
theorem perm_runTasks (hd : Distinct pending) :
    (((runTasks settings live s pending).attempts.map fun a => a.ready.index) ++
      (runTasks settings live s pending).unresolved).Perm
        ((wantedTasks live s pending).map Task.index) := by
  induction s, pending, hd using runTasks_induct live with
  | idle s pending hd hr =>
    have hwave := perm_wave live s pending
    rw [hr] at hwave
    rw [runTasks_of_idle hr]
    exact hwave
  | barren s pending hd hr hnone =>
    rw [runTasks_of_barren hd hr hnone, attempts_singleton, firstWave, map_index_attempts]
    exact perm_wave live s pending
  | fruitful s pending hd hr ih =>
    rw [wantedTasks_blockedTasks hd] at ih
    rw [runTasks_of_fruitful hd hr, attempts_cons, firstWave, List.map_append,
      map_index_attempts, List.append_assoc]
    exact (ih.append_left _).trans (perm_wave live s pending)

end

def ApplyError.reason (op : Operator) : ApplyError → DiscardReason
  | unsupported => .unsupportedOperator op.symbol
  | overflow => .overflow

namespace Ready

theorem discarded?_attempt_eq_some_iff (r : Ready) (d : Discarded) :
    r.attempt.discarded? = some d ↔
      ∃ e, r.operator.apply r.left r.right = .error e ∧
        d = ⟨r.index, r.target, e.reason r.operator⟩ := by
  unfold attempt Attempt.discarded? Attempt.reason? verdict
  cases r.operator.apply r.left r.right with
  | ok v => simp
  | error e => cases e <;> simp [ApplyError.reason, eq_comm]

/-- Of every attempt there is a value or a discarded definition, never both. -/
theorem length_attempts (ready : List Ready) :
    ((ready.map attempt).filterMap Attempt.value?).length +
      ((ready.map attempt).filterMap Attempt.discarded?).length = ready.length := by
  induction ready with
  | nil => rfl
  | cons r rest ih =>
    have hboth := r.discarded?_attempt_eq_none_iff
    rw [List.map_cons, List.length_cons]
    cases hv : r.attempt.value? with
    | some v =>
      have hd : r.attempt.discarded? = none := hboth.2 ⟨v, hv⟩
      rw [List.filterMap_cons_some hv, List.filterMap_cons_none hd, List.length_cons]
      omega
    | none =>
      have hne : r.attempt.discarded? ≠ none := by
        intro hnone
        obtain ⟨v, hsome⟩ := hboth.1 hnone
        rw [hv] at hsome
        cases hsome
      obtain ⟨d, hd⟩ := Option.ne_none_iff_exists'.1 hne
      rw [List.filterMap_cons_none hv, List.filterMap_cons_some hd, List.length_cons]
      omega

end Ready

section
variable (settings : Settings) (live : NameSet) {s : Store} {pending : List Task}

theorem mem_report_discarded_iff (hd : Distinct pending) (d : Discarded) :
    d ∈ (runTasks settings live s pending).report.discarded ↔
      ∃ t ∈ pending, t.Wanted live s ∧ ∃ a b,
        t.Resolves (runTasks settings live s pending).store a b ∧
          ∃ e, t.definition.operator.apply a b = .error e ∧
            d = ⟨t.index, t.target, e.reason t.definition.operator⟩ := by
  change d ∈ List.filterMap _ _ ↔ _
  rw [List.mem_filterMap]
  constructor
  · rintro ⟨att, hatt, hsome⟩
    obtain ⟨t, ht, hw, a, b, hres, rfl⟩ := (mem_attempts_runTasks settings live hd att).1 hatt
    exact ⟨t, ht, hw, a, b, hres, (Ready.discarded?_attempt_eq_some_iff _ d).1 hsome⟩
  · rintro ⟨t, ht, hw, a, b, hres, herror⟩
    refine ⟨(t.withOperands a b).attempt, ?_, (Ready.discarded?_attempt_eq_some_iff _ d).2 herror⟩
    exact (mem_attempts_runTasks settings live hd _).2 ⟨t, ht, hw, a, b, hres, rfl⟩

theorem mem_report_unresolved_iff (hd : Distinct pending) (i : Nat) :
    i ∈ (runTasks settings live s pending).report.unresolved ↔
      ∃ t ∈ pending, t.Wanted live (runTasks settings live s pending).store ∧
        (∀ a b, ¬ t.Resolves (runTasks settings live s pending).store a b) ∧ t.index = i := by
  change i ∈ (runTasks settings live s pending).unresolved ↔ _
  rw [unresolved_runTasks settings live hd, List.mem_map]
  simp only [mem_blockedTasks, and_assoc]

theorem sublist_index_discarded (r : Run) :
    (r.report.discarded.map Discarded.index).Sublist (r.attempts.map fun a => a.ready.index) := by
  refine map_filterMap_sublist (fun a d hd => ?_) r.attempts
  obtain ⟨reason, -, rfl⟩ := Option.map_eq_some_iff.1 hd
  rfl

theorem nodup_index_discarded (hd : Distinct pending) (hindex : (pending.map Task.index).Nodup) :
    ((runTasks settings live s pending).report.discarded.map Discarded.index).Nodup := by
  have hwanted : ((wantedTasks live s pending).map Task.index).Nodup :=
    hindex.sublist (List.filter_sublist.map Task.index)
  have hall := (perm_runTasks settings live (s := s) hd).nodup_iff.2 hwanted
  exact (List.nodup_append.1 hall).1.sublist (sublist_index_discarded _)

theorem length_report (hd : Distinct pending) :
    (runTasks settings live s pending).report.computed +
      (runTasks settings live s pending).report.discarded.length +
        (runTasks settings live s pending).report.unresolved.length =
          (wantedTasks live s pending).length := by
  have hattempts : ((runTasks settings live s pending).attempts.map Attempt.ready).map
      Ready.attempt = (runTasks settings live s pending).attempts := by
    refine Ready.map_attempt_ready fun a ha => ?_
    obtain ⟨t, -, -, left, right, -, rfl⟩ := (mem_attempts_runTasks settings live hd a).1 ha
    rfl
  have hsplit := Ready.length_attempts
    ((runTasks settings live s pending).attempts.map Attempt.ready)
  have hlength := (perm_runTasks settings live (s := s) hd).length_eq
  rw [hattempts, List.length_map] at hsplit
  rw [List.length_append, List.length_map, List.length_map] at hlength
  change (List.filterMap _ (runTasks settings live s pending).attempts).length +
    (List.filterMap _ (runTasks settings live s pending).attempts).length +
      (runTasks settings live s pending).unresolved.length = _
  omega

end

theorem count_eq_one_iff_mem {indices : List Nat} (h : indices.Nodup) (i : Nat) :
    indices.count i = 1 ↔ i ∈ indices := by
  refine ⟨fun hcount => ?_, List.count_eq_one_of_mem h⟩
  rw [← List.count_pos_iff]
  omega

/-- What can become of a wanted task. -/
inductive Fate
  | computed
  | discarded
  | unresolved

/-- Where a finished run shows that fate: in its store, or in one of the lists of its report. -/
def Run.Shows (r : Run) (t : Task) : Fate → Prop
  | .computed => r.store.contains t.target
  | .discarded => (r.report.discarded.map Discarded.index).count t.index = 1
  | .unresolved => r.report.unresolved.count t.index = 1

/-- A finished run accounts for tasks: each has one fate, with what goes with it, and nothing else
is reported. -/
structure Run.Accounts (r : Run) (tasks : List Task) : Prop where
  fate : ∀ t ∈ tasks, ∃! f, r.Shows t f
  computed : ∀ t ∈ tasks, r.store.contains t.target →
    ∃ v, r.store.get? t.target = some v ∧ t.definition.Yields r.store v
  discarded : ∀ d ∈ r.report.discarded, ∃ t ∈ tasks, ∃ a b,
    t.Resolves r.store a b ∧ ∃ e, t.definition.operator.apply a b = .error e ∧
      d = ⟨t.index, t.target, e.reason t.definition.operator⟩
  unresolved : ∀ i ∈ r.report.unresolved, ∃ t ∈ tasks, t.index = i ∧
    ∃ n ∈ t.definition.references, r.store.get? n = none
  nodup_discarded : (r.report.discarded.map Discarded.index).Nodup
  sorted_unresolved : r.report.unresolved.Pairwise (· < ·)
  total : r.report.computed + r.report.discarded.length + r.report.unresolved.length =
    tasks.length

section
variable (settings : Settings) (live : NameSet) {s : Store} {pending : List Task} {t : Task}

theorem sorted_unresolved (hd : Distinct pending) (hn : Numbered pending) :
    (runTasks settings live s pending).report.unresolved.Pairwise (· < ·) := by
  change (runTasks settings live s pending).unresolved.Pairwise (· < ·)
  rw [unresolved_runTasks settings live hd]
  exact hn.sublist (List.filter_sublist.map Task.index)

theorem shows_computed_iff (hd : Distinct pending) (ht : t ∈ pending) (hw : t.Wanted live s) :
    (runTasks settings live s pending).Shows t .computed ↔
      ∃ a b, t.Resolves (runTasks settings live s pending).store a b ∧
        ∃ v, t.definition.operator.apply a b = .ok v := by
  change (runTasks settings live s pending).store.contains t.target ↔ _
  rw [Store.contains_iff]
  constructor
  · rintro ⟨v, hv⟩
    obtain ⟨a, b, hl, hr, hok⟩ := (get?_store_target_iff settings live hd ht hw v).1 hv
    exact ⟨a, b, ⟨hl, hr⟩, v, hok⟩
  · rintro ⟨a, b, hres, v, hok⟩
    exact ⟨v, (get?_store_target_iff settings live hd ht hw v).2 ((hres.yields_iff v).2 hok)⟩

theorem shows_discarded_iff (hd : Distinct pending) (hn : Numbered pending) (ht : t ∈ pending)
    (hw : t.Wanted live s) :
    (runTasks settings live s pending).Shows t .discarded ↔
      ∃ a b, t.Resolves (runTasks settings live s pending).store a b ∧
        ∃ e, t.definition.operator.apply a b = .error e := by
  have hnodup := nodup_index_discarded settings live (s := s) hd hn.nodup
  refine (count_eq_one_iff_mem hnodup t.index).trans ?_
  rw [List.mem_map]
  constructor
  · rintro ⟨d, hmem, hindex⟩
    obtain ⟨u, hu, -, a, b, hres, e, herror, rfl⟩ :=
      (mem_report_discarded_iff settings live hd d).1 hmem
    obtain rfl := hn.eq_of_index_eq hu ht hindex
    exact ⟨a, b, hres, e, herror⟩
  · rintro ⟨a, b, hres, e, herror⟩
    exact ⟨_, (mem_report_discarded_iff settings live hd _).2
      ⟨t, ht, hw, a, b, hres, e, herror, rfl⟩, rfl⟩

theorem shows_unresolved_iff (hd : Distinct pending) (hn : Numbered pending) (ht : t ∈ pending)
    (hw : t.Wanted live s) :
    (runTasks settings live s pending).Shows t .unresolved ↔
      ∀ a b, ¬ t.Resolves (runTasks settings live s pending).store a b := by
  have hnodup := (sorted_unresolved settings live (s := s) hd hn).imp Nat.ne_of_lt
  refine (count_eq_one_iff_mem hnodup t.index).trans ?_
  rw [mem_report_unresolved_iff settings live hd]
  constructor
  · rintro ⟨u, hu, -, hblocked, hindex⟩
    obtain rfl := hn.eq_of_index_eq hu ht hindex
    exact hblocked
  · intro hblocked
    refine ⟨t, ht, ⟨hw.1, ?_⟩, hblocked, rfl⟩
    cases hg : (runTasks settings live s pending).store.get? t.target with
    | none => rfl
    | some v =>
      obtain ⟨a, b, hl, hr, -⟩ := (get?_store_target_iff settings live hd ht hw v).1 hg
      exact absurd ⟨hl, hr⟩ (hblocked a b)

/-- The operands decide the fate: they lack a value, or the operator fails on them, or it has a
result. -/
theorem existsUnique_shows (hd : Distinct pending) (hn : Numbered pending) (ht : t ∈ pending)
    (hw : t.Wanted live s) : ∃! f, (runTasks settings live s pending).Shows t f := by
  have hcomputed := shows_computed_iff settings live hd ht hw
  have hdiscarded := shows_discarded_iff settings live hd hn ht hw
  have hunresolved := shows_unresolved_iff settings live hd hn ht hw
  by_cases hres : ∃ a b, t.Resolves (runTasks settings live s pending).store a b
  · obtain ⟨a, b, hab⟩ := hres
    have hnot : ¬ (runTasks settings live s pending).Shows t .unresolved :=
      fun h => hunresolved.1 h a b hab
    cases hok : t.definition.operator.apply a b with
    | ok v =>
      refine ⟨.computed, hcomputed.2 ⟨a, b, hab, v, hok⟩, ?_⟩
      intro f hf
      cases f with
      | computed => rfl
      | discarded =>
        obtain ⟨a', b', hab', e, herror⟩ := hdiscarded.1 hf
        obtain ⟨rfl, rfl⟩ := hab.unique hab'
        rw [hok] at herror
        cases herror
      | unresolved => exact absurd hf hnot
    | error e =>
      refine ⟨.discarded, hdiscarded.2 ⟨a, b, hab, e, hok⟩, ?_⟩
      intro f hf
      cases f with
      | computed =>
        obtain ⟨a', b', hab', v, hok'⟩ := hcomputed.1 hf
        obtain ⟨rfl, rfl⟩ := hab.unique hab'
        rw [hok] at hok'
        cases hok'
      | discarded => rfl
      | unresolved => exact absurd hf hnot
  · simp only [not_exists] at hres
    refine ⟨.unresolved, hunresolved.2 hres, ?_⟩
    intro f hf
    cases f with
    | computed =>
      obtain ⟨a, b, hab, -⟩ := hcomputed.1 hf
      exact absurd hab (hres a b)
    | discarded =>
      obtain ⟨a, b, hab, -⟩ := hdiscarded.1 hf
      exact absurd hab (hres a b)
    | unresolved => rfl

end

theorem Task.exists_reference_without_value {s : Store} {t : Task}
    (h : ∀ a b, ¬ t.Resolves s a b) : ∃ n ∈ t.definition.references, s.get? n = none := by
  by_contra hno
  have hvalue (n : Name) (hn : n ∈ t.definition.references) : s.contains n := by
    rw [Store.contains_iff]
    exact Option.ne_none_iff_exists'.1 fun hnone => hno ⟨n, hn, hnone⟩
  obtain ⟨a, ha⟩ := Store.exists_resolve fun n hn =>
    hvalue n ((t.definition.mem_references_iff n).2 (.inl hn))
  obtain ⟨b, hb⟩ := Store.exists_resolve fun n hn =>
    hvalue n ((t.definition.mem_references_iff n).2 (.inr hn))
  exact h a b ⟨ha, hb⟩

namespace Program

def wanted (p : Program) (live : NameSet) (s : Store) : List Task := wantedTasks live s p.tasks

theorem mem_wanted_iff (p : Program) (live : NameSet) (s : Store) (t : Task) :
    t ∈ p.wanted live s ↔ p.operations[t.index]? = some (.define t.definition) ∧
      t.target ∈ live ∧ s.get? t.target = none := by
  rw [wanted, mem_wantedTasks, mem_tasks_iff]
  rfl

/-- Every definition whose variable is live and has no value at the start is computed, discarded
or unresolved at the end, and the report says which. -/
theorem accounts_run (p : Program) (settings : Settings) (live : NameSet) (s : Store) :
    (p.run settings live s).Accounts (p.wanted live s) := by
  have hd := p.distinct_tasks
  have hn := p.numbered_tasks
  constructor
  case fate =>
    intro t ht
    obtain ⟨ht, hw⟩ := mem_wantedTasks.1 ht
    exact existsUnique_shows settings live hd hn ht hw
  case computed =>
    intro t ht hvalue
    obtain ⟨ht, hw⟩ := mem_wantedTasks.1 ht
    obtain ⟨v, hv⟩ := (Store.contains_iff _ _).1 hvalue
    exact ⟨v, hv, (get?_store_target_iff settings live hd ht hw v).1 hv⟩
  case discarded =>
    intro d hmem
    obtain ⟨t, ht, hw, hfailure⟩ := (mem_report_discarded_iff settings live hd d).1 hmem
    exact ⟨t, mem_wantedTasks.2 ⟨ht, hw⟩, hfailure⟩
  case unresolved =>
    intro i hi
    obtain ⟨t, ht, hw, hblocked, hindex⟩ := (mem_report_unresolved_iff settings live hd i).1 hi
    have hwanted := hw.of_le (le_store_runTasks settings live hd)
    exact ⟨t, mem_wantedTasks.2 ⟨ht, hwanted⟩, hindex, Task.exists_reference_without_value hblocked⟩
  case nodup_discarded => exact nodup_index_discarded settings live hd hn.nodup
  case sorted_unresolved => exact sorted_unresolved settings live hd hn
  case total => exact length_report settings live hd

end Program

end Wavefront
