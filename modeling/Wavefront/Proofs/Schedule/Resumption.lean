import Wavefront.Proofs.Schedule.Accounting

set_option autoImplicit false

/-!
# Runs that start where another has ended

What a run reports as unresolved or discarded can be read off its last store. A run that goes on
from the last store of another, with the same live variables, finds nothing to store: what was
discarded is discarded again, in one wave. If the earlier run had fewer live variables, the later
one completes it, and both together come to what a single run with all of them comes to.
-/
namespace Wavefront

/-! ## Failures of a store -/

def FailsIn (live : NameSet) (u : Store) (pending : List Task) (d : Discarded) : Prop :=
  ∃ t ∈ pending, t.Wanted live u ∧ ∃ a b, t.Resolves u a b ∧
    ∃ e, t.definition.operator.apply a b = .error e ∧
      d = ⟨t.index, t.target, e.reason t.definition.operator⟩

section
variable (settings : Settings) (live : NameSet) {s : Store} {pending : List Task}

theorem wanted_store_of_error (hd : Distinct pending) {t : Task} (ht : t ∈ pending)
    (hw : t.Wanted live s) {a b : Value} {e : ApplyError}
    (hres : t.Resolves (runTasks settings live s pending).store a b)
    (herror : t.definition.operator.apply a b = .error e) :
    t.Wanted live (runTasks settings live s pending).store := by
  refine ⟨hw.1, ?_⟩
  cases hg : (runTasks settings live s pending).store.get? t.target with
  | none => rfl
  | some v =>
    have hyields := (get?_store_target_iff settings live hd ht hw v).1 hg
    have hok := (hres.yields_iff v).1 hyields
    rw [herror] at hok
    cases hok

theorem mem_report_discarded_iff_failsIn (hd : Distinct pending) (d : Discarded) :
    d ∈ (runTasks settings live s pending).report.discarded ↔
      FailsIn live (runTasks settings live s pending).store pending d := by
  rw [mem_report_discarded_iff settings live hd]
  constructor
  · rintro ⟨t, ht, hw, a, b, hres, e, herror, rfl⟩
    have hw' := wanted_store_of_error settings live hd ht hw hres herror
    exact ⟨t, ht, hw', a, b, hres, e, herror, rfl⟩
  · rintro ⟨t, ht, hw, hfails⟩
    exact ⟨t, ht, hw.of_le (le_store_runTasks settings live hd), hfails⟩

theorem perm_discarded_of_store_eq (settings' : Settings) {s' : Store} (hd : Distinct pending)
    (hn : Numbered pending)
    (h : (runTasks settings live s pending).store = (runTasks settings' live s' pending).store) :
    (runTasks settings live s pending).report.discarded.Perm
      (runTasks settings' live s' pending).report.discarded := by
  have hnodup := (nodup_index_discarded settings live (s := s) hd hn.nodup).of_map
  have hnodup' := (nodup_index_discarded settings' live (s := s') hd hn.nodup).of_map
  refine (List.perm_ext_iff_of_nodup hnodup hnodup').2 fun d => ?_
  rw [mem_report_discarded_iff_failsIn settings live hd,
    mem_report_discarded_iff_failsIn settings' live hd, h]

theorem unresolved_eq_of_store_eq (settings' : Settings) {s' : Store} (hd : Distinct pending)
    (h : (runTasks settings live s pending).store = (runTasks settings' live s' pending).store) :
    (runTasks settings live s pending).report.unresolved =
      (runTasks settings' live s' pending).report.unresolved := by
  change (runTasks settings live s pending).unresolved =
    (runTasks settings' live s' pending).unresolved
  rw [unresolved_runTasks settings live hd, unresolved_runTasks settings' live hd, h]

end

/-! ## Runs at rest -/

/-- No wave from `s` stores anything. -/
def AtRest (live : NameSet) (s : Store) (pending : List Task) : Prop :=
  ∀ r ∈ readyTasks live s pending, r.attempt.value? = none

theorem atRest_store_runTasks (settings : Settings) (live : NameSet) {s : Store}
    {pending : List Task} (hd : Distinct pending) :
    AtRest live (runTasks settings live s pending).store pending := by
  intro r hr
  obtain ⟨t, ht, hw, a, b, hres, rfl⟩ := mem_readyTasks.1 hr
  cases hv : (t.withOperands a b).attempt.value? with
  | none => rfl
  | some v =>
    -- a value that could still be stored would have been stored
    have hok := (Ready.value?_attempt _ v).1 hv
    have hwanted := hw.of_le (le_store_runTasks settings live hd)
    have hstored := (get?_store_target_iff settings live hd ht hwanted v).2
      ((hres.yields_iff v).2 hok)
    rw [hw.2] at hstored
    cases hstored

namespace AtRest

variable {live : NameSet} {s : Store} {pending : List Task}

/-- A run at rest has one wave if anything is ready, and none otherwise. -/
theorem runTasks_eq (h : AtRest live s pending) (settings : Settings) (hd : Distinct pending) :
    runTasks settings live s pending =
      ⟨if readyTasks live s pending = [] then [] else [firstWave live s pending],
        (blockedTasks live s pending).map Task.index, s⟩ := by
  by_cases hr : readyTasks live s pending = []
  · rw [runTasks_of_idle hr, if_pos hr]
  · rw [runTasks_of_barren hd hr h, if_neg hr]

theorem store_runTasks (h : AtRest live s pending) (settings : Settings) (hd : Distinct pending) :
    (runTasks settings live s pending).store = s := by
  rw [h.runTasks_eq settings hd]

theorem attempts_runTasks (h : AtRest live s pending) (settings : Settings)
    (hd : Distinct pending) :
    (runTasks settings live s pending).attempts =
      (readyTasks live s pending).map Ready.attempt := by
  rw [h.runTasks_eq settings hd, Run.attempts]
  by_cases hr : readyTasks live s pending = []
  · rw [if_pos hr, hr]
    rfl
  · rw [if_neg hr, List.flatMap_singleton]
    rfl

theorem discarded_eq_nil_iff (h : AtRest live s pending) (settings : Settings)
    (hd : Distinct pending) :
    (runTasks settings live s pending).report.discarded = [] ↔ readyTasks live s pending = [] := by
  change List.filterMap _ _ = [] ↔ _
  rw [h.attempts_runTasks settings hd, List.filterMap_eq_nil_iff, List.forall_mem_map,
    List.eq_nil_iff_forall_not_mem]
  refine forall₂_congr fun r hr => ?_
  rw [Ready.discarded?_attempt_eq_none_iff, h r hr]
  simp

theorem waves_runTasks (h : AtRest live s pending) (settings : Settings) (hd : Distinct pending) :
    (runTasks settings live s pending).report.waves =
      if (runTasks settings live s pending).report.discarded = [] then 0 else 1 := by
  simp only [h.discarded_eq_nil_iff settings hd]
  rw [h.runTasks_eq settings hd, Run.report]
  split <;> rfl

theorem computed_runTasks (h : AtRest live s pending) (settings : Settings)
    (hd : Distinct pending) : (runTasks settings live s pending).report.computed = 0 := by
  have hsize := size_store_runTasks settings live (s := s) hd
  rw [h.store_runTasks settings hd] at hsize
  omega

theorem sorted_discarded (h : AtRest live s pending) (settings : Settings)
    (hd : Distinct pending) (hn : Numbered pending) :
    ((runTasks settings live s pending).report.discarded.map Discarded.index).Pairwise (· < ·) := by
  refine hn.sublist (List.Sublist.trans ?_ (map_index_readyTasks_sublist live s pending))
  have hsub := sublist_index_discarded (runTasks settings live s pending)
  rwa [h.attempts_runTasks settings hd, map_index_attempts] at hsub

end AtRest

def Discarded.sort (ds : List Discarded) : List Discarded :=
  ds.mergeSort fun d e => d.index ≤ e.index

theorem Discarded.eq_sort {ds ds' : List Discarded} (hperm : ds'.Perm ds)
    (hsorted : (ds'.map index).Pairwise (· < ·)) : ds' = sort ds := by
  have hle : ds'.Pairwise fun d e => decide (d.index ≤ e.index) = true :=
    (List.pairwise_map.1 hsorted).imp fun hlt => decide_eq_true (Nat.le_of_lt hlt)
  have hsort : (sort ds).Pairwise fun d e => decide (d.index ≤ e.index) = true :=
    List.pairwise_mergeSort (fun d e f hde hef => by simp only [decide_eq_true_eq] at *; omega)
      (fun d e => by simp only [Bool.or_eq_true, decide_eq_true_eq]; omega) ds
  have hboth : ds'.Perm (sort ds) := hperm.trans (List.mergeSort_perm ds _).symm
  refine List.Perm.eq_of_pairwise (fun d e hd he hde hed => ?_) hle hsort hboth
  simp only [decide_eq_true_eq] at hde hed
  exact List.inj_on_of_nodup_map (hsorted.imp Nat.ne_of_lt) hd (hboth.mem_iff.2 he)
    (Nat.le_antisymm hde hed)

/-- The second of two runs finds nothing that the first has not found. -/
structure Run.Repeats (second first : Run) : Prop where
  store : second.store = first.store
  computed : second.report.computed = 0
  unresolved : second.report.unresolved = first.report.unresolved
  discarded : second.report.discarded = Discarded.sort first.report.discarded
  waves : second.report.waves = if first.report.discarded = [] then 0 else 1

/-- A run that starts where another has ended does nothing but to discard again what was
discarded before. -/
theorem Program.repeats_run (p : Program) (settings settings' : Settings) (live : NameSet)
    (s : Store) :
    (p.run settings' live (p.run settings live s).store).Repeats (p.run settings live s) := by
  have hd := p.distinct_tasks
  have hn := p.numbered_tasks
  have hrest : AtRest live (p.run settings live s).store p.tasks :=
    atRest_store_runTasks settings live hd
  have hstore : (p.run settings' live (p.run settings live s).store).store =
      (p.run settings live s).store := hrest.store_runTasks settings' hd
  have hperm : (p.run settings' live (p.run settings live s).store).report.discarded.Perm
      (p.run settings live s).report.discarded :=
    perm_discarded_of_store_eq settings' live settings hd hn hstore
  constructor
  case store => exact hstore
  case computed => exact hrest.computed_runTasks settings' hd
  case unresolved => exact unresolved_eq_of_store_eq settings' live settings hd hstore
  case discarded => exact Discarded.eq_sort hperm (hrest.sorted_discarded settings' hd hn)
  case waves =>
    have hnil : (p.run settings' live (p.run settings live s).store).report.discarded = [] ↔
        (p.run settings live s).report.discarded = [] := by
      rw [← List.length_eq_zero_iff, hperm.length_eq, List.length_eq_zero_iff]
    have hwaves := hrest.waves_runTasks settings' hd
    simp only [← hnil]
    exact hwaves

/-! ## Stages -/

namespace Program

variable {p : Program} {live live₁ live₂ : NameSet} {s u : Store}

/-- A run stores nothing that a saturated store above its first one does not hold. -/
theorem Saturated.store_run_le (h : p.Saturated live s u) (settings : Settings) :
    (p.run settings live s).store ≤ u := by
  intro n v hv
  have hderives : Derives live s p.tasks (.reference n) v :=
    derives_of_resolve settings live p.distinct_tasks hv
  exact h.resolve_of_derives hderives

theorem Saturated.of_subset (h : p.Saturated live₂ s u) (hlive : ∀ n ∈ live₁, n ∈ live₂) :
    p.Saturated live₁ s u where
  le := h.le
  closed c hc htarget hfresh := h.closed c hc (hlive c.target htarget) hfresh

theorem Saturated.of_le {t : Store} (h : p.Saturated live s u) (hst : s ≤ t) (htu : t ≤ u) :
    p.Saturated live t u where
  le := htu
  closed c hc htarget hfresh := h.closed c hc htarget (Store.get?_eq_none_of_le hst hfresh)

/-- What is saturated above the last store of a run is saturated above its first store: the values
in between are results of definitions, and these have the same results later. -/
theorem Saturated.of_run (settings : Settings)
    (h : p.Saturated live₂ (p.run settings live₁ s).store u) : p.Saturated live₂ s u where
  le := le_trans (p.saturated_run settings live₁ s).le h.le
  closed c hc htarget hfresh v hyields := by
    cases hg : (p.run settings live₁ s).store.get? c.target with
    | none => exact h.closed c hc htarget hg v hyields
    | some w =>
      rcases (p.get?_run_iff settings live₁ s c.target w).1 hg with
        hs | ⟨-, -, d, hd, heq, hyields'⟩
      · rw [hfresh] at hs
        cases hs
      · obtain rfl := p.define_unique hd hc heq
        obtain rfl := hyields.unique (hyields'.of_le h.le)
        exact h.le _ _ hg

end Program

/-- Two runs, one after the other, that together come to what a single run comes to. -/
structure Run.AddUp (first second once : Run) : Prop where
  store : second.store = once.store
  computed : first.report.computed + second.report.computed = once.report.computed
  unresolved : second.report.unresolved = once.report.unresolved
  discarded : second.report.discarded.Perm once.report.discarded

/-- A run with some of the live variables, and after it a run with all of them, add up to a single
run with all of them. -/
theorem Program.addUp_run (p : Program) (settings₁ settings₂ settings : Settings)
    {live₁ live₂ : NameSet} (hlive : ∀ n ∈ live₁, n ∈ live₂) (s : Store) :
    Run.AddUp (p.run settings₁ live₁ s)
      (p.run settings₂ live₂ (p.run settings₁ live₁ s).store) (p.run settings live₂ s) := by
  have hd := p.distinct_tasks
  have honce := p.saturated_run settings live₂ s
  have hsecond := p.saturated_run settings₂ live₂ (p.run settings₁ live₁ s).store
  have hstore : (p.run settings₂ live₂ (p.run settings₁ live₁ s).store).store =
      (p.run settings live₂ s).store := by
    refine le_antisymm ?_ ((hsecond.of_run settings₁).store_run_le settings)
    have hfirst := (honce.of_subset hlive).store_run_le settings₁
    exact (honce.of_le (p.saturated_run settings₁ live₁ s).le hfirst).store_run_le settings₂
  constructor
  case store => exact hstore
  case computed =>
    have hsize₁ := size_store_runTasks settings₁ live₁ (s := s) hd
    have hsize₂ := size_store_runTasks settings₂ live₂ (s := (p.run settings₁ live₁ s).store) hd
    have hsize := size_store_runTasks settings live₂ (s := s) hd
    have hlast := congrArg Store.size hstore
    simp only [Program.run] at hsize₁ hsize₂ hsize hlast ⊢
    omega
  case unresolved => exact unresolved_eq_of_store_eq settings₂ live₂ settings hd hstore
  case discarded =>
    exact perm_discarded_of_store_eq settings₂ live₂ settings hd p.numbered_tasks hstore

/-- A variable that the first run cannot compute, since `y` is live in the second run only, and
one that both runs discard. -/
theorem Program.addUp_run_dependency_live_later :
    let x := Operation.define (Calc.ofTexts "x" "y" "*" "2")
    let y := Operation.define (Calc.ofTexts "y" "3" "-" "4")
    let z := Operation.define (Calc.ofTexts "z" "1" "/" "1")
    let live₁ : NameSet := {⟨"x"⟩, ⟨"z"⟩}
    let live₂ : NameSet := {⟨"z"⟩, ⟨"y"⟩, ⟨"x"⟩}
    (∀ n ∈ live₁, n ∈ live₂) ∧ ∃ p, ofOperations [x, y, z, .print ⟨"x"⟩] = .ok p ∧
      Run.AddUp (p.run {} live₁ Store.empty) (p.run {} live₂ (p.run {} live₁ Store.empty).store)
        (p.run .sequential live₂ Store.empty) := by
  intro x y z live₁ live₂
  have hlive : ∀ n ∈ live₁, n ∈ live₂ := by
    simp only [live₁, live₂, Std.ExtTreeSet.insert_eq_insert, Std.ExtTreeSet.singleton_eq_insert,
      Std.ExtTreeSet.mem_insert, Std.compare_eq_iff_eq]
    rintro n (hx | hz | hempty)
    · exact .inr (.inr (.inl hx))
    · exact .inl hz
    · exact absurd hempty Std.ExtTreeSet.not_mem_empty
  obtain ⟨p, hp⟩ := (exists_ofOperations_iff [x, y, z, .print ⟨"x"⟩]).2 (by decide)
  exact ⟨hlive, p, hp, p.addUp_run {} {} .sequential hlive Store.empty⟩

end Wavefront
