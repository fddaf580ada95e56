import Mathlib.Order.Monotone.Basic
import Wavefront.Proofs.Schedule.Accounting

set_option autoImplicit false

/-!
# Stages

Before each wave a run stands at a stage: a store, and the tasks that still wait. Stages follow
each other by waves alone, without the rule that ends a run. A run goes through the stages one
by one. It stops at one where nothing is ready, and no wave before its last one stores nothing.
-/
namespace Wavefront

structure Stage where
  store : Store
  pending : List Task

namespace Stage

variable (live : NameSet)

def ready (g : Stage) : List Ready := readyTasks live g.store g.pending

def blocked (g : Stage) : List Task := blockedTasks live g.store g.pending

def next (g : Stage) : Stage := ⟨g.store.afterWave (g.ready live), g.blocked live⟩

end Stage

/-- Where `k` waves lead from `s`, whether or not a run makes that many. -/
def stageAt (live : NameSet) (s : Store) (pending : List Task) : Nat → Stage
  | 0 => ⟨s, pending⟩
  | k + 1 => (stageAt live s pending k).next live

section
variable {live : NameSet} {s : Store} {pending : List Task}

theorem stageAt_succ (k : Nat) :
    stageAt live s pending (k + 1) = stageAt live (s.afterWave (readyTasks live s pending))
      (blockedTasks live s pending) k := by
  induction k with
  | zero => rfl
  | succ k ih => exact congrArg (Stage.next live) ih

theorem pending_stageAt_sublist (k : Nat) :
    (stageAt live s pending k).pending.Sublist pending := by
  induction k with
  | zero => exact List.Sublist.refl pending
  | succ k ih => exact List.filter_sublist.trans ih

theorem distinct_stageAt (hd : Distinct pending) (k : Nat) :
    Distinct (stageAt live s pending k).pending :=
  List.Nodup.sublist ((pending_stageAt_sublist k).map Task.target) hd

theorem independent_stageAt (hd : Distinct pending) (k : Nat) :
    Independent (stageAt live s pending k).store ((stageAt live s pending k).ready live) :=
  (distinct_stageAt hd k).independent live _

theorem store_stageAt_le_succ (hd : Distinct pending) (k : Nat) :
    (stageAt live s pending k).store ≤ (stageAt live s pending (k + 1)).store :=
  (independent_stageAt hd k).le_afterWave

theorem store_stageAt_mono (hd : Distinct pending) :
    Monotone fun k => (stageAt live s pending k).store :=
  monotone_nat_of_le_succ (store_stageAt_le_succ hd)

theorem pending_stageAt_succ (hd : Distinct pending) (k : Nat) :
    (stageAt live s pending (k + 1)).pending =
      blockedTasks live (stageAt live s pending k).store pending := by
  induction k with
  | zero => rfl
  | succ k ih =>
    change blockedTasks live _ (stageAt live s pending (k + 1)).pending = _
    rw [ih]
    exact blockedTasks_blockedTasks (store_stageAt_le_succ hd k) pending

/-- After the first wave nothing is dropped: what waits is ready or blocked at the next stage. -/
theorem length_pending_stageAt (hd : Distinct pending) (k : Nat) :
    (stageAt live s pending (k + 1)).pending.length =
      ((stageAt live s pending (k + 1)).ready live).length +
        ((stageAt live s pending (k + 1)).blocked live).length := by
  have hwave := (perm_wave live (stageAt live s pending (k + 1)).store
    (stageAt live s pending (k + 1)).pending).length_eq
  have hwanted : wantedTasks live (stageAt live s pending (k + 1)).store
      (stageAt live s pending (k + 1)).pending = (stageAt live s pending (k + 1)).pending :=
    wantedTasks_blockedTasks (distinct_stageAt hd k)
  rw [hwanted, List.length_append, List.length_map, List.length_map, List.length_map] at hwave
  exact hwave.symm

end

section
variable (settings : Settings) (live : NameSet) {s : Store} {pending : List Task}

theorem waves_runTasks (hd : Distinct pending) :
    (runTasks settings live s pending).waves =
      (List.range (runTasks settings live s pending).report.waves).map fun k =>
        firstWave live (stageAt live s pending k).store (stageAt live s pending k).pending := by
  induction s, pending, hd using runTasks_induct live with
  | idle s pending hd hr =>
    rw [runTasks_of_idle hr]
    rfl
  | barren s pending hd hr hnone =>
    rw [runTasks_of_barren hd hr hnone]
    rfl
  | fruitful s pending hd hr ih =>
    rw [runTasks_of_fruitful hd hr]
    simp only [Run.report, List.length_cons, List.range_succ_eq_map, List.map_cons,
      List.map_map] at ih ⊢
    refine congrArg (firstWave live s pending :: ·) (ih.trans ?_)
    refine List.map_congr_left fun k _ => ?_
    simp only [Function.comp, stageAt_succ]

theorem store_runTasks_eq_stageAt (hd : Distinct pending) :
    (runTasks settings live s pending).store =
      (stageAt live s pending (runTasks settings live s pending).report.waves).store := by
  induction s, pending, hd using runTasks_induct live with
  | idle s pending hd hr =>
    rw [runTasks_of_idle hr]
    rfl
  | barren s pending hd hr hnone =>
    rw [runTasks_of_barren hd hr hnone]
    exact ((hd.independent live s).afterWave_eq_self hnone).symm
  | fruitful s pending hd hr ih =>
    rw [runTasks_of_fruitful hd hr]
    simp only [Run.report, List.length_cons, stageAt_succ]
    exact ih

/-- A run does not stop before a stage where nothing is ready. -/
theorem ready_stageAt_waves (hd : Distinct pending) :
    (stageAt live s pending (runTasks settings live s pending).report.waves).ready live = [] := by
  induction s, pending, hd using runTasks_induct live with
  | idle s pending hd hr =>
    rw [runTasks_of_idle hr]
    exact hr
  | barren s pending hd hr hnone =>
    -- the store is as before, so what it blocked it still blocks
    rw [runTasks_of_barren hd hr hnone]
    change readyTasks live (s.afterWave (readyTasks live s pending)) _ = []
    rw [(hd.independent live s).afterWave_eq_self hnone, List.eq_nil_iff_forall_not_mem]
    intro r hmem
    obtain ⟨t, ht, -, a, b, hres, -⟩ := mem_readyTasks.1 hmem
    exact (mem_blockedTasks.1 ht).2.2 a b hres
  | fruitful s pending hd hr ih =>
    rw [runTasks_of_fruitful hd hr]
    simp only [Run.report, List.length_cons, stageAt_succ]
    exact ih

theorem ready_stageAt_ne_nil (hd : Distinct pending) {k : Nat}
    (hk : k < (runTasks settings live s pending).report.waves) :
    (stageAt live s pending k).ready live ≠ [] := by
  induction s, pending, hd using runTasks_induct live generalizing k with
  | idle s pending hd hr =>
    rw [runTasks_of_idle hr] at hk
    exact absurd hk (Nat.not_lt_zero k)
  | barren s pending hd hr hnone =>
    rw [runTasks_of_barren hd hr hnone] at hk
    obtain rfl : k = 0 := Nat.lt_one_iff.1 hk
    exact hr
  | fruitful s pending hd hr ih =>
    rw [runTasks_of_fruitful hd hr] at hk
    cases k with
    | zero =>
      obtain ⟨r, hmem, -⟩ := hr
      exact List.ne_nil_of_mem hmem
    | succ k =>
      rw [stageAt_succ]
      exact ih (Nat.lt_of_succ_lt_succ hk)

theorem exists_value_stageAt (hd : Distinct pending) {k : Nat}
    (hk : k + 1 < (runTasks settings live s pending).report.waves) :
    ∃ r ∈ (stageAt live s pending k).ready live, ∃ v, r.operator.apply r.left r.right = .ok v := by
  induction s, pending, hd using runTasks_induct live generalizing k with
  | idle s pending hd hr =>
    rw [runTasks_of_idle hr] at hk
    exact absurd hk (Nat.not_lt_zero _)
  | barren s pending hd hr hnone =>
    rw [runTasks_of_barren hd hr hnone] at hk
    exact absurd (Nat.lt_of_succ_lt_succ hk) (Nat.not_lt_zero k)
  | fruitful s pending hd hr ih =>
    rw [runTasks_of_fruitful hd hr] at hk
    cases k with
    | zero =>
      obtain ⟨r, hmem, hvalue⟩ := hr
      obtain ⟨v, hv⟩ := Option.isSome_iff_exists.1 hvalue
      exact ⟨r, hmem, v, (r.value?_attempt v).1 hv⟩
    | succ k =>
      rw [stageAt_succ]
      exact ih (Nat.lt_of_succ_lt_succ hk)

theorem unresolved_runTasks_of_waves {k : Nat} (hd : Distinct pending)
    (hk : (runTasks settings live s pending).report.waves = k + 1) :
    (runTasks settings live s pending).unresolved =
      ((stageAt live s pending (k + 1)).blocked live).map Task.index := by
  have hstore := store_runTasks_eq_stageAt settings live (s := s) hd
  rw [hk] at hstore
  rw [unresolved_runTasks settings live hd, hstore]
  change _ = (blockedTasks live _ (stageAt live s pending (k + 1)).pending).map Task.index
  rw [pending_stageAt_succ hd, blockedTasks_blockedTasks (store_stageAt_le_succ hd k)]

end

end Wavefront
