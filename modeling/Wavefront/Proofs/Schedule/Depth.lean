import Mathlib.Order.Bounds.Basic
import Mathlib.Order.Nat
import Wavefront.Proofs.Schedule.Trace

set_option autoImplicit false

/-!
# Waves and dependencies

A variable has depth 0 if it has its value from the start, and otherwise the number of the wave
that computes it. A task takes part in the wave from the first stage at which its operands all
have values, and that is the stage of its deepest operand. So the waves of a run are the layers
of the dependency graph.
-/
namespace Wavefront

theorem foldr_max_le_iff (depths : List Nat) (k : Nat) :
    depths.foldr max 0 ≤ k ↔ ∀ d ∈ depths, d ≤ k := by
  induction depths with
  | nil => simp
  | cons d rest ih => simp [ih]

theorem Task.exists_resolves_iff (s : Store) (t : Task) :
    (∃ a b, t.Resolves s a b) ↔ ∀ n ∈ t.definition.references, s.contains n := by
  have hoperand {o : Operand} {v : Value} {n : Name} (ho : o = .reference n)
      (hv : s.resolve o = some v) : s.contains n := by
    subst ho
    exact (Store.contains_iff s n).2 ⟨v, hv⟩
  constructor
  · rintro ⟨a, b, hl, hr⟩ n hn
    rcases (t.definition.mem_references_iff n).1 hn with hleft | hright
    · exact hoperand hleft hl
    · exact hoperand hright hr
  · intro h
    by_contra hno
    simp only [not_exists] at hno
    obtain ⟨n, hn, hnone⟩ := t.exists_reference_without_value hno
    obtain ⟨v, hv⟩ := (Store.contains_iff s n).1 (h n hn)
    rw [hnone] at hv
    cases hv

def Event.computes? (n : Name) : Event → Option Nat
  | .computed wave m _ => if m = n then some wave else none
  | _ => none

/-- How deep a variable lies below the store a run starts from, by the trace of the run. -/
def Run.depth? (r : Run) (s : Store) (n : Name) : Option Nat :=
  if s.contains n then some 0 else r.events.findSome? (Event.computes? n)

def Run.RunsIn (r : Run) (t : Task) (wave : Nat) : Prop :=
  ∃ e ∈ r.events, e.member? = some (wave, t.target)

theorem Event.computes?_eq_some_iff (n : Name) (e : Event) (wave : Nat) :
    e.computes? n = some wave ↔ ∃ v, e = .computed wave n v := by
  cases e with
  | computed w m v =>
    by_cases hm : m = n <;> simp [computes?, hm]
  | _ => simp [computes?]

section
variable {live : NameSet} {s : Store} {pending : List Task}

/-- A wanted task waits at a stage as long as its operands have never had values before. -/
theorem mem_pending_stageAt (hd : Distinct pending) {t : Task} (ht : t ∈ pending)
    (hw : t.Wanted live s) {k : Nat}
    (h : ∀ j < k, ∀ a b, ¬ t.Resolves (stageAt live s pending j).store a b) :
    t ∈ (stageAt live s pending k).pending ∧ t.Wanted live (stageAt live s pending k).store := by
  induction k with
  | zero => exact ⟨ht, hw⟩
  | succ k ih =>
    obtain ⟨hmem, hwanted⟩ := ih fun j hj => h j (Nat.lt_succ_of_lt hj)
    have hblocked := mem_blockedTasks.2 ⟨hmem, hwanted, h k (Nat.lt_succ_self k)⟩
    exact ⟨hblocked, wanted_afterWave (distinct_stageAt hd k) hblocked⟩

theorem exists_mem_ready_stageAt_iff (hd : Distinct pending) {t : Task} (ht : t ∈ pending)
    (hw : t.Wanted live s) (k : Nat) :
    (∃ r ∈ (stageAt live s pending k).ready live, r.target = t.target) ↔
      IsLeast {j | ∃ a b, t.Resolves (stageAt live s pending j).store a b} k := by
  constructor
  · rintro ⟨r, hr, htarget⟩
    obtain ⟨u, hu, -, a, b, hres, rfl⟩ := mem_readyTasks.1 hr
    obtain rfl := hd.eq_of_target_eq ((pending_stageAt_sublist k).mem hu) ht htarget
    refine ⟨⟨a, b, hres⟩, ?_⟩
    rintro j ⟨a', b', hj⟩
    by_contra hlt
    -- a stage before would have made the task ready, and it would not wait here
    obtain ⟨i, rfl⟩ := Nat.exists_eq_add_of_lt (Nat.lt_of_not_le hlt)
    have hlater := hj.of_le (store_stageAt_mono hd (Nat.le_add_right j i))
    rw [pending_stageAt_succ hd] at hu
    exact (mem_blockedTasks.1 hu).2.2 a' b' hlater
  · rintro ⟨⟨a, b, hres⟩, hleast⟩
    have hwaiting := mem_pending_stageAt hd ht hw (k := k) fun j hj a b hab =>
      absurd (hleast ⟨a, b, hab⟩) (Nat.not_le_of_lt hj)
    exact ⟨_, mem_readyTasks.2 ⟨t, hwaiting.1, hwaiting.2, a, b, hres, rfl⟩, rfl⟩

end

section
variable (settings : Settings) (live : NameSet) {s : Store} {pending : List Task}

theorem computed_mem_events_iff (hd : Distinct pending) (wave : Nat) (n : Name) (v : Value) :
    .computed wave n v ∈ (runTasks settings live s pending).events ↔
      ∃ k < (runTasks settings live s pending).report.waves, wave = k + 1 ∧
        (stageAt live s pending k).store.get? n = none ∧
          (stageAt live s pending (k + 1)).store.get? n = some v := by
  rw [events_runTasks settings live hd, List.mem_append, or_iff_left (by simp),
    computed_mem_stageLogs_iff hd]

theorem contains_stageAt_mono (hd : Distinct pending) {j k : Nat} (hjk : j ≤ k) {n : Name}
    (h : (stageAt live s pending j).store.contains n) :
    (stageAt live s pending k).store.contains n := by
  obtain ⟨v, hv⟩ := (Store.contains_iff _ n).1 h
  exact (Store.contains_iff _ n).2 ⟨v, store_stageAt_mono hd hjk n v hv⟩

theorem exists_computed_mem_events_iff (hd : Distinct pending) (wave : Nat) (n : Name) :
    (∃ v, .computed wave n v ∈ (runTasks settings live s pending).events) ↔
      wave ≤ (runTasks settings live s pending).report.waves ∧ wave ≠ 0 ∧
        IsLeast {k | (stageAt live s pending k).store.contains n} wave := by
  simp only [computed_mem_events_iff settings live hd]
  constructor
  · rintro ⟨v, k, hk, rfl, hnone, hsome⟩
    refine ⟨hk, Nat.succ_ne_zero k, (Store.contains_iff _ n).2 ⟨v, hsome⟩, ?_⟩
    intro j hj
    by_contra hlt
    have hk := contains_stageAt_mono live hd (Nat.le_of_not_lt hlt) hj
    simp [Store.contains_eq_isSome, hnone] at hk
  · rintro ⟨hle, hne, hcontains, hleast⟩
    obtain ⟨k, rfl⟩ := Nat.exists_eq_succ_of_ne_zero hne
    obtain ⟨v, hv⟩ := (Store.contains_iff _ n).1 hcontains
    refine ⟨v, k, hle, rfl, ?_, hv⟩
    cases hg : (stageAt live s pending k).store.get? n with
    | none => rfl
    | some w =>
      exact absurd (hleast ((Store.contains_iff _ n).2 ⟨w, hg⟩)) (Nat.not_succ_le_self k)

/-- The depth of a variable is the first stage at which it has a value. -/
theorem depth?_eq_some_iff (hd : Distinct pending) (n : Name) (d : Nat) :
    (runTasks settings live s pending).depth? s n = some d ↔
      d ≤ (runTasks settings live s pending).report.waves ∧
        IsLeast {k | (stageAt live s pending k).store.contains n} d := by
  have hcomputed := exists_computed_mem_events_iff settings live (s := s) hd
  unfold Run.depth?
  by_cases hs : s.contains n
  · have hzero : IsLeast {k | (stageAt live s pending k).store.contains n} 0 :=
      ⟨hs, fun k _ => Nat.zero_le k⟩
    rw [if_pos hs, hzero.isLeast_iff_eq, Option.some.injEq]
    refine ⟨fun h => ⟨h ▸ Nat.zero_le _, h⟩, And.right⟩
  · rw [if_neg hs]
    have hfound {d : Nat}
        (h : (runTasks settings live s pending).events.findSome? (Event.computes? n) = some d) :
        d ≤ (runTasks settings live s pending).report.waves ∧ d ≠ 0 ∧
          IsLeast {k | (stageAt live s pending k).store.contains n} d := by
      obtain ⟨e, he, hwave⟩ := List.exists_of_findSome?_eq_some h
      obtain ⟨v, rfl⟩ := (e.computes?_eq_some_iff n d).1 hwave
      exact (hcomputed d n).1 ⟨v, he⟩
    refine ⟨fun h => ⟨(hfound h).1, (hfound h).2.2⟩, ?_⟩
    rintro ⟨hle, hleast⟩
    have hne : d ≠ 0 := by
      rintro rfl
      exact hs hleast.1
    obtain ⟨v, he⟩ := (hcomputed d n).2 ⟨hle, hne, hleast⟩
    cases hfind : (runTasks settings live s pending).events.findSome? (Event.computes? n) with
    | none =>
      have hnone := List.findSome?_eq_none_iff.1 hfind _ he
      rw [(Event.computes?_eq_some_iff n _ d).2 ⟨v, rfl⟩] at hnone
      cases hnone
    | some d' => rw [(hfound hfind).2.2.unique hleast]

/-- The values at a stage are those of depth at most its number. -/
theorem contains_stageAt_iff (hd : Distinct pending) {k : Nat}
    (hk : k ≤ (runTasks settings live s pending).report.waves) (n : Name) :
    (stageAt live s pending k).store.contains n ↔
      ∃ d ≤ k, (runTasks settings live s pending).depth? s n = some d := by
  simp only [depth?_eq_some_iff settings live hd]
  constructor
  · intro h
    have hex : ∃ j, (stageAt live s pending j).store.contains n := ⟨k, h⟩
    have hfirst : IsLeast {j | (stageAt live s pending j).store.contains n} (Nat.find hex) :=
      ⟨Nat.find_spec hex, fun j hj => Nat.find_min' hex hj⟩
    exact ⟨Nat.find hex, hfirst.2 h, (hfirst.2 h).trans hk, hfirst⟩
  · rintro ⟨d, hdk, -, hleast⟩
    exact contains_stageAt_mono live hd hdk hleast.1

theorem runsIn_iff (hd : Distinct pending) {t : Task} (ht : t ∈ pending) (hw : t.Wanted live s)
    (wave : Nat) :
    (runTasks settings live s pending).RunsIn t wave ↔
      ∃ k < (runTasks settings live s pending).report.waves, wave = k + 1 ∧
        IsLeast {j | ∃ a b, t.Resolves (stageAt live s pending j).store a b} k := by
  have hstage (k : Nat) :
      (∃ e ∈ (stageAt live s pending k).log live (k + 1), e.member? = some (wave, t.target)) ↔
        wave = k + 1 ∧ ∃ r ∈ (stageAt live s pending k).ready live, r.target = t.target := by
    simp only [mem_log_iff]
    constructor
    · rintro ⟨e, rfl | ⟨r, hr, rfl⟩, hmember⟩
      · cases hmember
      · rw [r.member?_event, Option.some.injEq] at hmember
        obtain ⟨rfl, htarget⟩ := Prod.mk.inj hmember
        exact ⟨rfl, r, hr, htarget⟩
    · rintro ⟨rfl, r, hr, htarget⟩
      exact ⟨_, .inr ⟨r, hr, rfl⟩, htarget ▸ r.member?_event _⟩
  unfold Run.RunsIn
  rw [events_runTasks settings live hd]
  simp only [← exists_mem_ready_stageAt_iff hd ht hw, ← hstage]
  constructor
  · rintro ⟨e, he, hmember⟩
    rcases List.mem_append.1 he with he | he
    · obtain ⟨k, hk, hlog⟩ := List.mem_flatMap.1 he
      exact ⟨k, List.mem_range.1 hk, e, hlog, hmember⟩
    · obtain rfl := List.mem_singleton.1 he
      cases hmember
  · rintro ⟨k, hk, e, hlog, hmember⟩
    exact ⟨e, List.mem_append_left _ (List.mem_flatMap.2 ⟨k, List.mem_range.2 hk, hlog⟩), hmember⟩

/-- The first stage at which a task knows its operands is the depth of the deepest of them. -/
theorem depths_of_isLeast (hd : Distinct pending) {t : Task} {k : Nat}
    (hk : k ≤ (runTasks settings live s pending).report.waves)
    (h : IsLeast {j | ∃ a b, t.Resolves (stageAt live s pending j).store a b} k) :
    ∃ depths : List Nat,
      t.definition.references.map ((runTasks settings live s pending).depth? s) =
        depths.map some ∧ depths.foldr max 0 = k := by
  -- at a stage the operands are known exactly when none of them is deeper than it
  have hbound {j : Nat} (hj : j ≤ k) :
      (∃ a b, t.Resolves (stageAt live s pending j).store a b) ↔
        ∀ n ∈ t.definition.references,
          ∃ d ≤ j, (runTasks settings live s pending).depth? s n = some d := by
    rw [Task.exists_resolves_iff]
    exact forall₂_congr fun n _ => contains_stageAt_iff settings live hd (hj.trans hk) n
  have hdepth := (hbound (Nat.le_refl k)).1 h.1
  refine ⟨t.definition.references.map fun n =>
    ((runTasks settings live s pending).depth? s n).getD 0, ?_, ?_⟩
  · rw [List.map_map]
    refine List.map_congr_left fun n hn => ?_
    obtain ⟨d, -, hd⟩ := hdepth n hn
    simp [hd]
  · have hle : ∀ j ≤ k, ((t.definition.references.map fun n =>
        ((runTasks settings live s pending).depth? s n).getD 0).foldr max 0 ≤ j ↔
          ∃ a b, t.Resolves (stageAt live s pending j).store a b) := by
      intro j hj
      rw [hbound hj, foldr_max_le_iff, List.forall_mem_map]
      refine forall₂_congr fun n hn => ?_
      obtain ⟨d, -, hd⟩ := hdepth n hn
      simp [hd]
    have hupper := (hle k (Nat.le_refl k)).2 h.1
    exact Nat.le_antisymm hupper (h.2 ((hle _ hupper).1 (Nat.le_refl _)))

theorem waves_le_computed (hd : Distinct pending) :
    (runTasks settings live s pending).report.waves ≤
      (runTasks settings live s pending).report.computed + 1 := by
  induction s, pending, hd using runTasks_induct live with
  | idle s pending hd hr =>
    rw [runTasks_of_idle hr]
    exact Nat.zero_le _
  | barren s pending hd hr hnone =>
    rw [runTasks_of_barren hd hr hnone]
    exact Nat.le_add_left 1 _
  | fruitful s pending hd hr ih =>
    obtain ⟨r, hmem, hvalue⟩ := hr
    obtain ⟨v, hv⟩ := Option.isSome_iff_exists.1 hvalue
    have hfirst : 0 < ((firstWave live s pending).attempts.filterMap Attempt.value?).length :=
      List.length_pos_of_mem (List.mem_filterMap.2 ⟨r.attempt, List.mem_map_of_mem hmem, hv⟩)
    rw [runTasks_of_fruitful hd ⟨r, hmem, hvalue⟩]
    simp only [Run.report, attempts_cons, List.filterMap_append, List.length_append,
      List.length_cons] at ih ⊢
    omega

theorem shows_attempted_iff (hd : Distinct pending) (hn : Numbered pending) {t : Task}
    (ht : t ∈ pending) (hw : t.Wanted live s) :
    ((runTasks settings live s pending).Shows t .computed ∨
        (runTasks settings live s pending).Shows t .discarded) ↔
      ∃ a b, t.Resolves (runTasks settings live s pending).store a b := by
  rw [shows_computed_iff settings live hd ht hw, shows_discarded_iff settings live hd hn ht hw]
  constructor
  · rintro (⟨a, b, hres, -⟩ | ⟨a, b, hres, -⟩) <;> exact ⟨a, b, hres⟩
  · rintro ⟨a, b, hres⟩
    cases hok : t.definition.operator.apply a b with
    | ok v => exact .inl ⟨a, b, hres, v, hok⟩
    | error e => exact .inr ⟨a, b, hres, e, hok⟩

theorem exists_isLeast_of_resolves (hd : Distinct pending) {t : Task} (ht : t ∈ pending)
    (hw : t.Wanted live s)
    (h : ∃ a b, t.Resolves (runTasks settings live s pending).store a b) :
    ∃ k < (runTasks settings live s pending).report.waves,
      IsLeast {j | ∃ a b, t.Resolves (stageAt live s pending j).store a b} k := by
  rw [store_runTasks_eq_stageAt settings live hd] at h
  have hex : ∃ k, ∃ a b, t.Resolves (stageAt live s pending k).store a b := ⟨_, h⟩
  classical
  have hleast : IsLeast {j | ∃ a b, t.Resolves (stageAt live s pending j).store a b}
      (Nat.find hex) := ⟨Nat.find_spec hex, fun j hj => Nat.find_min' hex hj⟩
  refine ⟨Nat.find hex, Nat.lt_of_le_of_ne (hleast.2 h) ?_, hleast⟩
  intro heq
  obtain ⟨r, hr, -⟩ := (exists_mem_ready_stageAt_iff hd ht hw _).2 hleast
  rw [heq, ready_stageAt_waves settings live hd] at hr
  cases hr

theorem exists_isLeast_of_lt (hd : Distinct pending) (hn : Numbered pending) {k : Nat}
    (hk : k < (runTasks settings live s pending).report.waves) :
    ∃ t ∈ pending, t.Wanted live s ∧
      ((runTasks settings live s pending).Shows t .computed ∨
        (runTasks settings live s pending).Shows t .discarded) ∧
      IsLeast {j | ∃ a b, t.Resolves (stageAt live s pending j).store a b} k := by
  obtain ⟨r, hr⟩ := List.exists_mem_of_ne_nil _ (ready_stageAt_ne_nil settings live hd hk)
  obtain ⟨t, ht, hw, a, b, hres, rfl⟩ := mem_readyTasks.1 hr
  have ht := (pending_stageAt_sublist k).mem ht
  have hle : s ≤ (stageAt live s pending k).store := store_stageAt_mono hd (Nat.zero_le k)
  have hw := hw.of_le hle
  refine ⟨t, ht, hw, (shows_attempted_iff settings live hd hn ht hw).2 ⟨a, b, ?_⟩,
    (exists_mem_ready_stageAt_iff hd ht hw k).1 ⟨_, hr, rfl⟩⟩
  rw [store_runTasks_eq_stageAt settings live hd]
  exact hres.of_le (store_stageAt_mono hd (Nat.le_of_lt hk))

end

/-- The waves of a run that starts from `s` are the layers of its tasks: each task that is computed
or discarded runs in the wave after the deepest variable it refers to, and in no other. -/
structure Run.Layered (r : Run) (s : Store) (tasks : List Task) : Prop where
  depth : ∀ wave n v, .computed wave n v ∈ r.events → r.depth? s n = some wave
  layer : ∀ t ∈ tasks, r.Shows t .computed ∨ r.Shows t .discarded →
    ∃ depths : List Nat, t.definition.references.map (r.depth? s) = depths.map some ∧
      ∀ wave, r.RunsIn t wave ↔ wave = 1 + depths.foldr max 0
  greatest : IsGreatest
    (insert 0 {wave | ∃ t ∈ tasks, (r.Shows t .computed ∨ r.Shows t .discarded) ∧ r.RunsIn t wave})
    r.report.waves
  progress : ∀ wave, 0 < wave → wave < r.report.waves → ∃ n v, .computed wave n v ∈ r.events
  bound : r.report.waves ≤ r.report.computed + 1

theorem Program.layered_run (p : Program) (settings : Settings) (live : NameSet) (s : Store) :
    (p.run settings live s).Layered s (p.wanted live s) := by
  have hd := p.distinct_tasks
  have hn := p.numbered_tasks
  constructor
  case depth =>
    intro wave n v hmem
    obtain ⟨hle, -, hleast⟩ := (exists_computed_mem_events_iff settings live hd wave n).1 ⟨v, hmem⟩
    exact (depth?_eq_some_iff settings live hd n wave).2 ⟨hle, hleast⟩
  case layer =>
    intro t ht hshows
    obtain ⟨ht, hw⟩ := mem_wantedTasks.1 ht
    obtain ⟨k, hk, hleast⟩ := exists_isLeast_of_resolves settings live hd ht hw
      ((shows_attempted_iff settings live hd hn ht hw).1 hshows)
    obtain ⟨depths, hdepths, rfl⟩ := depths_of_isLeast settings live hd (Nat.le_of_lt hk) hleast
    refine ⟨depths, hdepths, fun wave => (runsIn_iff settings live hd ht hw wave).trans ?_⟩
    constructor
    · rintro ⟨j, -, rfl, hj⟩
      rw [hleast.unique hj, Nat.add_comm]
    · rintro rfl
      exact ⟨_, hk, Nat.add_comm 1 _, hleast⟩
  case greatest =>
    constructor
    · cases hwaves : (p.run settings live s).report.waves with
      | zero => exact .inl rfl
      | succ k =>
        have hlast : k < (runTasks settings live s p.tasks).report.waves :=
          Nat.lt_of_succ_le (Nat.le_of_eq hwaves.symm)
        obtain ⟨t, ht, hw, hshows, hleast⟩ := exists_isLeast_of_lt settings live hd hn hlast
        exact .inr ⟨t, mem_wantedTasks.2 ⟨ht, hw⟩, hshows,
          (runsIn_iff settings live hd ht hw _).2 ⟨k, hlast, rfl, hleast⟩⟩
    · rintro wave (rfl | ⟨t, ht, -, hruns⟩)
      · exact Nat.zero_le _
      · obtain ⟨ht, hw⟩ := mem_wantedTasks.1 ht
        obtain ⟨k, hk, rfl, -⟩ := (runsIn_iff settings live hd ht hw wave).1 hruns
        exact hk
  case progress =>
    intro wave hpos hlt
    obtain ⟨k, rfl⟩ := Nat.exists_eq_succ_of_ne_zero (Nat.ne_of_gt hpos)
    obtain ⟨r, hr, v, hok⟩ := exists_value_stageAt settings live hd hlt
    have hi : Independent (stageAt live s p.tasks k).store _ := independent_stageAt hd k
    refine ⟨r.target, v, (computed_mem_events_iff settings live hd _ _ v).2 ?_⟩
    exact ⟨k, Nat.lt_of_succ_lt hlt, rfl, hi.absent r hr,
      (hi.get?_afterWave_iff _ v).2 (.inr ⟨r, hr, rfl, hok⟩)⟩
  case bound => exact waves_le_computed settings live hd

end Wavefront
