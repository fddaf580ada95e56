import Wavefront.Proofs.Schedule.Wave

set_option autoImplicit false

/-!
# Runs

A run is idle when nothing is ready, barren when its first wave stores nothing, and fruitful
otherwise. The main statements describe a finished run by its last store: which tasks were
attempted and with what operands, which are left, and where each value comes from.
-/
namespace Wavefront

def firstWave (live : NameSet) (s : Store) (pending : List Task) : Wave :=
  ⟨(readyTasks live s pending).map Ready.attempt, (blockedTasks live s pending).length⟩

section
variable {settings : Settings} {live : NameSet} {s : Store} {pending : List Task}

theorem runTasks_of_idle (h : readyTasks live s pending = []) :
    runTasks settings live s pending =
      ⟨[], (blockedTasks live s pending).map Task.index, s⟩ := by
  rw [runTasks]
  split
  · rfl
  · rename_i heq
    exact absurd (heq.symm.trans h) (by simp)

theorem runTasks_of_barren (hd : Distinct pending) (h : readyTasks live s pending ≠ [])
    (hnone : ∀ r ∈ readyTasks live s pending, r.attempt.value? = none) :
    runTasks settings live s pending =
      ⟨[firstWave live s pending], (blockedTasks live s pending).map Task.index, s⟩ := by
  have hi := hd.independent live s
  rw [runTasks]
  split
  · rename_i heq
    exact absurd heq h
  · rename_i r rest heq
    rw [heq] at hi hnone
    have hany : ((r :: rest).map Ready.attempt).any (fun a => a.value?.isSome) = false := by
      simpa using hnone
    simp only [runWave_eq settings hi, hany, hi.afterWave_eq_self hnone, firstWave, heq]
    rfl

theorem runTasks_of_fruitful (hd : Distinct pending)
    (h : ∃ r ∈ readyTasks live s pending, r.attempt.value?.isSome) :
    runTasks settings live s pending =
      let later := runTasks settings live (s.afterWave (readyTasks live s pending))
        (blockedTasks live s pending)
      ⟨firstWave live s pending :: later.waves, later.unresolved, later.store⟩ := by
  have hi := hd.independent live s
  rw [runTasks]
  split
  · rename_i heq
    rw [heq] at h
    simp at h
  · rename_i r rest heq
    rw [heq] at hi h
    have hany : ((r :: rest).map Ready.attempt).any (fun a => a.value?.isSome) = true := by
      simpa using h
    simp only [runWave_eq settings hi, hany, firstWave, heq]
    rfl

end

/-- Induction over the waves of a run. -/
theorem runTasks_induct (live : NameSet)
    {motive : (s : Store) → (pending : List Task) → Distinct pending → Prop}
    (idle : ∀ s pending hd, readyTasks live s pending = [] → motive s pending hd)
    (barren : ∀ s pending hd, readyTasks live s pending ≠ [] →
      (∀ r ∈ readyTasks live s pending, r.attempt.value? = none) → motive s pending hd)
    (fruitful : ∀ s pending (hd : Distinct pending),
      (∃ r ∈ readyTasks live s pending, r.attempt.value?.isSome) →
      motive (s.afterWave (readyTasks live s pending)) (blockedTasks live s pending)
        (hd.blockedTasks live s) →
      motive s pending hd)
    (s : Store) (pending : List Task) (hd : Distinct pending) : motive s pending hd := by
  by_cases hr : readyTasks live s pending = []
  · exact idle s pending hd hr
  · by_cases hs : ∃ r ∈ readyTasks live s pending, r.attempt.value?.isSome
    · exact fruitful s pending hd hs (runTasks_induct live idle barren fruitful _ _ _)
    · refine barren s pending hd hr fun r hmem => ?_
      simpa using fun h => hs ⟨r, hmem, h⟩
termination_by pending.length
decreasing_by exact length_blockedTasks_lt hr

theorem attempts_cons (w : Wave) (later : Run) (u : List Nat) (s : Store) :
    (⟨w :: later.waves, u, s⟩ : Run).attempts = w.attempts ++ later.attempts := by
  simp [Run.attempts]

theorem attempts_singleton (w : Wave) (u : List Nat) (s : Store) :
    (⟨[w], u, s⟩ : Run).attempts = w.attempts := by
  simp [Run.attempts]

theorem mem_readyTasks_or_blockedTasks {live : NameSet} {s : Store} {pending : List Task}
    {t : Task} (ht : t ∈ pending) (hw : t.Wanted live s) :
    (∃ a b, t.Resolves s a b ∧ t.withOperands a b ∈ readyTasks live s pending) ∨
      t ∈ blockedTasks live s pending := by
  by_cases hr : ∃ a b, t.Resolves s a b
  · obtain ⟨a, b, hab⟩ := hr
    exact .inl ⟨a, b, hab, mem_readyTasks.2 ⟨t, ht, hw, a, b, hab, rfl⟩⟩
  · simp only [not_exists] at hr
    exact .inr (mem_blockedTasks.2 ⟨ht, hw, hr⟩)

theorem mem_map_attempt_readyTasks {live : NameSet} {s : Store} {pending : List Task}
    {a : Attempt} :
    a ∈ (readyTasks live s pending).map Ready.attempt ↔
      ∃ t ∈ pending, t.Wanted live s ∧ ∃ left right,
        t.Resolves s left right ∧ a = (t.withOperands left right).attempt := by
  constructor
  · intro h
    obtain ⟨r, hr, rfl⟩ := List.mem_map.1 h
    obtain ⟨t, ht, hw, left, right, hres, rfl⟩ := mem_readyTasks.1 hr
    exact ⟨t, ht, hw, left, right, hres, rfl⟩
  · rintro ⟨t, ht, hw, left, right, hres, rfl⟩
    exact List.mem_map_of_mem (mem_readyTasks.2 ⟨t, ht, hw, left, right, hres, rfl⟩)

theorem blockedTasks_blockedTasks {live : NameSet} {s u : Store} (hle : s ≤ u)
    (pending : List Task) :
    blockedTasks live u (blockedTasks live s pending) = blockedTasks live u pending := by
  unfold blockedTasks
  rw [List.filter_filter]
  refine List.filter_congr fun t _ => Bool.and_eq_left_iff_imp.2 fun hu => ?_
  obtain ⟨hw, hr⟩ := Task.standing_eq_blocked_iff.1 (of_decide_eq_true hu)
  refine decide_eq_true (Task.standing_eq_blocked_iff.2 ⟨hw.of_le hle, fun a b hab => ?_⟩)
  exact hr a b (hab.of_le hle)

theorem wanted_afterWave {live : NameSet} {s : Store} {pending : List Task} {t : Task}
    (hd : Distinct pending) (h : t ∈ blockedTasks live s pending) :
    t.Wanted live (s.afterWave (readyTasks live s pending)) := by
  obtain ⟨ht, hw, hblocked⟩ := mem_blockedTasks.1 h
  refine ⟨hw.1, ?_⟩
  cases hg : (s.afterWave (readyTasks live s pending)).get? t.target with
  | none => rfl
  | some v =>
    rcases ((hd.independent live s).get?_afterWave_iff t.target v).1 hg with
      hs | ⟨r, hr, htarget, -⟩
    · exact absurd hs (by simp [hw.2])
    · obtain ⟨u, hu, -, a, b, hab, rfl⟩ := mem_readyTasks.1 hr
      obtain rfl := hd.eq_of_target_eq hu ht htarget
      exact absurd hab (hblocked a b)

/-- Whether waves are run in turn or together makes no difference to a run. -/
theorem runTasks_settings (settings settings' : Settings) (live : NameSet) {s : Store}
    {pending : List Task} (hd : Distinct pending) :
    runTasks settings live s pending = runTasks settings' live s pending := by
  induction s, pending, hd using runTasks_induct live with
  | idle s pending hd hr => rw [runTasks_of_idle hr, runTasks_of_idle hr]
  | barren s pending hd hr hnone =>
    rw [runTasks_of_barren hd hr hnone, runTasks_of_barren hd hr hnone]
  | fruitful s pending hd hr ih => rw [runTasks_of_fruitful hd hr, runTasks_of_fruitful hd hr, ih]

section
variable (settings : Settings) (live : NameSet) {s : Store} {pending : List Task}

theorem le_store_runTasks (hd : Distinct pending) :
    s ≤ (runTasks settings live s pending).store := by
  induction s, pending, hd using runTasks_induct live with
  | idle s pending hd hr => rw [runTasks_of_idle hr]
  | barren s pending hd hr hnone => rw [runTasks_of_barren hd hr hnone]
  | fruitful s pending hd hr ih =>
    rw [runTasks_of_fruitful hd hr]
    exact le_trans (hd.independent live s).le_afterWave ih

theorem unresolved_runTasks (hd : Distinct pending) :
    (runTasks settings live s pending).unresolved =
      (blockedTasks live (runTasks settings live s pending).store pending).map Task.index := by
  induction s, pending, hd using runTasks_induct live with
  | idle s pending hd hr => rw [runTasks_of_idle hr]
  | barren s pending hd hr hnone => rw [runTasks_of_barren hd hr hnone]
  | fruitful s pending hd hr ih =>
    rw [runTasks_of_fruitful hd hr]
    have hle := le_trans (hd.independent live s).le_afterWave
      (le_store_runTasks settings live (hd.blockedTasks live s))
    simp only [ih, blockedTasks_blockedTasks hle]

/-- The attempts of a run, seen from its last store: the tasks that were wanted at the start and
whose operands have values at the end. -/
theorem mem_attempts_runTasks (hd : Distinct pending) (a : Attempt) :
    a ∈ (runTasks settings live s pending).attempts ↔
      ∃ t ∈ pending, t.Wanted live s ∧ ∃ left right,
        t.Resolves (runTasks settings live s pending).store left right ∧
          a = (t.withOperands left right).attempt := by
  induction s, pending, hd using runTasks_induct live with
  | idle s pending hd hr =>
    rw [runTasks_of_idle hr]
    refine ⟨fun h => absurd h (by simp [Run.attempts]), ?_⟩
    rintro ⟨t, ht, hw, left, right, hres, -⟩
    have hmem := mem_readyTasks.2 ⟨t, ht, hw, left, right, hres, rfl⟩
    simp [hr] at hmem
  | barren s pending hd hr hnone =>
    rw [runTasks_of_barren hd hr hnone, attempts_singleton, firstWave, mem_map_attempt_readyTasks]
  | fruitful s pending hd hr ih =>
    have hle := (hd.independent live s).le_afterWave
    have hlater := le_store_runTasks settings live (hd.blockedTasks live s)
      (s := s.afterWave (readyTasks live s pending))
    rw [runTasks_of_fruitful hd hr, attempts_cons, List.mem_append, ih, firstWave,
      mem_map_attempt_readyTasks]
    constructor
    · rintro (⟨t, ht, hw, left, right, hres, rfl⟩ | ⟨t, ht, hw, left, right, hres, rfl⟩)
      · exact ⟨t, ht, hw, left, right, hres.of_le (le_trans hle hlater), rfl⟩
      · exact ⟨t, (mem_blockedTasks.1 ht).1, hw.of_le hle, left, right, hres, rfl⟩
    · rintro ⟨t, ht, hw, left, right, hres, rfl⟩
      -- the values it has at the end were there before the wave, or it waits for them
      rcases mem_readyTasks_or_blockedTasks ht hw with ⟨left', right', hres', -⟩ | hblocked
      · obtain ⟨rfl, rfl⟩ := hres.unique (hres'.of_le (le_trans hle hlater))
        exact .inl ⟨t, ht, hw, left, right, hres', rfl⟩
      · exact .inr ⟨t, hblocked, wanted_afterWave hd hblocked, left, right, hres, rfl⟩

theorem get?_store_runTasks (hd : Distinct pending) (n : Name) (v : Value) :
    (runTasks settings live s pending).store.get? n = some v ↔
      s.get? n = some v ∨
        ∃ a ∈ (runTasks settings live s pending).attempts,
          a.ready.target = n ∧ a.value? = some v := by
  induction s, pending, hd using runTasks_induct live with
  | idle s pending hd hr => simp [runTasks_of_idle hr, Run.attempts]
  | barren s pending hd hr hnone =>
    have hno : ¬ ∃ a ∈ (firstWave live s pending).attempts,
        a.ready.target = n ∧ a.value? = some v := by
      rintro ⟨a, ha, -, hv⟩
      obtain ⟨r, hr, rfl⟩ := List.mem_map.1 ha
      simp [hnone r hr] at hv
    rw [runTasks_of_barren hd hr hnone, attempts_singleton, or_iff_left hno]
  | fruitful s pending hd hr ih =>
    have hfirst : (∃ r ∈ readyTasks live s pending,
        r.target = n ∧ r.operator.apply r.left r.right = .ok v) ↔
        ∃ a ∈ (firstWave live s pending).attempts, a.ready.target = n ∧ a.value? = some v := by
      simp [firstWave, Ready.value?_attempt]
    rw [runTasks_of_fruitful hd hr, attempts_cons, ih,
      (hd.independent live s).get?_afterWave_iff n v, hfirst, or_assoc]
    simp only [List.mem_append, or_and_right, exists_or]

theorem size_store_runTasks (hd : Distinct pending) :
    (runTasks settings live s pending).store.size =
      s.size + (runTasks settings live s pending).report.computed := by
  induction s, pending, hd using runTasks_induct live with
  | idle s pending hd hr => simp [runTasks_of_idle hr, Run.report, Run.attempts]
  | barren s pending hd hr hnone =>
    have hsize := (hd.independent live s).size_afterWave
    rw [(hd.independent live s).afterWave_eq_self hnone] at hsize
    rw [runTasks_of_barren hd hr hnone]
    simp only [Run.report, attempts_singleton]
    exact hsize
  | fruitful s pending hd hr ih =>
    have hsize := (hd.independent live s).size_afterWave
    rw [runTasks_of_fruitful hd hr]
    simp only [Run.report, attempts_cons, List.filterMap_append, List.length_append,
      firstWave] at ih ⊢
    omega

end

end Wavefront
