import Wavefront.Proofs.Schedule.Reordering
import Wavefront.Proofs.Schedule.Stages
import Wavefront.Trace

set_option autoImplicit false

/-!
# What a trace tells

The events of a run are the logs of its stages, one after the other, and the fixed point. So they
can be read without the run: played back on the first store, they end in the last one, and they
repeat what the report says.
-/
namespace Wavefront

namespace Event

def member? : Event → Option (Nat × Name)
  | computed wave n _ => some (wave, n)
  | discarded wave n _ => some (wave, n)
  | _ => none

def result? : Event → Option (Name × Value)
  | computed _ n v => some (n, v)
  | _ => none

def failure? : Event → Option (Name × DiscardReason)
  | discarded _ n reason => some (n, reason)
  | _ => none

end Event

def Store.replay (s : Store) (e : Event) : Store :=
  match e.result? with
  | some (n, v) => s.set n v
  | none => s

namespace Ready

def event (wave : Nat) (r : Ready) : Event :=
  match r.operator.apply r.left r.right with
  | .ok v => .computed wave r.target v
  | .error e => .discarded wave r.target (e.reason r.operator)

variable (wave : Nat) (r : Ready)

theorem event?_attempt : r.attempt.event? wave = some (r.event wave) := by
  unfold attempt Attempt.event? verdict event
  cases r.operator.apply r.left r.right with
  | ok v => rfl
  | error e => cases e <;> rfl

theorem member?_event : (r.event wave).member? = some (wave, r.target) := by
  unfold event
  cases r.operator.apply r.left r.right <;> rfl

theorem result?_event : (r.event wave).result? = r.attempt.value?.map fun v => (r.target, v) := by
  unfold attempt Attempt.value? verdict event
  cases r.operator.apply r.left r.right with
  | ok v => rfl
  | error e => cases e <;> rfl

theorem failure?_event :
    (r.event wave).failure? = r.attempt.discarded?.map Discarded.failure := by
  unfold attempt Attempt.discarded? Attempt.reason? verdict event
  cases r.operator.apply r.left r.right with
  | ok v => rfl
  | error e => cases e <;> rfl

theorem replay_event (s : Store) : s.replay (r.event wave) = s.settle r.attempt := by
  unfold Store.replay Store.settle
  rw [r.result?_event wave]
  cases r.attempt.value? <;> rfl

end Ready

def Stage.log (live : NameSet) (wave : Nat) (g : Stage) : List Event :=
  .waveStarted wave (g.ready live).length (g.blocked live).length ::
    (g.ready live).map (Ready.event wave)

theorem events_firstWave (live : NameSet) (wave : Nat) (g : Stage) :
    (firstWave live g.store g.pending).events wave = g.log live wave := by
  unfold Wave.events firstWave Stage.log
  rw [List.length_map, List.filterMap_map]
  refine congrArg (_ :: ·) ?_
  rw [← List.filterMap_eq_map]
  exact List.filterMap_congr fun r _ => r.event?_attempt wave

theorem eventsFrom_map_range (k n : Nat) (wave : Nat → Wave) :
    eventsFrom k ((List.range n).map wave) =
      (List.range n).flatMap fun i => (wave i).events (k + i) := by
  induction n generalizing k wave with
  | zero => rfl
  | succ n ih =>
    rw [List.range_succ_eq_map, List.map_cons, List.map_map, List.flatMap_cons, List.flatMap_map,
      eventsFrom, ih]
    simp only [Function.comp, Nat.add_zero, Nat.add_assoc, Nat.add_comm 1]

def stageLogs (live : NameSet) (s : Store) (pending : List Task) (n : Nat) : List Event :=
  (List.range n).flatMap fun k => (stageAt live s pending k).log live (k + 1)

section
variable {live : NameSet} {s : Store} {pending : List Task}

theorem stageLogs_succ (n : Nat) :
    stageLogs live s pending (n + 1) =
      stageLogs live s pending n ++ (stageAt live s pending n).log live (n + 1) := by
  simp [stageLogs, List.range_succ]

theorem replay_log (wave : Nat) (g : Stage) :
    (g.log live wave).foldl Store.replay g.store = (g.next live).store := by
  have hreplay : (fun u r => Store.replay u (Ready.event wave r)) =
      fun u r => Store.settle u (Ready.attempt r) := by
    funext u r
    exact r.replay_event wave u
  unfold Stage.log Stage.next Store.afterWave
  rw [List.foldl_cons, List.foldl_map, hreplay, List.foldl_map]
  rfl

theorem replay_stageLogs (n : Nat) :
    (stageLogs live s pending n).foldl Store.replay s = (stageAt live s pending n).store := by
  induction n with
  | zero => rfl
  | succ n ih =>
    rw [stageLogs_succ, List.foldl_append, ih, replay_log]
    rfl

def resultNames (log : List Event) : List Name := (log.filterMap Event.result?).map Prod.fst

theorem resultNames_append (log log' : List Event) :
    resultNames (log ++ log') = resultNames log ++ resultNames log' := by
  simp [resultNames]

theorem resultNames_log_sublist (wave : Nat) (g : Stage) :
    (resultNames (g.log live wave)).Sublist ((g.ready live).map Ready.target) := by
  change (List.map _ ((List.map _ (g.ready live)).filterMap _)).Sublist _
  rw [List.filterMap_map]
  refine map_filterMap_sublist (fun r x hx => ?_) (g.ready live)
  obtain ⟨v, -, rfl⟩ := Option.map_eq_some_iff.1 ((r.result?_event wave).symm.trans hx)
  rfl

theorem mem_resultNames_iff (log : List Event) (n : Name) :
    n ∈ resultNames log ↔ ∃ wave v, .computed wave n v ∈ log := by
  have hresult (e : Event) (v : Value) :
      e.result? = some (n, v) ↔ ∃ wave, e = .computed wave n v := by
    cases e <;> simp [Event.result?]
  simp only [resultNames, List.mem_map, List.mem_filterMap, Prod.exists, exists_and_right,
    exists_eq_right, hresult]
  constructor
  · rintro ⟨v, e, he, wave, rfl⟩
    exact ⟨wave, v, he⟩
  · rintro ⟨wave, v, he⟩
    exact ⟨v, _, he, wave, rfl⟩

theorem mem_log_iff (wave : Nat) (g : Stage) (e : Event) :
    e ∈ g.log live wave ↔
      e = .waveStarted wave (g.ready live).length (g.blocked live).length ∨
        ∃ r ∈ g.ready live, r.event wave = e := by
  simp [Stage.log]

theorem event_eq_computed_iff (r : Ready) (wave w : Nat) (n : Name) (v : Value) :
    r.event wave = .computed w n v ↔
      w = wave ∧ r.target = n ∧ r.operator.apply r.left r.right = .ok v := by
  unfold Ready.event
  cases r.operator.apply r.left r.right <;> simp [eq_comm]

theorem computed_mem_log_iff (wave w : Nat) {g : Stage} (hd : Distinct g.pending) (n : Name)
    (v : Value) :
    .computed w n v ∈ g.log live wave ↔
      w = wave ∧ g.store.get? n = none ∧ (g.next live).store.get? n = some v := by
  have hi := hd.independent live g.store
  have hnext := hi.get?_afterWave_iff n v
  rw [mem_log_iff, or_iff_right (by simp)]
  simp only [event_eq_computed_iff]
  constructor
  · rintro ⟨r, hr, hw, rfl, hok⟩
    exact ⟨hw, hi.absent r hr, hnext.2 (.inr ⟨r, hr, rfl, hok⟩)⟩
  · rintro ⟨hw, hnone, hsome⟩
    obtain ⟨r, hr, htarget, hok⟩ := (hnext.1 hsome).resolve_left (by simp [hnone])
    exact ⟨r, hr, hw, htarget, hok⟩

theorem computed_mem_stageLogs_iff (hd : Distinct pending) (k w : Nat) (n : Name) (v : Value) :
    .computed w n v ∈ stageLogs live s pending k ↔
      ∃ j < k, w = j + 1 ∧ (stageAt live s pending j).store.get? n = none ∧
        (stageAt live s pending (j + 1)).store.get? n = some v := by
  simp only [stageLogs, List.mem_flatMap, List.mem_range,
    computed_mem_log_iff _ _ (distinct_stageAt hd _)]
  rfl

theorem nodup_resultNames_stageLogs (hd : Distinct pending) (k : Nat) :
    (resultNames (stageLogs live s pending k)).Nodup := by
  induction k with
  | zero => exact List.nodup_nil
  | succ k ih =>
    rw [stageLogs_succ, resultNames_append, List.nodup_append]
    refine ⟨ih, (independent_stageAt hd k).nodup.sublist (resultNames_log_sublist _ _), ?_⟩
    rintro n hn _ hlater rfl
    obtain ⟨w, v, hearlier⟩ := (mem_resultNames_iff _ n).1 hn
    obtain ⟨j, hj, -, -, hsome⟩ := (computed_mem_stageLogs_iff hd k w n v).1 hearlier
    obtain ⟨w', v', hlast⟩ := (mem_resultNames_iff _ n).1 hlater
    have hnone := ((computed_mem_log_iff _ w' (distinct_stageAt hd k) n v').1 hlast).2.1
    have hle : (stageAt live s pending (j + 1)).store ≤ (stageAt live s pending k).store :=
      store_stageAt_mono hd (Nat.succ_le_of_lt hj)
    have hkept := hle n v hsome
    rw [hnone] at hkept
    cases hkept

theorem countP_member?_log (wave j : Nat) (g : Stage) :
    ((g.log live wave).filterMap Event.member?).countP (fun m => m.1 = j) =
      if wave = j then (g.ready live).length else 0 := by
  have hmembers : (g.log live wave).filterMap Event.member? =
      (g.ready live).map fun r => (wave, r.target) := by
    unfold Stage.log
    rw [List.filterMap_cons, List.filterMap_map, ← List.filterMap_eq_map]
    exact List.filterMap_congr fun r _ => r.member?_event wave
  rw [hmembers, List.countP_map]
  by_cases hj : wave = j <;> simp [Function.comp_def, hj]

theorem countP_member?_stageLogs (j k : Nat) :
    ((stageLogs live s pending k).filterMap Event.member?).countP (fun m => m.1 = j + 1) =
      if j < k then ((stageAt live s pending j).ready live).length else 0 := by
  induction k with
  | zero => rfl
  | succ k ih =>
    rw [stageLogs_succ, List.filterMap_append, List.countP_append, ih, countP_member?_log]
    rcases Nat.lt_trichotomy j k with hj | rfl | hj
    · rw [if_pos hj, if_neg (by omega), if_pos (by omega), Nat.add_zero]
    · rw [if_neg (Nat.lt_irrefl j), if_pos rfl, if_pos (Nat.lt_succ_self j), Nat.zero_add]
    · rw [if_neg (by omega), if_neg (by omega), if_neg (by omega)]

end

section
variable (settings : Settings) (live : NameSet) {s : Store} {pending : List Task}

theorem events_runTasks (hd : Distinct pending) :
    (runTasks settings live s pending).events =
      stageLogs live s pending (runTasks settings live s pending).report.waves ++
        [.fixedPoint (runTasks settings live s pending).report.waves
          (runTasks settings live s pending).report.computed
          (runTasks settings live s pending).report.unresolved.length] := by
  unfold Run.events
  rw [waves_runTasks settings live hd, eventsFrom_map_range]
  simp only [events_firstWave, Nat.add_comm 1]
  rfl

theorem attempts_runTasks (hd : Distinct pending) :
    (runTasks settings live s pending).attempts =
      (List.range (runTasks settings live s pending).report.waves).flatMap fun k =>
        ((stageAt live s pending k).ready live).map Ready.attempt := by
  rw [Run.attempts, waves_runTasks settings live hd, List.flatMap_map]
  rfl

theorem filterMap_failure?_stageLogs (hd : Distinct pending) :
    (stageLogs live s pending (runTasks settings live s pending).report.waves).filterMap
        Event.failure? =
      (runTasks settings live s pending).report.discarded.map Discarded.failure := by
  have hlog (wave : Nat) (g : Stage) : (g.log live wave).filterMap Event.failure? =
      (((g.ready live).map Ready.attempt).filterMap Attempt.discarded?).map Discarded.failure := by
    unfold Stage.log
    rw [List.filterMap_cons, List.filterMap_map, List.filterMap_map, List.map_filterMap]
    exact List.filterMap_congr fun r _ => r.failure?_event wave
  change _ = (List.filterMap _ (runTasks settings live s pending).attempts).map _
  rw [attempts_runTasks settings live hd, stageLogs, List.filterMap_flatMap,
    List.filterMap_flatMap, List.map_flatMap]
  simp only [hlog]

end

theorem waveStarted_mem_stageLogs_iff (live : NameSet) (s : Store) (pending : List Task)
    (k wave ready blocked : Nat) :
    .waveStarted wave ready blocked ∈ stageLogs live s pending k ↔
      ∃ j < k, wave = j + 1 ∧ ready = ((stageAt live s pending j).ready live).length ∧
        blocked = ((stageAt live s pending j).blocked live).length := by
  have hevent (r : Ready) (w : Nat) : r.event w ≠ .waveStarted wave ready blocked := by
    unfold Ready.event
    cases r.operator.apply r.left r.right <;> simp
  simp [stageLogs, mem_log_iff, hevent]

/-! ## In the order of the program -/

theorem Numbered.ready_stageAt {pending : List Task} (hn : Numbered pending) (live : NameSet)
    (s : Store) (k : Nat) :
    (((stageAt live s pending k).ready live).map Ready.index).Pairwise (· < ·) :=
  hn.sublist ((map_index_readyTasks_sublist live _ _).trans
    ((pending_stageAt_sublist k).map Task.index))

/-- A log that tells of a run of `p` from `s`: for each wave its start and what came of its
members, in the order of the program, and the fixed point at the end. What it tells agrees with
the last store and with the report. -/
structure Run.ToldBy (r : Run) (p : Program) (live : NameSet) (s : Store) (log : List Event) :
    Prop where
  shape : log = stageLogs live s p.tasks r.report.waves ++
    [.fixedPoint r.report.waves r.report.computed r.report.unresolved.length]
  order : ∀ k, (((stageAt live s p.tasks k).ready live).map Ready.index).Pairwise (· < ·)
  replay : log.foldl Store.replay s = r.store
  once : (resultNames log).Nodup
  fresh : ∀ n ∈ resultNames log, s.get? n = none
  failures : log.filterMap Event.failure? = r.report.discarded.map Discarded.failure
  members : ∀ wave ready blocked, .waveStarted wave ready blocked ∈ log →
    ready = (log.filterMap Event.member?).countP fun m => m.1 = wave
  passedOn : ∀ wave ready blocked ready' blocked', .waveStarted wave ready blocked ∈ log →
    .waveStarted (wave + 1) ready' blocked' ∈ log → blocked = ready' + blocked'
  left : ∀ ready blocked, .waveStarted r.report.waves ready blocked ∈ log →
    blocked = r.report.unresolved.length

/-- What a run adds to a buffer tells of it, and the buffer keeps what it held before. -/
theorem Program.told_run (p : Program) (settings : Settings) (live : NameSet) (s : Store)
    (earlier : List Event) :
    ∃ log, (Sink.buffer earlier).reportAll (p.run settings live s).events =
        .buffer (earlier ++ log) ∧
      (p.run settings live s).ToldBy p live s log := by
  have hd := p.distinct_tasks
  have hshape := events_runTasks settings live (s := s) hd
  have hstarted (wave ready blocked : Nat) :
      .waveStarted wave ready blocked ∈ (p.run settings live s).events ↔
        .waveStarted wave ready blocked ∈
          stageLogs live s p.tasks (p.run settings live s).report.waves := by
    rw [Program.run, hshape, List.mem_append, or_iff_left (by simp)]
  have hresults : resultNames (p.run settings live s).events =
      resultNames (stageLogs live s p.tasks (p.run settings live s).report.waves) := by
    rw [Program.run, hshape, resultNames_append]
    exact List.append_nil _
  refine ⟨(p.run settings live s).events, rfl, ?_⟩
  constructor
  case shape => exact hshape
  case order => exact p.numbered_tasks.ready_stageAt live s
  case replay =>
    have hstore := store_runTasks_eq_stageAt settings live (s := s) hd
    rw [Program.run, hshape, List.foldl_append, replay_stageLogs, ← hstore]
    rfl
  case once =>
    rw [hresults]
    exact nodup_resultNames_stageLogs hd _
  case fresh =>
    rw [hresults]
    intro n hn
    obtain ⟨wave, v, hmem⟩ := (mem_resultNames_iff _ n).1 hn
    obtain ⟨k, -, -, hnone, -⟩ := (computed_mem_stageLogs_iff hd _ wave n v).1 hmem
    have hle : s ≤ (stageAt live s p.tasks k).store := store_stageAt_mono hd (Nat.zero_le k)
    exact Store.get?_eq_none_of_le hle hnone
  case failures =>
    have hfailures := filterMap_failure?_stageLogs settings live (s := s) hd
    rw [Program.run, hshape, List.filterMap_append, hfailures]
    exact List.append_nil _
  case members =>
    intro wave ready blocked hmem
    obtain ⟨k, hk, rfl, rfl, -⟩ :=
      (waveStarted_mem_stageLogs_iff live s p.tasks _ _ _ _).1 ((hstarted _ _ _).1 hmem)
    rw [Program.run, hshape, List.filterMap_append, List.countP_append, countP_member?_stageLogs]
    exact (if_pos hk).symm
  case passedOn =>
    intro wave ready blocked ready' blocked' hmem hmem'
    obtain ⟨k, -, rfl, -, rfl⟩ :=
      (waveStarted_mem_stageLogs_iff live s p.tasks _ _ _ _).1 ((hstarted _ _ _).1 hmem)
    obtain ⟨k', -, heq, rfl, rfl⟩ :=
      (waveStarted_mem_stageLogs_iff live s p.tasks _ _ _ _).1 ((hstarted _ _ _).1 hmem')
    obtain rfl : k' = k + 1 := by omega
    exact length_pending_stageAt hd k
  case left =>
    intro ready blocked hmem
    obtain ⟨k, -, hwaves, -, rfl⟩ :=
      (waveStarted_mem_stageLogs_iff live s p.tasks _ _ _ _).1 ((hstarted _ _ _).1 hmem)
    -- nothing is ready at the stage where the run stops
    have hready := ready_stageAt_waves settings live (s := s) hd
    have hunresolved := unresolved_runTasks_of_waves settings live hd hwaves
    have hpending : (stageAt live s p.tasks (k + 1)).pending.length = _ :=
      length_pending_stageAt hd k
    change (runTasks settings live s p.tasks).report.waves = k + 1 at hwaves
    rw [hwaves] at hready
    rw [hready, List.length_nil, Nat.zero_add] at hpending
    change _ = (runTasks settings live s p.tasks).unresolved.length
    rw [hunresolved, List.length_map]
    exact hpending

end Wavefront
