import Wavefront.Proofs.Schedule.Run
import Wavefront.Trace

set_option autoImplicit false

/-!
# Translations of runs

A translation gives names and numbers other names and numbers, different names to different ones,
and replaces tasks and stores so that the standing of every task in every store is translated
along. It then takes each wave to a wave, and so a run, its report and its events to those of the
translated tasks.
-/
namespace Wavefront

section
variable (name : Name → Name) (number : Nat → Nat)

def Ready.relabel (r : Ready) : Ready :=
  { r with index := number r.index, target := name r.target }

def Attempt.relabel (a : Attempt) : Attempt := { a with ready := a.ready.relabel name number }

def Wave.relabel (w : Wave) : Wave :=
  { w with attempts := w.attempts.map (Attempt.relabel name number) }

def Discarded.relabel (d : Discarded) : Discarded :=
  { d with index := number d.index, target := name d.target }

def Report.relabel (r : Report) : Report :=
  { r with
    discarded := r.discarded.map (Discarded.relabel name number)
    unresolved := r.unresolved.map number }

def Event.rename : Event → Event
  | waveStarted wave ready blocked => waveStarted wave ready blocked
  | computed wave n value => computed wave (name n) value
  | discarded wave n reason => discarded wave (name n) reason
  | fixedPoint waves stored unresolved => fixedPoint waves stored unresolved

def Standing.relabel : Standing → Standing
  | done => done
  | ready r => ready (r.relabel name number)
  | blocked => blocked

end

structure Translation (live live' : NameSet) where
  name : Name → Name
  number : Nat → Nat
  task : Task → Task
  store : Store → Store
  name_injective : Function.Injective name
  index_task (t : Task) : (task t).index = number t.index
  target_task (t : Task) : (task t).target = name t.target
  standing_task (s : Store) (t : Task) :
    (task t).standing live' (store s) = (t.standing live s).relabel name number
  set_store (s : Store) (n : Name) (v : Value) : (store s).set (name n) v = store (s.set n v)

namespace Translation

variable {live live' : NameSet} (T : Translation live live')

def run (r : Run) : Run :=
  ⟨r.waves.map (Wave.relabel T.name T.number), r.unresolved.map T.number, T.store r.store⟩

theorem distinct_map {pending : List Task} (hd : Distinct pending) :
    Distinct (pending.map T.task) := by
  have htargets : (pending.map T.task).map Task.target =
      (pending.map Task.target).map T.name := by
    rw [List.map_map, List.map_map]
    exact List.map_congr_left fun t _ => T.target_task t
  unfold Distinct
  rw [htargets]
  exact hd.map T.name_injective

theorem readyTasks_map (s : Store) (pending : List Task) :
    readyTasks live' (T.store s) (pending.map T.task) =
      (readyTasks live s pending).map (Ready.relabel T.name T.number) := by
  unfold readyTasks
  rw [List.filterMap_map, List.map_filterMap]
  refine List.filterMap_congr fun t _ => ?_
  rw [Function.comp, T.standing_task]
  cases t.standing live s <;> rfl

theorem blockedTasks_map (s : Store) (pending : List Task) :
    blockedTasks live' (T.store s) (pending.map T.task) =
      (blockedTasks live s pending).map T.task := by
  unfold blockedTasks
  rw [List.filter_map]
  refine congrArg _ (List.filter_congr fun t _ => ?_)
  rw [Function.comp, T.standing_task]
  cases t.standing live s <;> rfl

theorem settle_relabel (s : Store) (a : Attempt) :
    (T.store s).settle (a.relabel T.name T.number) = T.store (s.settle a) := by
  have hvalue : (a.relabel T.name T.number).value? = a.value? := rfl
  cases hv : a.value? with
  | none =>
    rw [Store.settle_of_value?_eq_none hv, Store.settle_of_value?_eq_none (hvalue.trans hv)]
  | some v =>
    rw [Store.settle_of_value? hv, Store.settle_of_value? (hvalue.trans hv)]
    exact T.set_store s a.ready.target v

theorem afterWave_map (s : Store) (ready : List Ready) :
    (T.store s).afterWave (ready.map (Ready.relabel T.name T.number)) =
      T.store (s.afterWave ready) := by
  have hattempts : (ready.map (Ready.relabel T.name T.number)).map Ready.attempt =
      (ready.map Ready.attempt).map (Attempt.relabel T.name T.number) := by
    rw [List.map_map, List.map_map]
    rfl
  unfold Store.afterWave
  rw [hattempts, List.foldl_map]
  exact List.foldl_hom T.store T.settle_relabel

theorem firstWave_map (s : Store) (pending : List Task) :
    firstWave live' (T.store s) (pending.map T.task) =
      (firstWave live s pending).relabel T.name T.number := by
  unfold firstWave Wave.relabel
  rw [T.readyTasks_map, T.blockedTasks_map, List.length_map, List.map_map, List.map_map]
  rfl

theorem map_index_task (pending : List Task) :
    (pending.map T.task).map Task.index = (pending.map Task.index).map T.number := by
  rw [List.map_map, List.map_map]
  exact List.map_congr_left fun t _ => T.index_task t

theorem runTasks_map (settings settings' : Settings) {s : Store} {pending : List Task}
    (hd : Distinct pending) :
    runTasks settings' live' (T.store s) (pending.map T.task) =
      T.run (runTasks settings live s pending) := by
  induction s, pending, hd using runTasks_induct live with
  | idle s pending hd hr =>
    have hr' : readyTasks live' (T.store s) (pending.map T.task) = [] := by
      rw [T.readyTasks_map, hr]
      rfl
    rw [runTasks_of_idle hr, runTasks_of_idle hr', T.blockedTasks_map, T.map_index_task]
    rfl
  | barren s pending hd hr hnone =>
    have hr' : readyTasks live' (T.store s) (pending.map T.task) ≠ [] := by
      rw [T.readyTasks_map]
      exact mt List.map_eq_nil_iff.1 hr
    have hnone' : ∀ r ∈ readyTasks live' (T.store s) (pending.map T.task),
        r.attempt.value? = none := by
      rw [T.readyTasks_map, List.forall_mem_map]
      exact hnone
    rw [runTasks_of_barren hd hr hnone, runTasks_of_barren (T.distinct_map hd) hr' hnone',
      T.blockedTasks_map, T.map_index_task, T.firstWave_map]
    rfl
  | fruitful s pending hd hr ih =>
    have hr' : ∃ r ∈ readyTasks live' (T.store s) (pending.map T.task),
        r.attempt.value?.isSome := by
      obtain ⟨r, hmem, hvalue⟩ := hr
      rw [T.readyTasks_map]
      exact ⟨r.relabel T.name T.number, List.mem_map_of_mem hmem, hvalue⟩
    rw [runTasks_of_fruitful hd hr, runTasks_of_fruitful (T.distinct_map hd) hr', T.firstWave_map,
      T.blockedTasks_map, T.readyTasks_map, T.afterWave_map, ih]
    rfl

theorem attempts_run (r : Run) :
    (T.run r).attempts = r.attempts.map (Attempt.relabel T.name T.number) := by
  unfold Run.attempts run
  rw [List.flatMap_map, List.map_flatMap]
  rfl

theorem report_run (r : Run) : (T.run r).report = r.report.relabel T.name T.number := by
  have hdiscarded : Attempt.discarded? ∘ Attempt.relabel T.name T.number =
      fun a => a.discarded?.map (Discarded.relabel T.name T.number) := by
    funext a
    unfold Attempt.discarded?
    rw [Option.map_map]
    rfl
  have hwaves : (T.run r).waves.length = r.waves.length := List.length_map _
  unfold Run.report Report.relabel
  rw [T.attempts_run, List.filterMap_map, List.filterMap_map, List.map_filterMap, hdiscarded,
    hwaves]
  rfl

theorem events_relabel (k : Nat) (w : Wave) :
    (w.relabel T.name T.number).events k = (w.events k).map (Event.rename T.name) := by
  have hevent (a : Attempt) : (a.relabel T.name T.number).event? k =
      (a.event? k).map (Event.rename T.name) := by
    obtain ⟨r, outcome⟩ := a
    cases outcome <;> rfl
  unfold Wave.events Wave.relabel
  rw [List.length_map, List.filterMap_map, List.map_cons, List.map_filterMap]
  exact congrArg (_ :: ·) (List.filterMap_congr fun a _ => hevent a)

theorem eventsFrom_map_relabel (k : Nat) (waves : List Wave) :
    eventsFrom k (waves.map (Wave.relabel T.name T.number)) =
      (eventsFrom k waves).map (Event.rename T.name) := by
  induction waves generalizing k with
  | nil => rfl
  | cons w rest ih =>
    rw [List.map_cons, eventsFrom, eventsFrom, List.map_append, T.events_relabel, ih]

theorem events_run (r : Run) : (T.run r).events = r.events.map (Event.rename T.name) := by
  have hwaves : (T.run r).waves = r.waves.map (Wave.relabel T.name T.number) := rfl
  unfold Run.events
  rw [T.report_run, hwaves, T.eventsFrom_map_relabel, List.map_append]
  simp [Report.relabel, Event.rename]

end Translation

end Wavefront
