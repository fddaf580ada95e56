import Wavefront.Proofs.Program.Numbering
import Wavefront.Proofs.Schedule.Translation
import Wavefront.Trace

set_option autoImplicit false

/-!
# Runs under other numbers

A run carries the numbers of its tasks along and decides nothing by them. If the tasks get other
numbers, so do the members of its waves and what it leaves unresolved, and nothing else changes.
Tasks that are not live may be left out from the start.
-/
namespace Wavefront

section
variable (f : Nat → Nat)

def Ready.renumber (r : Ready) : Ready := { r with index := f r.index }

def Attempt.renumber (a : Attempt) : Attempt := { a with ready := a.ready.renumber f }

def Wave.renumber (w : Wave) : Wave := { w with attempts := w.attempts.map (Attempt.renumber f) }

def Run.renumber (r : Run) : Run :=
  ⟨r.waves.map (Wave.renumber f), r.unresolved.map f, r.store⟩

def Discarded.renumber (d : Discarded) : Discarded := { d with index := f d.index }

def Report.renumber (r : Report) : Report :=
  { r with discarded := r.discarded.map (Discarded.renumber f), unresolved := r.unresolved.map f }

theorem Task.standing_renumber (live : NameSet) (s : Store) (t : Task) :
    (t.renumber f).standing live s = (t.standing live s).relabel id f := by
  have hdefinition : (t.renumber f).definition = t.definition := rfl
  by_cases hw : t.Wanted live s
  · have hw' : (t.renumber f).Wanted live s := hw
    rw [standing_of_wanted hw, standing_of_wanted hw', hdefinition]
    cases s.resolve t.definition.left <;> cases s.resolve t.definition.right <;> rfl
  · have hw' : ¬ (t.renumber f).Wanted live s := hw
    rw [standing_of_not_wanted hw, standing_of_not_wanted hw']
    rfl

def Translation.renumber (live : NameSet) : Translation live live where
  name := id
  number := f
  task := Task.renumber f
  store := id
  name_injective := Function.injective_id
  index_task _ := rfl
  target_task _ := rfl
  standing_task s t := t.standing_renumber f live s
  set_store _ _ _ := rfl

theorem runTasks_map_renumber (settings settings' : Settings) (live : NameSet) {s : Store}
    {pending : List Task} (hd : Distinct pending) :
    runTasks settings' live s (pending.map (Task.renumber f)) =
      (runTasks settings live s pending).renumber f :=
  (Translation.renumber f live).runTasks_map settings settings' hd

theorem Run.report_renumber (r : Run) : (r.renumber f).report = r.report.renumber f :=
  (Translation.renumber f ∅).report_run r

theorem Run.events_renumber (r : Run) : (r.renumber f).events = r.events := by
  have hid : Event.rename id = id := by
    funext e
    cases e <;> rfl
  have hevents := (Translation.renumber f ∅).events_run r
  change (r.renumber f).events = r.events.map (Event.rename id) at hevents
  rw [hevents, hid, List.map_id]

end

/-! ## Dead tasks -/

section
variable {live : NameSet} {pending : List Task} {keep : Task → Bool}

theorem standing_of_not_live {t : Task} (h : t.target ∉ live) (s : Store) :
    t.standing live s = .done :=
  Task.standing_of_not_wanted fun hw => h hw.1

theorem readyTasks_filter (h : ∀ t ∈ pending, keep t = false → t.target ∉ live) (s : Store) :
    readyTasks live s (pending.filter keep) = readyTasks live s pending := by
  unfold readyTasks
  rw [List.filterMap_filter]
  refine List.filterMap_congr fun t ht => ?_
  cases hk : keep t with
  | true => rfl
  | false => simp [standing_of_not_live (h t ht hk) s, Standing.ready?]

theorem blockedTasks_filter (h : ∀ t ∈ pending, keep t = false → t.target ∉ live) (s : Store) :
    blockedTasks live s (pending.filter keep) = blockedTasks live s pending := by
  unfold blockedTasks
  rw [List.filter_filter]
  refine List.filter_congr fun t ht => ?_
  cases hk : keep t with
  | true => simp
  | false => simp [standing_of_not_live (h t ht hk) s]

theorem runTasks_filter (settings : Settings) {s : Store} (hd : Distinct pending)
    (h : ∀ t ∈ pending, keep t = false → t.target ∉ live) :
    runTasks settings live s (pending.filter keep) = runTasks settings live s pending := by
  have hd' : Distinct (pending.filter keep) := hd.sublist (List.filter_sublist.map Task.target)
  have hready := readyTasks_filter h s
  have hblocked := blockedTasks_filter h s
  by_cases hidle : readyTasks live s pending = []
  · rw [runTasks_of_idle hidle, runTasks_of_idle (hready.trans hidle), hblocked]
  · by_cases hsome : ∃ r ∈ readyTasks live s pending, r.attempt.value?.isSome
    · have hsome' := hsome
      rw [← hready] at hsome'
      rw [runTasks_of_fruitful hd hsome, runTasks_of_fruitful hd' hsome', firstWave, firstWave,
        hready, hblocked]
    · have hnone : ∀ r ∈ readyTasks live s pending, r.attempt.value? = none := by
        simpa using hsome
      have hnone' := hnone
      have hbarren := hidle
      rw [← hready] at hnone' hbarren
      rw [runTasks_of_barren hd hidle hnone, runTasks_of_barren hd' hbarren hnone', firstWave,
        firstWave, hready, hblocked]

end

end Wavefront
