import Wavefront.Proofs.Program.Renaming
import Wavefront.Proofs.Schedule.Translation

set_option autoImplicit false

/-!
# Runs under other names

A run compares names with those of the live set and of the store, and does nothing else with them.
If all of these get new names, so do the members of its waves and what it stores, and the rest
stays as it is.
-/
namespace Wavefront

variable (f : Name ↪ Name)

namespace Store

def rename (s : Store) : Store := ⟨NameMap.rename f s.values⟩

@[simp] theorem get?_rename (s : Store) (n : Name) : (s.rename f).get? (f n) = s.get? n :=
  NameMap.getElem?_rename f s.values n

@[simp] theorem contains_rename (s : Store) (n : Name) :
    (s.rename f).contains (f n) = s.contains n := by
  rw [contains_eq_isSome, contains_eq_isSome, get?_rename]

@[simp] theorem resolve_rename (s : Store) (o : Operand) :
    (s.rename f).resolve (o.rename f) = s.resolve o := by
  cases o with
  | literal v => rfl
  | reference n => exact s.get?_rename f n

theorem set_rename (s : Store) (n : Name) (v : Value) :
    (s.rename f).set (f n) v = (s.set n v).rename f :=
  congrArg Store.mk (NameMap.rename_insert f s.values n v).symm

theorem rename_empty : Store.empty.rename f = Store.empty :=
  congrArg Store.mk (NameMap.rename_empty f)

end Store

theorem Task.wanted_rename_iff (live : NameSet) (s : Store) (t : Task) :
    (t.rename f).Wanted (NameSet.rename f live) (s.rename f) ↔ t.Wanted live s := by
  refine and_congr (NameSet.apply_mem_rename_iff f live t.target) ?_
  change (s.rename f).get? (f t.target) = none ↔ _
  rw [Store.get?_rename]

theorem Task.standing_rename (live : NameSet) (s : Store) (t : Task) :
    (t.rename f).standing (NameSet.rename f live) (s.rename f) =
      (t.standing live s).relabel f id := by
  have hleft : (s.rename f).resolve (t.rename f).definition.left = s.resolve t.definition.left :=
    s.resolve_rename f t.definition.left
  have hright : (s.rename f).resolve (t.rename f).definition.right =
      s.resolve t.definition.right := s.resolve_rename f t.definition.right
  by_cases hw : t.Wanted live s
  · have hw' := (t.wanted_rename_iff f live s).2 hw
    rw [standing_of_wanted hw, standing_of_wanted hw', hleft, hright]
    cases s.resolve t.definition.left <;> cases s.resolve t.definition.right <;> rfl
  · have hw' := mt (t.wanted_rename_iff f live s).1 hw
    rw [standing_of_not_wanted hw, standing_of_not_wanted hw']
    rfl

def Translation.rename (live : NameSet) : Translation live (NameSet.rename f live) where
  name := f
  number := id
  task := Task.rename f
  store := Store.rename f
  name_injective := f.injective
  index_task _ := rfl
  target_task _ := rfl
  standing_task s t := t.standing_rename f live s
  set_store s n v := s.set_rename f n v

theorem Program.run_rename (p : Program) (settings settings' : Settings) (live : NameSet)
    (s : Store) :
    (p.rename f).run settings' (NameSet.rename f live) (s.rename f) =
      (Translation.rename f live).run (p.run settings live s) := by
  rw [run, tasks_rename]
  exact (Translation.rename f live).runTasks_map settings settings' p.distinct_tasks

end Wavefront
