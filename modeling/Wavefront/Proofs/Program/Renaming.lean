import Wavefront.Proofs.Name.Renaming
import Wavefront.Proofs.Program.Numbering

set_option autoImplicit false

/-!
# Programs under other names

An operation list is renamed by giving its targets and references their new names; literals stay
literals, and a reference stays one whatever its new name looks like. The renamed list is a program
exactly if the list is, and otherwise has its first duplicate in the same place.
-/
namespace Wavefront

variable (f : Name ↪ Name)

def Operand.rename : Operand → Operand
  | literal v => literal v
  | reference n => reference (f n)

def Calc.rename (c : Calc) : Calc :=
  { c with target := f c.target, left := c.left.rename f, right := c.right.rename f }

def Operation.rename : Operation → Operation
  | define c => define (c.rename f)
  | print n => print (f n)

def Duplicate.rename (d : Duplicate) : Duplicate := { d with name := f d.name }

def Task.rename (t : Task) : Task := { t with definition := t.definition.rename f }

theorem Operand.reference?_rename (o : Operand) :
    (o.rename f).reference? = o.reference?.map f := by
  cases o <;> rfl

theorem Calc.references_rename (c : Calc) : (c.rename f).references = c.references.map f := by
  unfold references
  rw [List.map_filterMap]
  simp only [← Operand.reference?_rename]
  rfl

theorem map_printed?_rename (ops : List Operation) :
    (ops.map (Operation.rename f)).filterMap Operation.printed? =
      (ops.filterMap Operation.printed?).map f := by
  rw [List.filterMap_map, List.map_filterMap]
  refine List.filterMap_congr fun o _ => ?_
  cases o <;> rfl

theorem map_definition?_rename (ops : List Operation) :
    (ops.map (Operation.rename f)).filterMap Operation.definition? =
      (ops.filterMap Operation.definition?).map (Calc.rename f) := by
  rw [List.filterMap_map, List.map_filterMap]
  refine List.filterMap_congr fun o _ => ?_
  cases o <;> rfl

theorem tasksFrom_map_rename (i : Nat) (ops : List Operation) :
    tasksFrom i (ops.map (Operation.rename f)) = (tasksFrom i ops).map (Task.rename f) := by
  induction ops generalizing i with
  | nil => rfl
  | cons o rest ih =>
    cases o with
    | define c => exact congrArg (_ :: ·) (ih (i + 1))
    | print n => exact ih (i + 1)

theorem gatherDefinitions_map_rename (seen : NameMap Nat) (i : Nat) (ops : List Operation) :
    gatherDefinitions (NameMap.rename f seen) i (ops.map (Operation.rename f)) =
      ((gatherDefinitions seen i ops).map (NameMap.rename f)).mapError (Duplicate.rename f) := by
  induction ops generalizing seen i with
  | nil => rfl
  | cons o rest ih =>
    cases o with
    | print n => exact ih seen (i + 1)
    | define c =>
      have htarget : (NameMap.rename f seen)[(c.rename f).target]? = seen[c.target]? :=
        NameMap.getElem?_rename f seen c.target
      rw [List.map_cons, Operation.rename, gatherDefinitions, gatherDefinitions, htarget]
      cases seen[c.target]? with
      | some first => rfl
      | none =>
        have hinsert := NameMap.rename_insert f seen c.target i
        exact hinsert ▸ ih (seen.insert c.target i) (i + 1)

namespace Program

def rename (p : Program) : Program where
  operations := p.operations.map (Operation.rename f)
  definitions := NameMap.rename f p.definitions
  gathered := by
    rw [← NameMap.rename_empty f, gatherDefinitions_map_rename, p.gathered]
    rfl

theorem tasks_rename (p : Program) : (p.rename f).tasks = p.tasks.map (Task.rename f) :=
  tasksFrom_map_rename f 0 p.operations

theorem ofOperations_map_rename (ops : List Operation) :
    ofOperations (ops.map (Operation.rename f)) =
      ((ofOperations ops).map (rename f)).mapError (Duplicate.rename f) := by
  cases h : ofOperations ops with
  | ok p =>
    obtain rfl := (ofOperations_eq_ok_iff ops p).1 h
    exact (ofOperations_eq_ok_iff _ _).2 rfl
  | error d =>
    have hfound := gatherDefinitions_map_rename f ∅ 0 ops
    rw [NameMap.rename_empty, (ofOperations_eq_error_iff ops d).1 h] at hfound
    exact (ofOperations_eq_error_iff _ _).2 hfound

end Program

end Wavefront
