import Wavefront.Operation

set_option autoImplicit false

/-!
# Programs

A program is an operation list in which no variable is defined twice, kept together with the place
of each definition. `Program.ofOperations` accepts exactly those lists and otherwise points at the
first repeated definition.
-/
namespace Wavefront

/-- The defined variables, in order and as often as they are defined. -/
def definedNames (ops : List Operation) : List Name :=
  (ops.filterMap Operation.definition?).map Calc.target

@[simp] theorem definedNames_nil : definedNames [] = [] := rfl

@[simp] theorem definedNames_print (n : Name) (ops : List Operation) :
    definedNames (.print n :: ops) = definedNames ops := rfl

@[simp] theorem definedNames_define (c : Calc) (ops : List Operation) :
    definedNames (.define c :: ops) = c.target :: definedNames ops := rfl

/-- Operations are numbered from 0. -/
structure Duplicate where
  name : Name
  first : Nat
  second : Nat
deriving DecidableEq

def Duplicate.message (d : Duplicate) : String :=
  s!"variable `{d.name.text}` is defined by operation #{d.first} and again by operation #{d.second}"

/-- The defined variables, each with the number of its definition: those in `seen`, and those of
operations that are numbered from `i` on, unless one of these defines a variable again. -/
def gatherDefinitions (seen : NameMap Nat) (i : Nat) :
    List Operation → Except Duplicate (NameMap Nat)
  | [] => .ok seen
  | .print _ :: rest => gatherDefinitions seen (i + 1) rest
  | .define c :: rest =>
    match seen[c.target]? with
    | some first => .error ⟨c.target, first, i⟩
    | none => gatherDefinitions (seen.insert c.target i) (i + 1) rest

theorem nodup_of_gatherDefinitions {seen definitions : NameMap Nat} {i : Nat}
    {ops : List Operation} (h : gatherDefinitions seen i ops = .ok definitions) :
    (definedNames ops).Nodup ∧ ∀ n ∈ definedNames ops, n ∉ seen := by
  induction ops generalizing seen i with
  | nil => simp
  | cons o rest ih =>
    cases o with
    | print n => simpa using ih h
    | define c =>
      unfold gatherDefinitions at h
      split at h
      · simp at h
      · rename_i hc
        obtain ⟨hnodup, hfresh⟩ := ih h
        have hc : c.target ∉ seen := by simpa using hc
        refine ⟨?_, ?_⟩
        · rw [definedNames_define, List.nodup_cons]
          exact ⟨fun hmem => hfresh _ hmem (by simp), hnodup⟩
        · intro n hn
          rw [definedNames_define, List.mem_cons] at hn
          rcases hn with rfl | hn
          · exact hc
          · exact fun hseen => hfresh n hn (Std.ExtTreeMap.mem_insert.2 (.inr hseen))

structure Program where
  operations : List Operation
  definitions : NameMap Nat
  gathered : gatherDefinitions ∅ 0 operations = .ok definitions

namespace Program

theorem nodup (p : Program) : (definedNames p.operations).Nodup :=
  (nodup_of_gatherDefinitions p.gathered).1

def ofOperations (ops : List Operation) : Except Duplicate Program :=
  match h : gatherDefinitions ∅ 0 ops with
  | .error d => .error d
  | .ok definitions => .ok ⟨ops, definitions, h⟩

def empty : Program := ⟨[], ∅, rfl⟩

def size (p : Program) : Nat := p.operations.length

def isEmpty (p : Program) : Bool := p.operations.isEmpty

/-- The number of the operation that defines a variable. -/
def definitionOf? (p : Program) (n : Name) : Option Nat := p.definitions[n]?

end Program

/-- A definition with the number of its operation. -/
structure Task where
  index : Nat
  definition : Calc
deriving DecidableEq

def Task.target (t : Task) : Name := t.definition.target

/-- The definitions among operations that are numbered from `i` on. -/
def tasksFrom (i : Nat) : List Operation → List Task
  | [] => []
  | .print _ :: rest => tasksFrom (i + 1) rest
  | .define c :: rest => ⟨i, c⟩ :: tasksFrom (i + 1) rest

theorem map_target_tasksFrom (i : Nat) (ops : List Operation) :
    (tasksFrom i ops).map Task.target = definedNames ops := by
  induction ops generalizing i with
  | nil => rfl
  | cons o rest ih =>
    have := ih (i + 1)
    cases o <;> simp_all [tasksFrom, Task.target]

def Program.tasks (p : Program) : List Task := tasksFrom 0 p.operations

end Wavefront
