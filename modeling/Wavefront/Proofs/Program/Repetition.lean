import Mathlib.Order.Bounds.Basic
import Wavefront.Proofs.Program.Numbering

set_option autoImplicit false

/-!
# The first repeated definition

An operation list is checked from left to right, and what has been checked is remembered as the
variables defined so far, each with the number of its definition. So a list is rejected at the first
operation that defines a variable again, and there is one definition before it to point at.
-/
namespace Wavefront

def Defines (ops : List Operation) (i : Nat) (n : Name) : Prop :=
  ∃ c, ops[i]? = some (.define c) ∧ c.target = n

def Redefines (ops : List Operation) (i : Nat) : Prop :=
  ∃ n, Defines ops i n ∧ ∃ j < i, Defines ops j n

/-- What is said of the first repeated definition of an operation list. -/
structure Duplicate.Earliest (ops : List Operation) (d : Duplicate) : Prop where
  isLeast : IsLeast {i | Redefines ops i} d.second
  name : Defines ops d.second d.name
  first : ∀ i, i < d.second ∧ Defines ops i d.name ↔ i = d.first

/-- The map holds the variables that operations before number `k` define, each with the number of
the one operation there that defines it. -/
def Gathered (ops : List Operation) (k : Nat) (seen : NameMap Nat) : Prop :=
  ∀ n i, seen[n]? = some i ↔ i < k ∧ Defines ops i n

section
variable {ops : List Operation} {i j k : Nat} {n : Name} {seen : NameMap Nat}

theorem defines_iff_of_getElem? {c : Calc} (h : ops[i]? = some (.define c)) :
    Defines ops i n ↔ c.target = n := by
  simp [Defines, h]

theorem not_defines_of_getElem? {m : Name} (h : ops[i]? = some (.print m)) :
    ¬ Defines ops i n := by
  simp [Defines, h]

theorem Defines.unique {n' : Name} (h : Defines ops i n) (h' : Defines ops i n') : n = n' := by
  obtain ⟨c, hc, rfl⟩ := h
  exact (defines_iff_of_getElem? hc).1 h'

theorem gathered_zero (ops : List Operation) : Gathered ops 0 ∅ := by
  intro n i
  simp

theorem Gathered.succ_of_print (h : Gathered ops k seen) {m : Name}
    (ho : ops[k]? = some (.print m)) : Gathered ops (k + 1) seen := by
  intro n i
  rw [h n i]
  refine and_congr_left fun hdefines => ?_
  have hne : i ≠ k := by
    rintro rfl
    exact not_defines_of_getElem? ho hdefines
  omega

theorem Gathered.succ_of_define (h : Gathered ops k seen) {c : Calc}
    (ho : ops[k]? = some (.define c)) (hnew : seen[c.target]? = none) :
    Gathered ops (k + 1) (seen.insert c.target k) := by
  intro n i
  rw [Std.ExtTreeMap.getElem?_insert]
  by_cases hn : c.target = n
  · subst hn
    -- no operation before number `k` defines the variable
    have hbefore : ∀ i < k, ¬ Defines ops i c.target := by
      intro i hi hdefines
      simp [(h c.target i).2 ⟨hi, hdefines⟩] at hnew
    have hself : Defines ops k c.target := (defines_iff_of_getElem? ho).2 rfl
    simp only [Std.compare_self, if_true, Option.some.injEq]
    constructor
    · rintro rfl
      exact ⟨Nat.lt_succ_self k, hself⟩
    · rintro ⟨hi, hdefines⟩
      have hle : ¬ i < k := fun hlt => hbefore i hlt hdefines
      omega
  · have hne : compare c.target n ≠ .eq := fun heq => hn (Std.compare_eq_iff_eq.1 heq)
    rw [if_neg hne, h n i]
    refine and_congr_left fun hdefines => ?_
    have hik : i ≠ k := by
      rintro rfl
      exact hn ((defines_iff_of_getElem? ho).1 hdefines)
    omega

theorem Gathered.le_of_redefines (h : Gathered ops k seen) (hi : Redefines ops i) : k ≤ i := by
  obtain ⟨n, hdefines, j, hj, hdefines'⟩ := hi
  by_contra hlt
  have hi := (h n i).2 ⟨by omega, hdefines⟩
  have hj' := (h n j).2 ⟨by omega, hdefines'⟩
  have heq : i = j := Option.some.inj (hi.symm.trans hj')
  omega

theorem Gathered.earliest (h : Gathered ops k seen) {c : Calc} (ho : ops[k]? = some (.define c))
    {first : Nat} (hfirst : seen[c.target]? = some first) :
    Duplicate.Earliest ops ⟨c.target, first, k⟩ where
  isLeast :=
    ⟨⟨c.target, (defines_iff_of_getElem? ho).2 rfl, first, (h _ _).1 hfirst⟩,
      fun _ hi => h.le_of_redefines hi⟩
  name := (defines_iff_of_getElem? ho).2 rfl
  first i := by
    rw [← h c.target i, hfirst, Option.some.injEq, eq_comm]

/-- The check stops at the first repetition, if there is one behind what has been gathered. -/
theorem Gathered.earliest_of_gatherDefinitions (h : Gathered ops k seen) {rest : List Operation}
    (hrest : ops.drop k = rest) {d : Duplicate}
    (hd : gatherDefinitions seen k rest = .error d) : d.Earliest ops := by
  induction rest generalizing k seen with
  | nil => cases hd
  | cons o rest ih =>
    have ho : ops[k]? = some o := by
      rw [← List.head?_drop, hrest, List.head?_cons]
    have hrest' : ops.drop (k + 1) = rest := by
      rw [← List.tail_drop, hrest, List.tail_cons]
    cases o with
    | print m => exact ih (h.succ_of_print ho) hrest' hd
    | define c =>
      unfold gatherDefinitions at hd
      split at hd
      · rename_i first hfirst
        obtain rfl := Except.error.inj hd
        exact h.earliest ho hfirst
      · rename_i hnew
        exact ih (h.succ_of_define ho hnew) hrest' hd

end

theorem Duplicate.Earliest.unique {ops : List Operation} {d d' : Duplicate} (h : d.Earliest ops)
    (h' : d'.Earliest ops) : d = d' := by
  obtain ⟨name, first, second⟩ := d
  obtain ⟨name', first', second'⟩ := d'
  obtain rfl : second = second' := h.isLeast.unique h'.isLeast
  obtain rfl : name = name' := h.name.unique h'.name
  obtain rfl : first = first' := (h'.first first).1 ((h.first first).2 rfl)
  rfl

namespace Program

theorem not_redefines (p : Program) (i : Nat) : ¬ Redefines p.operations i := by
  rintro ⟨n, hi, j, hj, hdefines⟩
  have hi := (p.definitionOf?_eq_some_iff n i).2 hi
  have hj' := (p.definitionOf?_eq_some_iff n j).2 hdefines
  have heq : i = j := Option.some.inj (hi.symm.trans hj')
  omega

theorem ofOperations_eq_error_iff_earliest (ops : List Operation) (d : Duplicate) :
    ofOperations ops = .error d ↔ d.Earliest ops := by
  have hfound {d : Duplicate} (h : ofOperations ops = .error d) : d.Earliest ops :=
    (gathered_zero ops).earliest_of_gatherDefinitions rfl ((ofOperations_eq_error_iff ops d).1 h)
  refine ⟨hfound, fun h => ?_⟩
  cases hops : ofOperations ops with
  | ok p =>
    obtain rfl := (ofOperations_eq_ok_iff ops p).1 hops
    exact absurd h.isLeast.1 (p.not_redefines d.second)
  | error d' => rw [(hfound hops).unique h]

/-- An operation list is a program, and then left as it is, exactly if no two definitions are of one
variable. Otherwise the duplicate is the first definition of a variable that has one before, which
is the only one before. -/
theorem ofOperations_verdict (ops : List Operation) :
    ((∃ p, ofOperations ops = .ok p) ↔ (definedNames ops).Nodup) ∧
      (∀ p, ofOperations ops = .ok p → p.operations = ops ∧
        ∀ n i, p.definitionOf? n = some i ↔ Defines ops i n) ∧
        ∀ d, ofOperations ops = .error d ↔ d.Earliest ops := by
  refine ⟨exists_ofOperations_iff ops, ?_, ofOperations_eq_error_iff_earliest ops⟩
  intro p hp
  obtain rfl := (ofOperations_eq_ok_iff ops p).1 hp
  exact ⟨rfl, p.definitionOf?_eq_some_iff⟩

/-- A variable that is printed before and after its definition, and two that are defined again,
where the second is repeated first. -/
theorem ofOperations_verdict_nested :
    let x := Operation.define (Calc.ofTexts "x" "1" "+" "y")
    let y := Operation.define (Calc.ofTexts "y" "2" "?" "2")
    let accepted : List Operation := [.print ⟨"x"⟩, x, .print ⟨"x"⟩, y]
    let rejected : List Operation := [x, .print ⟨"y"⟩, y, y, x]
    let p : Program := .ofNodup accepted (by decide)
    let d : Duplicate := ⟨⟨"y"⟩, 2, 3⟩
    ofOperations accepted = .ok p ∧ p.operations = accepted ∧
      (∀ i, p.definitionOf? ⟨"x"⟩ = some i ↔ Defines accepted i ⟨"x"⟩) ∧
        ofOperations rejected = .error d ∧ d.Earliest rejected := by
  intro x y accepted rejected p d
  have haccepted : ofOperations accepted = .ok p := rfl
  have hrejected : ofOperations rejected = .error d := rfl
  obtain ⟨-, hok, -⟩ := ofOperations_verdict accepted
  obtain ⟨hsame, hdefinition⟩ := hok p haccepted
  obtain ⟨-, -, herror⟩ := ofOperations_verdict rejected
  exact ⟨haccepted, hsame, hdefinition ⟨"x"⟩, hrejected, (herror d).1 hrejected⟩

end Program

end Wavefront
