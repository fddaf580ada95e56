import Mathlib.Data.List.Nodup
import Wavefront.Program

set_option autoImplicit false

/-!
# Numbered definitions

The tasks of a program are its definitions, each with its place in the operation list and in the
order of these places. An operation list is accepted as a program, and then left as it is,
exactly when it defines no variable twice.
-/
namespace Wavefront

theorem mem_tasksFrom_iff (i : Nat) (ops : List Operation) (t : Task) :
    t ∈ tasksFrom i ops ↔ i ≤ t.index ∧ ops[t.index - i]? = some (.define t.definition) := by
  obtain ⟨k, c⟩ := t
  induction ops generalizing i with
  | nil => simp [tasksFrom]
  | cons o rest ih =>
    -- the place of a task is either the first one or a place of the rest
    have hlater (hk : i < k) : (o :: rest)[k - i]? = rest[k - (i + 1)]? := by
      have hsucc : k - i = (k - (i + 1)) + 1 := by omega
      rw [hsucc, List.getElem?_cons_succ]
    have hrest : ⟨k, c⟩ ∈ tasksFrom (i + 1) rest ↔
        i < k ∧ (o :: rest)[k - i]? = some (.define c) := by
      rw [ih]
      exact and_congr_right fun hk => by rw [hlater hk]
    rcases Nat.lt_trichotomy i k with hk | rfl | hk
    · have hne : i ≠ k := by omega
      cases o <;> simp [tasksFrom, hrest, hk, hne.symm, Nat.le_of_lt hk]
    · cases o <;> simp [tasksFrom, hrest, eq_comm]
    · have hne : i ≠ k := by omega
      have hnot : ¬ i ≤ k := by omega
      have hnlt : ¬ i < k := by omega
      cases o <;> simp [tasksFrom, hrest, hnot, hnlt, hne.symm]

def Numbered (pending : List Task) : Prop := (pending.map Task.index).Pairwise (· < ·)

theorem Numbered.nodup {pending : List Task} (h : Numbered pending) :
    (pending.map Task.index).Nodup :=
  h.imp Nat.ne_of_lt

theorem Numbered.eq_of_index_eq {pending : List Task} (h : Numbered pending) {t u : Task}
    (ht : t ∈ pending) (hu : u ∈ pending) (heq : t.index = u.index) : t = u :=
  List.inj_on_of_nodup_map h.nodup ht hu heq

theorem numbered_tasksFrom (i : Nat) (ops : List Operation) : Numbered (tasksFrom i ops) := by
  induction ops generalizing i with
  | nil => exact List.Pairwise.nil
  | cons o rest ih =>
    cases o with
    | print n => exact ih (i + 1)
    | define c =>
      refine List.Pairwise.cons ?_ (ih (i + 1))
      intro k hk
      obtain ⟨t, ht, rfl⟩ := List.mem_map.1 hk
      have hle := ((mem_tasksFrom_iff (i + 1) rest t).1 ht).1
      change i < t.index
      omega

def Task.renumber (f : Nat → Nat) (t : Task) : Task := { t with index := f t.index }

/-- Definitions are gathered exactly when every variable is new where it is defined. -/
theorem exists_gatherDefinitions_iff (seen : NameMap Nat) (i : Nat) (ops : List Operation) :
    (∃ definitions, gatherDefinitions seen i ops = .ok definitions) ↔
      (definedNames ops).Nodup ∧ ∀ n ∈ definedNames ops, n ∉ seen := by
  refine ⟨fun ⟨_, h⟩ => nodup_of_gatherDefinitions h, ?_⟩
  rintro ⟨hnodup, hfresh⟩
  induction ops generalizing seen i with
  | nil => exact ⟨seen, rfl⟩
  | cons o rest ih =>
    cases o with
    | print n => exact ih seen (i + 1) hnodup hfresh
    | define c =>
      rw [definedNames_define] at hnodup hfresh
      obtain ⟨hc, hrest⟩ := List.nodup_cons.1 hnodup
      have hnone : seen[c.target]? = none := by
        simpa using hfresh c.target List.mem_cons_self
      rw [gatherDefinitions, hnone]
      refine ih _ (i + 1) hrest ?_
      intro n hn hmem
      rcases Std.ExtTreeMap.mem_insert.1 hmem with heq | hseen
      · have htarget : c.target = n := Std.compare_eq_iff_eq.1 heq
        exact hc (htarget ▸ hn)
      · exact hfresh n (List.mem_cons_of_mem c.target hn) hseen

theorem getElem?_of_gatherDefinitions {seen definitions : NameMap Nat} {i : Nat}
    {ops : List Operation} (h : gatherDefinitions seen i ops = .ok definitions) (n : Name)
    (k : Nat) :
    definitions[n]? = some k ↔
      seen[n]? = some k ∨ ∃ t ∈ tasksFrom i ops, t.index = k ∧ t.target = n := by
  induction ops generalizing seen i with
  | nil =>
    obtain rfl := Except.ok.inj h
    simp [tasksFrom]
  | cons o rest ih =>
    cases o with
    | print m => exact ih h
    | define c =>
      unfold gatherDefinitions at h
      split at h
      · cases h
      · rename_i hnew
        have hinsert : (seen.insert c.target i)[n]? = some k ↔
            seen[n]? = some k ∨ i = k ∧ c.target = n := by
          rw [Std.ExtTreeMap.getElem?_insert]
          by_cases hn : c.target = n
          · subst hn
            simp [hnew]
          · simp [hn]
        rw [ih h, hinsert, or_assoc, tasksFrom]
        simp [Task.target]

namespace Program

def ofNodup (ops : List Operation) (h : (definedNames ops).Nodup) : Program where
  operations := ops
  definitions := (gatherDefinitions ∅ 0 ops).toOption.getD ∅
  gathered := by
    obtain ⟨definitions, hgathered⟩ :=
      (exists_gatherDefinitions_iff ∅ 0 ops).2 ⟨h, fun _ _ => Std.ExtTreeMap.not_mem_empty⟩
    rw [hgathered]
    rfl

theorem mem_tasks_iff (p : Program) (t : Task) :
    t ∈ p.tasks ↔ p.operations[t.index]? = some (.define t.definition) := by
  rw [tasks, mem_tasksFrom_iff]
  simp

theorem numbered_tasks (p : Program) : Numbered p.tasks := numbered_tasksFrom 0 p.operations

theorem definitionOf?_eq_some_iff (p : Program) (n : Name) (i : Nat) :
    p.definitionOf? n = some i ↔ ∃ c, p.operations[i]? = some (.define c) ∧ c.target = n := by
  rw [definitionOf?, getElem?_of_gatherDefinitions p.gathered]
  constructor
  · rintro (hempty | ⟨t, ht, rfl, rfl⟩)
    · simp at hempty
    · exact ⟨t.definition, (p.mem_tasks_iff t).1 ht, rfl⟩
  · rintro ⟨c, hc, rfl⟩
    exact .inr ⟨⟨i, c⟩, (p.mem_tasks_iff ⟨i, c⟩).2 hc, rfl, rfl⟩

theorem ofOperations_eq_ok_iff (ops : List Operation) (p : Program) :
    ofOperations ops = .ok p ↔ p.operations = ops := by
  constructor
  · intro h
    unfold ofOperations at h
    split at h
    · cases h
    · exact congrArg operations (Except.ok.inj h).symm
  · rintro rfl
    unfold ofOperations
    split
    · rename_i d hd
      rw [p.gathered] at hd
      cases hd
    · rename_i definitions hgathered
      rw [p.gathered] at hgathered
      obtain rfl := Except.ok.inj hgathered
      rfl

theorem ofOperations_eq_error_iff (ops : List Operation) (d : Duplicate) :
    ofOperations ops = .error d ↔ gatherDefinitions ∅ 0 ops = .error d := by
  unfold ofOperations
  split
  · rename_i d' hd
    rw [hd]
    exact ⟨fun h => congrArg _ (Except.error.inj h), fun h => congrArg _ (Except.error.inj h)⟩
  · rename_i definitions hgathered
    simp [hgathered]

theorem exists_ofOperations_iff (ops : List Operation) :
    (∃ p, ofOperations ops = .ok p) ↔ (definedNames ops).Nodup := by
  constructor
  · rintro ⟨p, hp⟩
    rw [← (ofOperations_eq_ok_iff ops p).1 hp]
    exact p.nodup
  · intro h
    exact ⟨ofNodup ops h, (ofOperations_eq_ok_iff ops (ofNodup ops h)).2 rfl⟩

end Program

end Wavefront
