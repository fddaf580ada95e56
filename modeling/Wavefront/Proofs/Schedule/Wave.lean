import Mathlib.Data.List.Nodup
import Wavefront.Proofs.Store.Order

set_option autoImplicit false

/-!
# One wave

Which tasks are ready, blocked or done, and what a wave does to the store. The members of a wave
have different targets, none of which has a value yet. Each member therefore comes to the same
outcome in whatever store it is run, and the wave stores exactly the results of its members.
-/
namespace Wavefront

def Calc.Yields (c : Calc) (s : Store) (v : Value) : Prop :=
  ∃ left right, s.resolve c.left = some left ∧ s.resolve c.right = some right ∧
    c.operator.apply left right = .ok v

theorem Calc.Yields.of_le {c : Calc} {s u : Store} {v : Value} (h : c.Yields s v) (hle : s ≤ u) :
    c.Yields u v := by
  obtain ⟨left, right, hl, hr, hok⟩ := h
  exact ⟨left, right, Store.resolve_of_le hle hl, Store.resolve_of_le hle hr, hok⟩

theorem Calc.Yields.unique {c : Calc} {s : Store} {v w : Value} (h : c.Yields s v)
    (h' : c.Yields s w) : v = w := by
  obtain ⟨left, right, hl, hr, hok⟩ := h
  obtain ⟨left', right', hl', hr', hok'⟩ := h'
  obtain rfl := Option.some.inj (hl.symm.trans hl')
  obtain rfl := Option.some.inj (hr.symm.trans hr')
  exact Except.ok.inj (hok.symm.trans hok')

namespace Task

def Wanted (live : NameSet) (s : Store) (t : Task) : Prop :=
  t.target ∈ live ∧ s.get? t.target = none

def Resolves (s : Store) (t : Task) (left right : Value) : Prop :=
  s.resolve t.definition.left = some left ∧ s.resolve t.definition.right = some right

def withOperands (t : Task) (left right : Value) : Ready :=
  ⟨t.index, t.target, t.definition.operator, left, right⟩

variable {live : NameSet} {s u : Store} {t : Task}

theorem Resolves.of_le {a b : Value} (h : t.Resolves s a b) (hle : s ≤ u) : t.Resolves u a b :=
  ⟨Store.resolve_of_le hle h.1, Store.resolve_of_le hle h.2⟩

theorem Resolves.unique {a b a' b' : Value} (h : t.Resolves s a b) (h' : t.Resolves s a' b') :
    a = a' ∧ b = b' :=
  ⟨Option.some.inj (h.1.symm.trans h'.1), Option.some.inj (h.2.symm.trans h'.2)⟩

theorem Resolves.yields_iff {a b : Value} (h : t.Resolves s a b) (v : Value) :
    t.definition.Yields s v ↔ t.definition.operator.apply a b = .ok v := by
  constructor
  · rintro ⟨a', b', hl, hr, hok⟩
    obtain ⟨rfl, rfl⟩ := h.unique ⟨hl, hr⟩
    exact hok
  · intro hok
    exact ⟨a, b, h.1, h.2, hok⟩

theorem Wanted.of_le (h : t.Wanted live u) (hle : s ≤ u) : t.Wanted live s :=
  ⟨h.1, Store.get?_eq_none_of_le hle h.2⟩

theorem standing_of_not_wanted (h : ¬ t.Wanted live s) : t.standing live s = .done := by
  have hdone : (decide (t.target ∉ live) || s.contains t.target) = true := by
    rw [Store.contains_eq_isSome]
    by_cases hl : t.target ∈ live
    · cases hg : s.get? t.target with
      | none => exact absurd ⟨hl, hg⟩ h
      | some v => simp
    · simp [hl]
  unfold standing
  rw [if_pos hdone]

theorem standing_of_wanted (h : t.Wanted live s) :
    t.standing live s =
      match s.resolve t.definition.left, s.resolve t.definition.right with
      | some left, some right => .ready (t.withOperands left right)
      | _, _ => .blocked := by
  have hopen : (decide (t.target ∉ live) || s.contains t.target) = false := by
    simp [Store.contains_eq_isSome, h.1, h.2]
  unfold standing
  rw [hopen]
  rfl

theorem standing_eq_ready_iff (r : Ready) :
    t.standing live s = .ready r ↔
      t.Wanted live s ∧ ∃ a b, t.Resolves s a b ∧ r = t.withOperands a b := by
  by_cases hw : t.Wanted live s
  · rw [standing_of_wanted hw]
    simp only [hw, true_and, Resolves]
    cases s.resolve t.definition.left <;> cases s.resolve t.definition.right <;>
      simp [and_assoc, eq_comm]
  · simp [standing_of_not_wanted hw, hw]

theorem ready?_standing_eq_some_iff (r : Ready) :
    (t.standing live s).ready? = some r ↔
      t.Wanted live s ∧ ∃ a b, t.Resolves s a b ∧ r = t.withOperands a b := by
  rw [← standing_eq_ready_iff]
  cases t.standing live s <;> simp [Standing.ready?]

theorem standing_eq_blocked_iff :
    t.standing live s = .blocked ↔ t.Wanted live s ∧ ∀ a b, ¬ t.Resolves s a b := by
  by_cases hw : t.Wanted live s
  · rw [standing_of_wanted hw]
    simp only [hw, true_and, Resolves]
    cases s.resolve t.definition.left <;> cases s.resolve t.definition.right <;> simp
  · simp [standing_of_not_wanted hw, hw]

end Task

theorem mem_readyTasks {live : NameSet} {s : Store} {pending : List Task} {r : Ready} :
    r ∈ readyTasks live s pending ↔
      ∃ t ∈ pending, t.Wanted live s ∧ ∃ a b, t.Resolves s a b ∧ r = t.withOperands a b := by
  simp only [readyTasks, List.mem_filterMap, Task.ready?_standing_eq_some_iff]

theorem mem_blockedTasks {live : NameSet} {s : Store} {pending : List Task} {t : Task} :
    t ∈ blockedTasks live s pending ↔
      t ∈ pending ∧ t.Wanted live s ∧ ∀ a b, ¬ t.Resolves s a b := by
  simp [blockedTasks, Task.standing_eq_blocked_iff]

def Distinct (pending : List Task) : Prop := (pending.map Task.target).Nodup

theorem Program.distinct_tasks (p : Program) : Distinct p.tasks := by
  unfold Distinct tasks
  rw [map_target_tasksFrom]
  exact p.nodup

theorem Distinct.blockedTasks {pending : List Task} (h : Distinct pending) (live : NameSet)
    (s : Store) : Distinct (blockedTasks live s pending) :=
  List.Nodup.sublist (List.filter_sublist.map Task.target) h

theorem Distinct.eq_of_target_eq {pending : List Task} (h : Distinct pending) {t u : Task}
    (ht : t ∈ pending) (hu : u ∈ pending) (heq : t.target = u.target) : t = u :=
  List.inj_on_of_nodup_map h ht hu heq

theorem map_filterMap_sublist {α β γ : Type} {f : α → Option β} {g : β → γ} {h : α → γ}
    (hfound : ∀ a b, f a = some b → g b = h a) (l : List α) :
    ((l.filterMap f).map g).Sublist (l.map h) := by
  induction l with
  | nil => exact List.Sublist.refl _
  | cons a rest ih =>
    cases hb : f a with
    | none =>
      rw [List.filterMap_cons_none hb]
      exact ih.cons _
    | some b =>
      rw [List.filterMap_cons_some hb, List.map_cons, List.map_cons, hfound a b hb]
      exact ih.cons_cons _

theorem map_target_readyTasks_sublist (live : NameSet) (s : Store) (pending : List Task) :
    ((readyTasks live s pending).map Ready.target).Sublist (pending.map Task.target) := by
  refine map_filterMap_sublist (fun t r hr => ?_) pending
  obtain ⟨-, a, b, -, rfl⟩ := (Task.ready?_standing_eq_some_iff r).1 hr
  rfl

theorem map_index_readyTasks_sublist (live : NameSet) (s : Store) (pending : List Task) :
    ((readyTasks live s pending).map Ready.index).Sublist (pending.map Task.index) := by
  refine map_filterMap_sublist (fun t r hr => ?_) pending
  obtain ⟨-, a, b, -, rfl⟩ := (Task.ready?_standing_eq_some_iff r).1 hr
  rfl

/-- What the members of a wave have in common: different targets, and none with a value. -/
structure Independent (s : Store) (ready : List Ready) : Prop where
  nodup : (ready.map Ready.target).Nodup
  absent : ∀ r ∈ ready, s.get? r.target = none

theorem Distinct.independent {pending : List Task} (h : Distinct pending) (live : NameSet)
    (s : Store) : Independent s (readyTasks live s pending) where
  nodup := List.Nodup.sublist (map_target_readyTasks_sublist live s pending) h
  absent r hr := by
    obtain ⟨t, -, hw, a, b, -, rfl⟩ := mem_readyTasks.1 hr
    exact hw.2

namespace Ready

def verdict (r : Ready) : Outcome :=
  match r.operator.apply r.left r.right with
  | .ok v => .stored v
  | .error .unsupported => .discarded (.unsupportedOperator r.operator.symbol)
  | .error .overflow => .discarded .overflow

def attempt (r : Ready) : Attempt := ⟨r, r.verdict⟩

@[simp] theorem ready_attempt (r : Ready) : r.attempt.ready = r := rfl

theorem outcome_eq_verdict (r : Ready) {s : Store} (h : s.get? r.target = none) :
    r.outcome s = r.verdict := by
  unfold outcome
  rw [if_neg (by simp [Store.contains_eq_isSome, h])]
  rfl

theorem value?_attempt (r : Ready) (v : Value) :
    r.attempt.value? = some v ↔ r.operator.apply r.left r.right = .ok v := by
  unfold attempt Attempt.value? verdict
  cases r.operator.apply r.left r.right with
  | ok w => simp
  | error e => cases e <;> simp

theorem verdict_eq_stored_iff (r : Ready) (v : Value) :
    r.verdict = .stored v ↔ r.operator.apply r.left r.right = .ok v := by
  rw [← r.value?_attempt v]
  unfold attempt Attempt.value?
  cases r.verdict <;> simp

theorem map_attempt_ready {attempts : List Attempt} (h : ∀ a ∈ attempts, a = a.ready.attempt) :
    (attempts.map Attempt.ready).map attempt = attempts := by
  rw [List.map_map]
  exact (List.map_congr_left fun a ha => (h a ha).symm).trans (List.map_id _)

end Ready

namespace Store

def afterWave (s : Store) (ready : List Ready) : Store :=
  (ready.map Ready.attempt).foldl settle s

theorem settle_of_value? {s : Store} {a : Attempt} {v : Value} (h : a.value? = some v) :
    s.settle a = s.set a.ready.target v := by
  simp [settle, h]

theorem settle_of_value?_eq_none {s : Store} {a : Attempt} (h : a.value? = none) :
    s.settle a = s := by
  simp [settle, h]

theorem get?_settle_of_ne {s : Store} {a : Attempt} {n : Name} (h : a.ready.target ≠ n) :
    (s.settle a).get? n = s.get? n := by
  cases hv : a.value? with
  | some v => rw [settle_of_value? hv, get?_set, if_neg h]
  | none => rw [settle_of_value?_eq_none hv]

end Store

theorem Independent.tail {s : Store} {r : Ready} {rest : List Ready}
    (h : Independent s (r :: rest)) : Independent (s.settle r.attempt) rest where
  nodup := (List.nodup_cons.1 h.nodup).2
  absent q hq := by
    have hne : r.target ≠ q.target := fun heq =>
      (List.nodup_cons.1 h.nodup).1 (heq ▸ List.mem_map_of_mem hq)
    rw [Store.get?_settle_of_ne hne]
    exact h.absent q (List.mem_cons_of_mem r hq)

theorem runInTurn_eq {s : Store} {ready : List Ready} (h : Independent s ready) :
    runInTurn s ready = (ready.map Ready.attempt, s.afterWave ready) := by
  induction ready generalizing s with
  | nil => rfl
  | cons r rest ih =>
    have ha : (⟨r, r.outcome s⟩ : Attempt) = r.attempt := by
      rw [r.outcome_eq_verdict (h.absent r List.mem_cons_self)]
      rfl
    simp only [runInTurn, ha, ih h.tail]
    rfl

theorem runTogether_eq {s : Store} {ready : List Ready} (h : Independent s ready) :
    runTogether s ready = (ready.map Ready.attempt, s.afterWave ready) := by
  have ha : ready.map (fun r => (⟨r, r.outcome s⟩ : Attempt)) = ready.map Ready.attempt := by
    refine List.map_congr_left fun r hr => ?_
    rw [r.outcome_eq_verdict (h.absent r hr)]
    rfl
  simp only [runTogether, ha, Store.afterWave]

theorem runWave_eq (settings : Settings) {s : Store} {ready : List Ready}
    (h : Independent s ready) :
    runWave settings s ready = (ready.map Ready.attempt, s.afterWave ready) := by
  unfold runWave
  split
  · exact runTogether_eq h
  · exact runInTurn_eq h

namespace Independent

variable {s : Store} {ready : List Ready}

theorem get?_afterWave_iff (h : Independent s ready) (n : Name) (v : Value) :
    (s.afterWave ready).get? n = some v ↔
      s.get? n = some v ∨
        ∃ r ∈ ready, r.target = n ∧ r.operator.apply r.left r.right = .ok v := by
  induction ready generalizing s with
  | nil => simp [Store.afterWave]
  | cons r rest ih =>
    have habsent := h.absent r List.mem_cons_self
    change ((s.settle r.attempt).afterWave rest).get? n = some v ↔ _
    rw [ih h.tail, List.exists_mem_cons_iff, ← or_assoc]
    refine or_congr ?_ Iff.rfl
    by_cases hn : r.target = n
    · subst hn
      rw [← Ready.value?_attempt, habsent]
      cases hv : r.attempt.value? with
      | some w =>
        rw [Store.settle_of_value? hv, Ready.ready_attempt, Store.get?_set, if_pos rfl]
        simp
      | none => simp [Store.settle_of_value?_eq_none hv, habsent]
    · rw [Store.get?_settle_of_ne (by simpa using hn)]
      simp [hn]

theorem le_afterWave (h : Independent s ready) : s ≤ s.afterWave ready :=
  fun n v hv => (h.get?_afterWave_iff n v).2 (.inl hv)

theorem size_afterWave (h : Independent s ready) :
    (s.afterWave ready).size =
      s.size + ((ready.map Ready.attempt).filterMap Attempt.value?).length := by
  induction ready generalizing s with
  | nil => rfl
  | cons r rest ih =>
    have habsent := h.absent r List.mem_cons_self
    change ((s.settle r.attempt).afterWave rest).size = _
    rw [ih h.tail, List.map_cons, List.filterMap_cons]
    cases hv : r.attempt.value? with
    | some v =>
      have hsize := s.size_set habsent v
      rw [Store.settle_of_value? hv, Ready.ready_attempt, List.length_cons]
      omega
    | none => rw [Store.settle_of_value?_eq_none hv]

theorem afterWave_eq_self (h : Independent s ready)
    (hnone : ∀ r ∈ ready, r.attempt.value? = none) : s.afterWave ready = s := by
  refine le_antisymm (fun n v hv => ?_) h.le_afterWave
  rcases (h.get?_afterWave_iff n v).1 hv with hv | ⟨r, hr, -, hok⟩
  · exact hv
  · exact absurd ((r.value?_attempt v).2 hok) (by simp [hnone r hr])

end Independent

end Wavefront
