import Mathlib.Data.List.Forall2
import Wavefront.Evaluation
import Wavefront.Proofs.Liveness.Reachability
import Wavefront.Proofs.Schedule.FixedPoint

set_option autoImplicit false

/-!
# The meaning of a program

A program can be read without waves, liveness or order: a variable denotes the exact result of
its definition on what the operands denote, if that result is a value. An evaluation prints what
the variables denote, and what denotes nothing is broken.
-/
namespace Wavefront

inductive Operator.Exact : Operator → Int → Int → Int → Prop
  | add (a b : Int) : Exact .add a b (a + b)
  | sub (a b : Int) : Exact .sub a b (a - b)
  | mul (a b : Int) : Exact .mul a b (a * b)

theorem Operator.result?_eq_some_iff (op : Operator) (a b n : Int) :
    op.result? a b = some n ↔ op.Exact a b n := by
  constructor
  · intro h
    cases op with
    | add => obtain rfl := Option.some.inj h; exact .add a b
    | sub => obtain rfl := Option.some.inj h; exact .sub a b
    | mul => obtain rfl := Option.some.inj h; exact .mul a b
    | other symbol => simp [result?] at h
  · intro h
    cases h <;> rfl

theorem Operator.apply_eq_ok_iff_exact (op : Operator) (a b v : Value) :
    op.apply a b = .ok v ↔ op.Exact a.toInt b.toInt v.toInt := by
  rw [apply_eq_ok_iff, result?_eq_some_iff]

/-- What an operand denotes in an operation list, by the list alone. The bounds are those of
values. -/
inductive Denotes (ops : List Operation) : Operand → Int → Prop
  | literal (v : Value) : Denotes ops (.literal v) v.toInt
  | defined {c : Calc} {a b n : Int} (mem : .define c ∈ ops)
      (left : Denotes ops c.left a) (right : Denotes ops c.right b)
      (result : c.operator.Exact a b n) (min_le : -9223372036854775808 ≤ n)
      (le_max : n ≤ 9223372036854775807) :
      Denotes ops (.reference c.target) n

theorem Denotes.exists_value {ops : List Operation} {o : Operand} {n : Int}
    (h : Denotes ops o n) : ∃ v : Value, v.toInt = n := by
  cases h with
  | literal v => exact ⟨v, rfl⟩
  | defined _ _ _ _ hmin hmax => exact ⟨⟨n, hmin, hmax⟩, rfl⟩

theorem denotes_of_derives {p : Program} {live : NameSet} {o : Operand} {v : Value}
    (h : Derives live Store.empty p.tasks o v) : Denotes p.operations o v.toInt := by
  induction h with
  | literal v => exact .literal v
  | stored hs => simp [Store.get?_empty] at hs
  | @computed t a b v ht _ _ _ hok ihl ihr =>
    have hexact := (Operator.apply_eq_ok_iff_exact _ _ _ _).1 hok
    exact .defined (Program.define_mem_of_mem_tasks ht) ihl ihr hexact v.min_le v.le_max

/-- Nothing that a live operand denotes is pruned away: all it depends on is live too. -/
theorem derives_of_denotes {p : Program} {o : Operand} {n : Int}
    (h : Denotes p.operations o n)
    (hlive : ∀ m, o = .reference m → m ∈ liveNames p.operations) (v : Value) (hv : v.toInt = n) :
    Derives (liveNames p.operations) Store.empty p.tasks o v := by
  induction h generalizing v with
  | literal w =>
    obtain rfl := Value.ext hv
    exact .literal v
  | @defined c a b n hc hl hr hexact hmin hmax ihl ihr =>
    have htarget : c.target ∈ liveNames p.operations := hlive c.target rfl
    have hoperand (m : Name) (hm : m ∈ c.references) : m ∈ liveNames p.operations :=
      mem_liveNames_of_refers htarget ⟨c, hc, rfl, hm⟩
    obtain ⟨left, rfl⟩ := hl.exists_value
    obtain ⟨right, rfl⟩ := hr.exists_value
    have hleft := ihl (fun m hm => hoperand m ((c.mem_references_iff m).2 (.inl hm))) left rfl
    have hright := ihr (fun m hm => hoperand m ((c.mem_references_iff m).2 (.inr hm))) right rfl
    obtain ⟨t, ht, rfl⟩ := (p.define_mem_iff c).1 hc
    refine .computed ht ⟨htarget, Store.get?_empty _⟩ hleft hright ?_
    rw [Operator.apply_eq_ok_iff_exact, hv]
    exact hexact

theorem get?_evaluate_iff_denotes (p : Program) (settings : Settings) {n : Name}
    (hn : n ∈ liveNames p.operations) (v : Value) :
    (p.evaluate settings).run.store.get? n = some v ↔
      Denotes p.operations (.reference n) v.toInt := by
  change (runTasks settings _ _ p.tasks).store.resolve (.reference n) = some v ↔ _
  rw [resolve_store_iff_derives settings _ p.distinct_tasks]
  refine ⟨denotes_of_derives, fun h => derives_of_denotes h (fun m hm => ?_) v rfl⟩
  cases hm
  exact hn

theorem get?_evaluate_eq_none_iff (p : Program) (settings : Settings) {n : Name}
    (hn : n ∈ liveNames p.operations) :
    (p.evaluate settings).run.store.get? n = none ↔
      ∀ v, ¬ Denotes p.operations (.reference n) v := by
  constructor
  · intro h v hv
    obtain ⟨w, rfl⟩ := hv.exists_value
    have hsome := (get?_evaluate_iff_denotes p settings hn w).2 hv
    simp [h] at hsome
  · intro h
    cases hg : (p.evaluate settings).run.store.get? n with
    | none => rfl
    | some v => exact absurd ((get?_evaluate_iff_denotes p settings hn v).1 hg) (h v.toInt)

/-- The item of a print: its variable with what it denotes, or with zero. -/
structure Printed.Reads (ops : List Operation) (n : Name) (item : Printed) : Prop where
  name : item.name = n
  value : ∀ v, Denotes ops (.reference n) v → item.value.toInt = v
  zero : (∀ v, ¬ Denotes ops (.reference n) v) → item.value = 0

theorem reads_evaluate (p : Program) (settings : Settings) {n : Name}
    (hn : n ∈ liveNames p.operations) :
    Printed.Reads p.operations n ⟨n, ((p.evaluate settings).run.store.get? n).getD 0⟩ := by
  refine ⟨rfl, fun v hv => ?_, fun hnone => ?_⟩
  · obtain ⟨w, rfl⟩ := hv.exists_value
    rw [(get?_evaluate_iff_denotes p settings hn w).2 hv]
    rfl
  · rw [(get?_evaluate_eq_none_iff p settings hn).2 hnone]
    rfl

open Classical in
/-- An evaluation prints what the printed variables denote, in the order of the prints. -/
theorem printout_evaluate_denotes (p : Program) (settings : Settings) :
    List.Forall₂ (Printed.Reads p.operations) (p.operations.filterMap Operation.printed?)
        (p.evaluate settings).printout.items ∧
      (p.evaluate settings).printout.broken =
        (p.operations.filterMap Operation.printed?).filter fun n =>
          ∀ v, ¬ Denotes p.operations (.reference n) v := by
  have hlive (n : Name) (hn : n ∈ p.operations.filterMap Operation.printed?) :
      n ∈ liveNames p.operations := mem_liveNames_of_print (by simpa using hn)
  constructor
  · change List.Forall₂ _ _ (List.map _ _)
    rw [List.forall₂_map_right_iff, List.forall₂_same]
    exact fun n hn => reads_evaluate p settings (hlive n hn)
  · refine List.filter_congr fun n hn => ?_
    rw [Store.contains_eq_isSome, Bool.eq_iff_iff, decide_eq_true_iff,
      ← get?_evaluate_eq_none_iff p settings (hlive n hn)]
    simp only [Bool.not_eq_true', Option.isSome_eq_false_iff, Option.isNone_iff_eq_none]
    rfl

end Wavefront
