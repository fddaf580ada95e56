import Mathlib.Data.Fintype.Card
import Mathlib.Data.Set.Finite.Basic
import Wavefront.Proofs.Evaluation.Values

set_option autoImplicit false

/-!
# Causes of a broken print

A variable has a value exactly when everything it depends on is defined, supported and without
overflow, and nothing of it lies on a cycle.
-/
namespace Wavefront

open Relation

theorem not_transGen_self_of_acc {α : Type} {r : α → α → Prop} {a : α}
    (h : Acc (Function.swap r) a) : ¬ TransGen r a a := by
  intro hcycle
  have hself := transGen_swap.2 hcycle
  have hacc := h.transGen
  induction hacc with
  | intro a _ ih => exact ih a hself (h.inv_of_transGen hself) hcycle hself

/-- Induction along the edges of a finite graph in which nothing lies on a cycle. -/
theorem induction_of_acyclic {α : Type} (r : α → α → Prop) {s : Set α} (hfin : s.Finite)
    (hacyclic : ∀ a ∈ s, ¬ TransGen r a a) (hclosed : ∀ a ∈ s, ∀ b, r a b → b ∈ s)
    {motive : α → Prop} (step : ∀ a ∈ s, (∀ b, r a b → motive b) → motive a) :
    ∀ a ∈ s, motive a := by
  have hwf : WellFounded fun b a : s => TransGen r a.1 b.1 := by
    have hfinite : Finite s := hfin
    have htrans : IsTrans s fun b a => TransGen r a.1 b.1 := ⟨fun _ _ _ hab hbc => hbc.trans hab⟩
    have hirrefl : Std.Irrefl fun b a : s => TransGen r a.1 b.1 :=
      ⟨fun a h => hacyclic a.1 a.2 h⟩
    exact Finite.wellFounded_of_trans_of_irrefl _
  intro a ha
  refine hwf.induction (C := fun a => motive a.1) ⟨a, ha⟩ ?_
  intro a ih
  exact step a.1 a.2 fun b hb => ih ⟨b, hclosed a.1 a.2 b hb⟩ (.single hb)

def Graph.DependsOn (g : Graph) (n m : Name) : Prop := m ∈ g.dependencies n

theorem dependsOn_evaluate (p : Program) (settings : Settings) :
    (p.evaluate settings).graph.DependsOn = Refers p.operations := by
  funext n m
  exact propext (mem_dependencies_ofOperations p.operations n m)

namespace Program

/-- Why a variable has no value, apart from what it depends on. -/
inductive Fault (p : Program) (e : Evaluation) (n : Name) : Prop
  | undefined (h : ∀ c : Calc, .define c ∈ p.operations → c.target ≠ n)
  | unsupported {c : Calc} (mem : .define c ∈ p.operations) (target : c.target = n)
      (h : c.operator.isSupported = false)
  | overflow {c : Calc} {a b : Value} (mem : .define c ∈ p.operations) (target : c.target = n)
      (left : e.run.store.resolve c.left = some a) (right : e.run.store.resolve c.right = some b)
      (h : c.operator.apply a b = .error .overflow)
  | cyclic (h : TransGen e.graph.DependsOn n n)

/-- A derivation ends, so what it goes through has no cycle. -/
theorem acc_of_derives {p : Program} {live : NameSet} {o : Operand} {v : Value}
    (h : Derives live Store.empty p.tasks o v) :
    ∀ n, o = .reference n → Acc (Function.swap (Refers p.operations)) n := by
  induction h with
  | literal v =>
    intro n hn
    cases hn
  | stored hs => simp [Store.get?_empty] at hs
  | @computed t a b v ht _ _ _ _ ihl ihr =>
    intro n hn
    cases hn
    constructor
    intro m hm
    obtain ⟨c, hc, htarget, hmem⟩ := hm
    obtain rfl := p.define_unique hc (define_mem_of_mem_tasks ht) htarget
    rcases (Calc.mem_references_iff _ m).1 hmem with hleft | hright
    · exact ihl m hleft
    · exact ihr m hright

section
variable (p : Program) (settings : Settings) {n : Name}

theorem not_transGen_self_of_hasValue (h : (p.evaluate settings).HasValue n) :
    ¬ TransGen (Refers p.operations) n n := by
  obtain ⟨v, hv⟩ := (Evaluation.hasValue_iff _ n).1 h
  have hderives := derives_of_resolve settings _ p.distinct_tasks (o := .reference n) hv
  exact not_transGen_self_of_acc (acc_of_derives hderives n rfl)

theorem not_fault_of_hasValue (h : (p.evaluate settings).HasValue n) :
    ¬ p.Fault (p.evaluate settings) n := by
  intro hfault
  obtain ⟨c, hc, htarget, v, left, right, hl, hr, hok⟩ := p.exists_define_of_hasValue settings h
  cases hfault with
  | undefined hundef => exact hundef c hc htarget
  | @unsupported d hd htarget' hsupp =>
    obtain rfl := p.define_unique hc hd (htarget.trans htarget'.symm)
    have herr := (c.operator.apply_eq_unsupported_iff left right).2 hsupp
    simp [hok] at herr
  | @overflow d a b hd htarget' hl' hr' herr =>
    obtain rfl := p.define_unique hc hd (htarget.trans htarget'.symm)
    obtain rfl := Option.some.inj (hl.symm.trans hl')
    obtain rfl := Option.some.inj (hr.symm.trans hr')
    simp [hok] at herr
  | cyclic hcycle =>
    rw [dependsOn_evaluate] at hcycle
    exact p.not_transGen_self_of_hasValue settings h hcycle

/-- A live variable has a value if all it refers to has one and it is at no fault itself. -/
theorem hasValue_of_references (hn : n ∈ liveNames p.operations)
    (hfault : ¬ p.Fault (p.evaluate settings) n)
    (h : ∀ m, Refers p.operations n m → (p.evaluate settings).HasValue m) :
    (p.evaluate settings).HasValue n := by
  have hdefined : ∃ c : Calc, .define c ∈ p.operations ∧ c.target = n := by
    by_contra hno
    exact hfault (.undefined fun c hc htarget => hno ⟨c, hc, htarget⟩)
  obtain ⟨c, hc, htarget⟩ := hdefined
  have hoperand (m : Name) (hm : m ∈ c.references) := h m ⟨c, hc, htarget, hm⟩
  obtain ⟨a, ha⟩ := Store.exists_resolve fun m hm =>
    hoperand m ((c.mem_references_iff m).2 (.inl hm))
  obtain ⟨b, hb⟩ := Store.exists_resolve fun m hm =>
    hoperand m ((c.mem_references_iff m).2 (.inr hm))
  cases hok : c.operator.apply a b with
  | ok v =>
    rw [Evaluation.hasValue_iff]
    exact ⟨v, (p.get?_evaluate_iff settings n v).2 ⟨hn, c, hc, htarget, a, b, ha, hb, hok⟩⟩
  | error err =>
    cases err with
    | unsupported =>
      have hsupp := (c.operator.apply_eq_unsupported_iff a b).1 hok
      exact absurd (.unsupported hc htarget hsupp) hfault
    | overflow => exact absurd (.overflow hc htarget ha hb hok) hfault

theorem finite_reachable (hn : n ∈ liveNames p.operations) :
    {m | ReflTransGen (Refers p.operations) n m}.Finite := by
  refine (List.finite_toSet (liveNames p.operations).toList).subset ?_
  intro m hm
  exact Std.ExtTreeSet.mem_toList.2 (mem_liveNames_of_reflTransGen hn hm)

theorem hasValue_iff_no_fault (hn : n ∈ liveNames p.operations) :
    (p.evaluate settings).HasValue n ↔
      ∀ m, ReflTransGen (Refers p.operations) n m → ¬ p.Fault (p.evaluate settings) m := by
  constructor
  · intro h m hm
    exact p.not_fault_of_hasValue settings (p.hasValue_of_reflTransGen settings h hm)
  · intro h
    -- only finitely many variables are reachable, and a cycle among them would be a fault
    refine induction_of_acyclic (Refers p.operations) (p.finite_reachable hn)
      (motive := (p.evaluate settings).HasValue) ?_ ?_ ?_ n .refl
    · intro m hm hcycle
      rw [← dependsOn_evaluate p settings] at hcycle
      exact h m hm (.cyclic hcycle)
    · intro m hm k hk
      exact hm.tail hk
    · intro m hm ih
      exact p.hasValue_of_references settings (mem_liveNames_of_reflTransGen hn hm) (h m hm) ih

end

/-- A print is broken exactly when its variable leads, along the edges of the dependency graph, to
one of the documented causes. -/
theorem mem_broken_iff_fault (p : Program) (settings : Settings) (n : Name) :
    n ∈ (p.evaluate settings).printout.broken ↔
      .print n ∈ p.operations ∧ ∃ m, ReflTransGen (p.evaluate settings).graph.DependsOn n m ∧
        p.Fault (p.evaluate settings) m := by
  rw [mem_broken_evaluate, dependsOn_evaluate]
  refine and_congr_right ?_
  intro hprint
  rw [p.hasValue_iff_no_fault settings (mem_liveNames_of_print hprint)]
  simp only [not_forall, not_not, exists_prop]

end Program

end Wavefront
