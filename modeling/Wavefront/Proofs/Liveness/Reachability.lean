import Mathlib.Data.List.Chain
import Mathlib.Logic.Relation
import Wavefront.Liveness
import Wavefront.Proofs.Graph.Contents

set_option autoImplicit false

/-!
# What is live

A variable refers to another when one of its definitions does. The edges of the dependency graph
are exactly these references, and the live variables are those that a print leads to along them.
-/
namespace Wavefront

open Relation

def Edge (edges : NameMap (List Name)) (n m : Name) : Prop :=
  ∃ deps, edges[n]? = some deps ∧ m ∈ deps

theorem edge_iff_of_getElem? {edges : NameMap (List Name)} {n : Name} {deps : List Name}
    (h : edges[n]? = some deps) (m : Name) : Edge edges n m ↔ m ∈ deps := by
  simp [Edge, h]

theorem edge_iff_mem_getD (edges : NameMap (List Name)) (n m : Name) :
    Edge edges n m ↔ m ∈ edges.getD n [] := by
  rw [Std.ExtTreeMap.getD_eq_getD_getElem?]
  cases h : edges[n]? <;> simp [Edge, h]

theorem edge_erase_iff (edges : NameMap (List Name)) (k n m : Name) :
    Edge (edges.erase k) n m ↔ n ≠ k ∧ Edge edges n m := by
  unfold Edge
  rw [Std.ExtTreeMap.getElem?_erase]
  by_cases h : n = k
  · simp [h]
  · simp [h, Ne.symm h]

/-- Where a worklist leads: to a name at the end of a path of at least one edge. -/
def LeadsTo (edges : NameMap (List Name)) (worklist : List Name) (n : Name) : Prop :=
  ∃ m ∈ worklist, TransGen (Edge edges) m n

/-- A visited name may leave the table: what it led to, its dependencies are or lead to. -/
theorem leadsTo_cons_iff {edges : NameMap (List Name)} {k : Name} {deps : List Name}
    (h : edges[k]? = some deps) (rest : List Name) (n : Name) :
    LeadsTo edges (k :: rest) n ↔ n ∈ deps ∨ LeadsTo (edges.erase k) (deps ++ rest) n := by
  have hk := edge_iff_of_getElem? h
  constructor
  · rintro ⟨m, hm, hpath⟩
    -- whenever the path comes through `k`, it starts anew at a dependency
    induction hpath with
    | @single b he =>
      by_cases hmk : m = k
      · exact .inl ((hk b).1 (hmk ▸ he))
      · have hrest : m ∈ rest := (List.mem_cons.1 hm).resolve_left hmk
        exact .inr ⟨m, List.mem_append_right deps hrest,
          .single ((edge_erase_iff edges k m b).2 ⟨hmk, he⟩)⟩
    | @tail b c _ he ih =>
      by_cases hbk : b = k
      · exact .inl ((hk c).1 (hbk ▸ he))
      · have he' := (edge_erase_iff edges k b c).2 ⟨hbk, he⟩
        rcases ih with hb | ⟨q, hq, hpath⟩
        · exact .inr ⟨b, List.mem_append_left rest hb, .single he'⟩
        · exact .inr ⟨q, hq, hpath.tail he'⟩
  · rintro (hn | ⟨m, hm, hpath⟩)
    · exact ⟨k, List.mem_cons_self, .single ((hk n).2 hn)⟩
    · have hpath' : TransGen (Edge edges) m n :=
        TransGen.mono (fun a b he => ((edge_erase_iff edges k a b).1 he).2) m n hpath
      rcases List.mem_append.1 hm with hm | hm
      · exact ⟨k, List.mem_cons_self, .head ((hk m).2 hm) hpath'⟩
      · exact ⟨m, List.mem_cons_of_mem k hm, hpath'⟩

theorem leadsTo_cons_of_none {edges : NameMap (List Name)} {k : Name} (h : edges[k]? = none)
    (rest : List Name) (n : Name) : LeadsTo edges (k :: rest) n ↔ LeadsTo edges rest n := by
  constructor
  · rintro ⟨m, hm, hpath⟩
    rcases List.mem_cons.1 hm with rfl | hm
    · obtain ⟨b, ⟨deps, hdeps, -⟩, -⟩ := TransGen.head'_iff.1 hpath
      simp [h] at hdeps
    · exact ⟨m, hm, hpath⟩
  · rintro ⟨m, hm, hpath⟩
    exact ⟨m, List.mem_cons_of_mem k hm, hpath⟩

theorem mem_spread_iff (edges : NameMap (List Name)) (live : NameSet) (worklist : List Name)
    (n : Name) : n ∈ spread edges live worklist ↔ n ∈ live ∨ LeadsTo edges worklist n := by
  induction edges, live, worklist using spread.induct with
  | case1 edges live => simp [spread, LeadsTo]
  | case2 edges live k rest h ih =>
    rw [spread]
    split
    · rw [ih, leadsTo_cons_of_none h]
    · rename_i heq
      simp [h] at heq
  | case3 edges live k rest deps h ih =>
    rw [spread]
    split
    · rename_i heq
      simp [h] at heq
    · rename_i deps' heq
      obtain rfl := Option.some.inj (h.symm.trans heq)
      rw [ih, leadsTo_cons_iff h, Std.ExtTreeSet.mem_insertMany_list, or_assoc]
      simp

/-- Some definition of `n` has `m` for an operand. -/
def Refers (ops : List Operation) (n m : Name) : Prop :=
  ∃ c : Calc, .define c ∈ ops ∧ c.target = n ∧ m ∈ c.references

theorem mem_dependencies_ofOperations (ops : List Operation) (n m : Name) :
    m ∈ (Graph.ofOperations ops).dependencies n ↔ Refers ops n m := by
  simp [Graph.dependencies_ofOperations, Refers, and_assoc]

theorem edge_ofOperations (ops : List Operation) :
    Edge (Graph.ofOperations ops).edges = Refers ops := by
  funext n m
  exact propext ((edge_iff_mem_getD _ n m).trans (mem_dependencies_ofOperations ops n m))

theorem mem_liveNames_iff_refers (ops : List Operation) (n : Name) :
    n ∈ liveNames ops ↔ ∃ p, .print p ∈ ops ∧ ReflTransGen (Refers ops) p n := by
  have hmem (p : Name) : p ∈ ops.filterMap Operation.printed? ↔ .print p ∈ ops := by simp
  unfold liveNames
  rw [mem_spread_iff, LeadsTo, edge_ofOperations, Std.ExtTreeSet.mem_ofList, List.contains_iff_mem]
  simp only [hmem, reflTransGen_iff_eq_or_transGen, and_or_left, exists_or]
  exact or_congr_left (by simp)

theorem mem_liveNames_of_print {ops : List Operation} {n : Name} (h : .print n ∈ ops) :
    n ∈ liveNames ops :=
  (mem_liveNames_iff_refers ops n).2 ⟨n, h, .refl⟩

theorem mem_liveNames_of_reflTransGen {ops : List Operation} {n m : Name}
    (hn : n ∈ liveNames ops) (h : ReflTransGen (Refers ops) n m) : m ∈ liveNames ops := by
  obtain ⟨p, hp, hpath⟩ := (mem_liveNames_iff_refers ops n).1 hn
  exact (mem_liveNames_iff_refers ops m).2 ⟨p, hp, hpath.trans h⟩

theorem mem_liveNames_of_refers {ops : List Operation} {n m : Name} (hn : n ∈ liveNames ops)
    (h : Refers ops n m) : m ∈ liveNames ops :=
  mem_liveNames_of_reflTransGen hn (.single h)

theorem reflTransGen_iff_exists_chain {α : Type} (r : α → α → Prop) (a b : α) :
    ReflTransGen r a b ↔
      ∃ chain : List α, chain.head? = some a ∧ chain.getLast? = some b ∧ chain.IsChain r := by
  constructor
  · intro h
    obtain ⟨rest, hchain, hlast⟩ := List.exists_isChain_cons_of_relationReflTransGen h
    refine ⟨a :: rest, rfl, ?_, hchain⟩
    rw [List.getLast?_eq_some_getLast (List.cons_ne_nil a rest), hlast]
  · rintro ⟨chain, hhead, hlast, hchain⟩
    obtain ⟨rest, rfl⟩ := List.head?_eq_some_iff.1 hhead
    rw [List.getLast?_eq_some_getLast (List.cons_ne_nil a rest)] at hlast
    exact List.relationReflTransGen_of_exists_isChain_cons rest hchain (Option.some.inj hlast)

/-- The live variables are the ends of the finite chains that start at a print and go from a
variable to an operand of one of its definitions. -/
theorem mem_liveNames_iff_chain (ops : List Operation) (n : Name) :
    n ∈ liveNames ops ↔ ∃ p, .print p ∈ ops ∧ ∃ chain : List Name,
      chain.head? = some p ∧ chain.getLast? = some n ∧
        chain.IsChain fun k m => ∃ c : Calc, .define c ∈ ops ∧ c.target = k ∧
          (c.left = .reference m ∨ c.right = .reference m) := by
  have hrefers : (fun k m => ∃ c : Calc, .define c ∈ ops ∧ c.target = k ∧
      (c.left = .reference m ∨ c.right = .reference m)) = Refers ops := by
    funext k m
    unfold Refers
    simp only [Calc.mem_references_iff]
  rw [hrefers, mem_liveNames_iff_refers]
  refine exists_congr fun p => and_congr_right fun _ => ?_
  exact reflTransGen_iff_exists_chain (Refers ops) p n

end Wavefront
