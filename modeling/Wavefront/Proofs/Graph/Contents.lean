import Mathlib.Data.List.Basic
import Mathlib.Data.List.Induction
import Wavefront.Graph

set_option autoImplicit false

/-!
# What a dependency graph contains

The order of a graph and its table of edges are filled by one definition after the other, and both
know of the same names throughout, also where a variable is defined again. So the graph of an
operation list has each target once and the references of every definition, each of them once for
each time it is written: they are only collected under their targets.
-/
namespace Wavefront

section Distinct

variable {α : Type} [DecidableEq α]

theorem eraseDups_append_singleton (as : List α) (a : α) :
    (as ++ [a]).eraseDups = if a ∈ as then as.eraseDups else as.eraseDups ++ [a] := by
  rw [List.eraseDups_append]
  by_cases h : a ∈ as <;> simp [List.removeAll, List.eraseDups_cons, h]

theorem pairwise_idxOf_eraseDups (as : List α) :
    as.eraseDups.Pairwise fun a b => as.idxOf a < as.idxOf b := by
  induction as using List.reverseRecOn with
  | nil => exact .nil
  | append_singleton as a ih =>
    have hbefore : as.eraseDups.Pairwise fun b c =>
        (as ++ [a]).idxOf b < (as ++ [a]).idxOf c := by
      refine ih.imp_of_mem fun hb hc hlt => ?_
      rwa [List.idxOf_append_of_mem (List.mem_eraseDups.1 hb),
        List.idxOf_append_of_mem (List.mem_eraseDups.1 hc)]
    rw [eraseDups_append_singleton]
    split
    · exact hbefore
    · rename_i ha
      refine List.pairwise_append.2 ⟨hbefore, List.pairwise_singleton _ _, fun b hb c hc => ?_⟩
      obtain rfl := List.mem_singleton.1 hc
      have hb : b ∈ as := List.mem_eraseDups.1 hb
      rw [List.idxOf_append_of_mem hb, List.idxOf_append_of_notMem ha]
      exact Nat.lt_add_right _ (List.idxOf_lt_length_of_mem hb)

theorem nodup_eraseDups (as : List α) : as.eraseDups.Nodup :=
  (pairwise_idxOf_eraseDups as).imp fun hlt heq => Nat.ne_of_lt hlt (congrArg as.idxOf heq)

end Distinct

theorem perm_flatMap_filter {α β : Type} [DecidableEq β] (key : α → β) {keys : List β}
    (hkeys : keys.Nodup) {as : List α} (h : ∀ a ∈ as, key a ∈ keys) :
    (keys.flatMap fun k => as.filter (key · = k)).Perm as := by
  induction keys generalizing as with
  | nil =>
    cases as with
    | nil => exact .nil
    | cons a as => exact absurd (h a List.mem_cons_self) List.not_mem_nil
  | cons k keys ih =>
    obtain ⟨hk, hkeys⟩ := List.nodup_cons.1 hkeys
    -- The items under other keys are not under `k`.
    have hrest : (keys.flatMap fun k' => as.filter (key · = k')) =
        keys.flatMap fun k' => (as.filter (!key · = k)).filter (key · = k') := by
      refine List.flatMap_congr fun k' hk' => ?_
      rw [List.filter_filter]
      refine List.filter_congr fun a _ => ?_
      by_cases ha : key a = k'
      · have hne : k' ≠ k := fun heq => hk (heq ▸ hk')
        simp [ha, hne]
      · simp [ha]
    have hothers : ∀ a ∈ as.filter (!key · = k), key a ∈ keys := by
      intro a ha
      obtain ⟨hmem, hne⟩ := List.mem_filter.1 ha
      exact (List.mem_cons.1 (h a hmem)).resolve_left (by simpa using hne)
    rw [List.flatMap_cons, hrest]
    exact ((ih hkeys hothers).append_left _).trans (List.filter_append_perm _ as)

namespace Graph

structure Draft.Collects (d : Draft) (cs : List Calc) : Prop where
  order : d.order.toList = (cs.map Calc.target).eraseDups
  mem_edges : ∀ n, n ∈ d.edges ↔ n ∈ cs.map Calc.target
  getD_edges : ∀ n, d.edges.getD n [] = (cs.filter (·.target = n)).flatMap Calc.references

theorem Draft.collects_blank : blank.Collects [] where
  order := rfl
  mem_edges n := by simp [blank]
  getD_edges n := by simp [blank]

theorem Draft.Collects.add {d : Draft} {cs : List Calc} (h : d.Collects cs) (c : Calc) :
    (d.add c).Collects (cs ++ [c]) where
  order := by
    rw [List.map_append, List.map_singleton, eraseDups_append_singleton, ← h.order, Draft.add]
    -- the order grows exactly if the table of edges gets a new key
    by_cases hc : c.target ∈ d.edges
    · rw [if_pos hc, if_pos ((h.mem_edges _).1 hc)]
    · rw [if_neg hc, if_neg fun hmem => hc ((h.mem_edges _).2 hmem), Array.toList_push]
  mem_edges n := by
    rw [Draft.add, addEdges, Std.ExtTreeMap.mem_insert, Std.compare_eq_iff_eq, h.mem_edges,
      List.map_append, List.mem_append, List.map_singleton, List.mem_singleton, or_comm,
      eq_comm (a := n)]
  getD_edges n := by
    rw [Draft.add, addEdges, Std.ExtTreeMap.getD_insert, List.filter_append, List.flatMap_append]
    by_cases hn : c.target = n
    · subst hn
      simp [h.getD_edges]
    · simp [hn, h.getD_edges]

theorem Draft.Collects.foldl_add {d : Draft} {cs : List Calc} (h : d.Collects cs)
    (more : List Calc) : (more.foldl Draft.add d).Collects (cs ++ more) := by
  induction more generalizing d cs with
  | nil => simpa using h
  | cons c more ih =>
    have hmore := ih (h.add c)
    rwa [List.append_assoc] at hmore

theorem collects_ofOperations (ops : List Operation) :
    ((ops.filterMap Operation.definition?).foldl Draft.add Draft.blank).Collects
      (ops.filterMap Operation.definition?) :=
  Draft.collects_blank.foldl_add _

theorem order_ofOperations (ops : List Operation) :
    (ofOperations ops).order =
      ((ops.filterMap Operation.definition?).map Calc.target).eraseDups :=
  (collects_ofOperations ops).order

theorem dependencies_ofOperations (ops : List Operation) (n : Name) :
    (ofOperations ops).dependencies n =
      ((ops.filterMap Operation.definition?).filter (·.target = n)).flatMap Calc.references :=
  (collects_ofOperations ops).getD_edges n

theorem order_ofOperations_subset (ops : List Operation) :
    (ofOperations ops).order ⊆ ops.map Operation.target := by
  intro n hn
  rw [order_ofOperations, List.mem_eraseDups] at hn
  obtain ⟨c, hc, rfl⟩ := List.mem_map.1 hn
  obtain ⟨o, ho, hdefinition⟩ := List.mem_filterMap.1 hc
  obtain rfl := (Operation.definition?_eq_some_iff o c).1 hdefinition
  exact List.mem_map_of_mem (f := Operation.target) ho

theorem flatMap_references (ops : List Operation) :
    (ops.filterMap Operation.definition?).flatMap Calc.references =
      ops.flatMap Operation.references := by
  induction ops with
  | nil => rfl
  | cons o ops ih =>
    cases o with
    | define c =>
      change (c :: ops.filterMap Operation.definition?).flatMap Calc.references = _
      rw [List.flatMap_cons, List.flatMap_cons, ih]
      rfl
    | print n => exact ih

theorem perm_flatMap_dependencies (ops : List Operation) :
    ((ofOperations ops).order.flatMap (ofOperations ops).dependencies).Perm
      (ops.flatMap Operation.references) := by
  have htargets : ∀ c ∈ ops.filterMap Operation.definition?,
      c.target ∈ ((ops.filterMap Operation.definition?).map Calc.target).eraseDups :=
    fun c hc => List.mem_eraseDups.2 (List.mem_map_of_mem hc)
  have hgrouped := perm_flatMap_filter Calc.target (nodup_eraseDups _) htargets
  have hreferences := hgrouped.flatMap_right Calc.references
  rw [List.flatMap_assoc, flatMap_references] at hreferences
  rw [order_ofOperations, funext (dependencies_ofOperations ops)]
  exact hreferences

theorem contains_ofOperations_iff (ops : List Operation) (n : Name) :
    (ofOperations ops).contains n = true ↔
      n ∈ (ops.filterMap Operation.definition?).map Calc.target := by
  rw [contains, ← Std.ExtTreeMap.mem_iff_contains]
  exact (collects_ofOperations ops).mem_edges n

/-- The table of edges has the nodes for its keys, in an order of its own. -/
theorem perm_keys_edges (ops : List Operation) :
    (ofOperations ops).edges.keys.Perm (ofOperations ops).order := by
  refine (List.perm_ext_iff_of_nodup Std.ExtTreeMap.nodup_keys ?_).2 fun n => ?_
  · rw [order_ofOperations]
    exact nodup_eraseDups _
  · rw [order_ofOperations, List.mem_eraseDups, Std.ExtTreeMap.mem_keys]
    exact (collects_ofOperations ops).mem_edges n

theorem edgeCount_eq (g : Graph) : g.edgeCount = (g.edges.keys.flatMap g.dependencies).length := by
  have hdeps : ∀ p ∈ g.edges.toList, g.dependencies p.1 = p.2 := by
    intro p hp
    rw [dependencies, Std.ExtTreeMap.getD_eq_getD_getElem?,
      Std.ExtTreeMap.mem_toList_iff_getElem?_eq_some.1 hp, Option.getD_some]
  have hcount (ps : List (Name × List Name)) (count : Nat) :
      ps.foldl (fun count p => count + p.2.length) count =
        count + (ps.flatMap Prod.snd).length := by
    induction ps generalizing count with
    | nil => rfl
    | cons p ps ih =>
      rw [List.foldl_cons, ih, List.flatMap_cons, List.length_append, Nat.add_assoc]
  rw [edgeCount, Std.ExtTreeMap.foldl_eq_foldl_toList, hcount, Nat.zero_add,
    ← Std.ExtTreeMap.map_fst_toList_eq_keys, List.flatMap_map]
  exact congrArg List.length (List.flatMap_congr fun p hp => (hdeps p hp).symm)

theorem mem_targets_iff (ops : List Operation) (n : Name) :
    n ∈ (ops.filterMap Operation.definition?).map Calc.target ↔
      ∃ c : Calc, .define c ∈ ops ∧ c.target = n := by
  simp

/-- What is said of the dependency graph of an operation list. -/
structure Describes (g : Graph) (ops : List Operation) : Prop where
  /-- Each node comes once, in the order of the first definitions. -/
  order : (g.nodes.map Prod.fst).Pairwise fun n m =>
    ((ops.filterMap Operation.definition?).map Calc.target).idxOf n <
      ((ops.filterMap Operation.definition?).map Calc.target).idxOf m
  mem_nodes : ∀ n deps, (n, deps) ∈ g.nodes ↔
    (∃ c : Calc, .define c ∈ ops ∧ c.target = n) ∧ deps = g.dependencies n
  dependencies : ∀ n, g.dependencies n =
    ((ops.filterMap Operation.definition?).filter (·.target = n)).flatMap Calc.references
  dependencies_of_not : ∀ n, (¬ ∃ c : Calc, .define c ∈ ops ∧ c.target = n) → g.dependencies n = []
  contains : ∀ n, g.contains n = true ↔ ∃ c : Calc, .define c ∈ ops ∧ c.target = n
  size : g.size = g.nodes.length
  edgeCount : g.edgeCount =
    ((ops.filterMap Operation.definition?).flatMap Calc.references).length

/-- The graph of an operation list is faithful to it, whatever is defined again. -/
theorem describes_ofOperations (ops : List Operation) : (ofOperations ops).Describes ops where
  order := by
    rw [nodes, List.map_map, order_ofOperations]
    simpa [Function.comp_def] using pairwise_idxOf_eraseDups _
  mem_nodes n deps := by
    rw [← mem_targets_iff, nodes, order_ofOperations]
    constructor
    · intro h
      obtain ⟨m, hm, heq⟩ := List.mem_map.1 h
      obtain ⟨rfl, rfl⟩ := Prod.mk.inj heq
      exact ⟨List.mem_eraseDups.1 hm, rfl⟩
    · rintro ⟨hn, rfl⟩
      exact List.mem_map_of_mem (f := fun n => (n, dependencies _ n)) (List.mem_eraseDups.2 hn)
  dependencies := dependencies_ofOperations ops
  dependencies_of_not n hn := by
    have hnone : (ops.filterMap Operation.definition?).filter (·.target = n) = [] := by
      refine List.filter_eq_nil_iff.2 fun c hc htarget => hn ⟨c, ?_, of_decide_eq_true htarget⟩
      simpa using hc
    rw [dependencies_ofOperations, hnone, List.flatMap_nil]
  contains n := by rw [contains_ofOperations_iff, mem_targets_iff]
  size := by rw [size, nodes, List.length_map]
  edgeCount := by
    rw [edgeCount_eq, ((perm_keys_edges ops).flatMap_right _).length_eq,
      (perm_flatMap_dependencies ops).length_eq, flatMap_references]

end Graph

end Wavefront
