import Wavefront.Proofs.Liveness.Reachability
import Wavefront.Proofs.Program.Renaming

set_option autoImplicit false

/-!
# Liveness under other names

The dependency graph of a renamed list is the renamed graph, its nodes in the same order and the
dependencies of each in the same order. A print leads to a new name exactly when it led to the old
one.
-/
namespace Wavefront

open Relation

variable (f : Name ↪ Name)

/-! ## Graphs -/

def renameEdges (edges : NameMap (List Name)) : NameMap (List Name) :=
  NameMap.rename f (edges.map fun _ deps => deps.map f)

theorem getD_renameEdges (edges : NameMap (List Name)) (n : Name) :
    (renameEdges f edges).getD (f n) [] = (edges.getD n []).map f := by
  rw [Std.ExtTreeMap.getD_eq_getD_getElem?, Std.ExtTreeMap.getD_eq_getD_getElem?, renameEdges,
    NameMap.getElem?_rename, Std.ExtTreeMap.getElem?_map]
  cases edges[n]? <;> rfl

theorem mem_renameEdges_iff (edges : NameMap (List Name)) (n : Name) :
    f n ∈ renameEdges f edges ↔ n ∈ edges := by
  rw [← Std.ExtTreeMap.isSome_getElem?_iff_mem, renameEdges, NameMap.getElem?_rename,
    Std.ExtTreeMap.getElem?_map, Option.isSome_map, Std.ExtTreeMap.isSome_getElem?_iff_mem]

theorem renameEdges_insert (edges : NameMap (List Name)) (n : Name) (deps : List Name) :
    renameEdges f (edges.insert n deps) = (renameEdges f edges).insert (f n) (deps.map f) := by
  have hmap : ((edges.insert n deps).map fun _ deps => deps.map f) =
      (edges.map fun _ deps => deps.map f).insert n (deps.map f) := by
    refine Std.ExtTreeMap.ext_getElem? fun k => ?_
    simp only [Std.ExtTreeMap.getElem?_map, Std.ExtTreeMap.getElem?_insert]
    split <;> rfl
  rw [renameEdges, hmap, NameMap.rename_insert]
  rfl

theorem renameEdges_empty : renameEdges f ∅ = ∅ :=
  (NameMap.eq_rename f (fun _ => by simp) fun _ _ => by simp).symm

namespace Graph

def rename (g : Graph) : Graph := ⟨g.order.map f, renameEdges f g.edges⟩

theorem nodes_rename (g : Graph) :
    (g.rename f).nodes = g.nodes.map fun (n, deps) => (f n, deps.map f) := by
  simp only [nodes, rename, List.map_map]
  exact List.map_congr_left fun n _ => congrArg (Prod.mk (f n)) (getD_renameEdges f g.edges n)

theorem addEdges_rename (edges : NameMap (List Name)) (c : Calc) :
    addEdges (renameEdges f edges) (c.rename f) = renameEdges f (addEdges edges c) := by
  rw [addEdges, addEdges, renameEdges_insert, Calc.references_rename, List.map_append,
    ← getD_renameEdges]
  rfl

def Draft.rename (d : Draft) : Draft := ⟨d.order.map f, renameEdges f d.edges⟩

theorem Draft.add_rename (d : Draft) (c : Calc) :
    (d.rename f).add (c.rename f) = (d.add c).rename f := by
  have hmem : f c.target ∈ renameEdges f d.edges ↔ c.target ∈ d.edges := by
    rw [mem_renameEdges_iff]
  have htarget : (c.rename f).target = f c.target := rfl
  simp only [add, rename, addEdges_rename, htarget, hmem]
  by_cases hc : c.target ∈ d.edges
  · simp only [hc, if_true]
  · simp only [hc, if_false, Array.map_push]

theorem ofOperations_map_rename (ops : List Operation) :
    ofOperations (ops.map (Operation.rename f)) = (ofOperations ops).rename f := by
  have hdraft (cs : List Calc) : (cs.map (Calc.rename f)).foldl Draft.add Draft.blank =
      (cs.foldl Draft.add Draft.blank).rename f := by
    have hhom : cs.foldl (fun d c => d.add (c.rename f)) (Draft.blank.rename f) =
        (cs.foldl Draft.add Draft.blank).rename f :=
      List.foldl_hom (Draft.rename f) (Draft.add_rename f)
    have hblank : Draft.blank.rename f = Draft.blank := by
      simp only [Draft.rename, Draft.blank, renameEdges_empty, Array.map_empty]
    rw [List.foldl_map, ← hhom, hblank]
  rw [ofOperations, map_definition?_rename, hdraft]
  simp only [Draft.graph, Draft.rename, Array.toList_map, rename, ofOperations]

end Graph

/-! ## Live names -/

theorem refers_map_rename_iff (ops : List Operation) (x y : Name) :
    Refers (ops.map (Operation.rename f)) x y ↔ ∃ n m, f n = x ∧ f m = y ∧ Refers ops n m := by
  have hdefine (c : Calc) : .define c ∈ ops.map (Operation.rename f) ↔
      ∃ d : Calc, .define d ∈ ops ∧ d.rename f = c := by
    rw [List.mem_map]
    constructor
    · rintro ⟨o, ho, heq⟩
      cases o with
      | define d => exact ⟨d, ho, Operation.define.inj heq⟩
      | print n => cases heq
    · rintro ⟨d, hd, rfl⟩
      exact ⟨.define d, hd, rfl⟩
  constructor
  · rintro ⟨c, hc, rfl, hy⟩
    obtain ⟨d, hd, rfl⟩ := (hdefine c).1 hc
    rw [Calc.references_rename, List.mem_map] at hy
    obtain ⟨m, hm, rfl⟩ := hy
    exact ⟨d.target, m, rfl, rfl, d, hd, rfl, hm⟩
  · rintro ⟨n, m, rfl, rfl, d, hd, rfl, hm⟩
    refine ⟨d.rename f, (hdefine _).2 ⟨d, hd, rfl⟩, rfl, ?_⟩
    rw [Calc.references_rename]
    exact List.mem_map_of_mem hm

/-- A path from a new name goes through new names only. -/
theorem reflTransGen_map_rename_iff (ops : List Operation) (n y : Name) :
    ReflTransGen (Refers (ops.map (Operation.rename f))) (f n) y ↔
      ∃ m, f m = y ∧ ReflTransGen (Refers ops) n m := by
  constructor
  · intro h
    induction h with
    | refl => exact ⟨n, rfl, .refl⟩
    | tail _ hstep ih =>
      obtain ⟨m, rfl, hpath⟩ := ih
      obtain ⟨m', k, hm', rfl, hrefers⟩ := (refers_map_rename_iff f ops _ _).1 hstep
      obtain rfl := f.injective hm'
      exact ⟨k, rfl, hpath.tail hrefers⟩
  · rintro ⟨m, rfl, hpath⟩
    induction hpath with
    | refl => exact .refl
    | tail _ hrefers ih =>
      exact ih.tail ((refers_map_rename_iff f ops _ _).2 ⟨_, _, rfl, rfl, hrefers⟩)

theorem liveNames_map_rename (ops : List Operation) :
    liveNames (ops.map (Operation.rename f)) = NameSet.rename f (liveNames ops) := by
  have hprint (q : Name) :
      .print q ∈ ops.map (Operation.rename f) ↔ ∃ p, .print p ∈ ops ∧ f p = q := by
    have h := congrArg (q ∈ ·) (map_printed?_rename f ops)
    simpa using h
  refine Std.ExtTreeSet.ext_mem fun k => ?_
  rw [NameSet.mem_rename_iff, mem_liveNames_iff_refers]
  constructor
  · rintro ⟨q, hq, hpath⟩
    obtain ⟨p, hp, rfl⟩ := (hprint q).1 hq
    obtain ⟨n, rfl, hpath'⟩ := (reflTransGen_map_rename_iff f ops p k).1 hpath
    exact ⟨n, (mem_liveNames_iff_refers ops n).2 ⟨p, hp, hpath'⟩, rfl⟩
  · rintro ⟨n, hn, rfl⟩
    obtain ⟨p, hp, hpath⟩ := (mem_liveNames_iff_refers ops n).1 hn
    have hpath' := (reflTransGen_map_rename_iff f ops p (f n)).2 ⟨n, rfl, hpath⟩
    exact ⟨f p, (hprint _).2 ⟨p, hp, rfl⟩, hpath'⟩

end Wavefront
