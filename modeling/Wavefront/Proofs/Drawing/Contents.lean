import Wavefront.Proofs.Drawing.Reading
import Wavefront.Proofs.Graph.Contents

set_option autoImplicit false

/-!
# What a drawing shows

A sheet is filled by one mark after the other, and a name may be marked many times. In the end each
name is there once, where it came in first, and its shade does not depend on whether its print or
its definition came first.
-/
namespace Wavefront

namespace Sheet

def shown? (marks : List (Name × Shade)) (n : Name) : Option Shade :=
  if (n, .printed) ∈ marks then some .printed else (marks.find? (·.1 = n)).map Prod.snd

theorem shown?_eq_none_iff (marks : List (Name × Shade)) (n : Name) :
    shown? marks n = none ↔ n ∉ marks.map Prod.fst := by
  unfold shown?
  split
  · rename_i h
    simpa using ⟨_, h⟩
  · rw [Option.map_eq_none_iff, List.find?_eq_none, List.mem_map]
    simp only [decide_eq_true_eq, not_exists, not_and]

/-- One more mark counts if it is for a print or the first of its name. -/
theorem shown?_append_singleton (marks : List (Name × Shade)) (n m : Name) (shade : Shade) :
    shown? (marks ++ [(n, shade)]) m =
      if n = m ∧ (shade = .printed ∨ shown? marks n = none) then some shade
      else shown? marks m := by
  by_cases hnm : n = m
  · subst hnm
    by_cases hprinted : (n, Shade.printed) ∈ marks
    · by_cases hshade : shade = .printed <;> simp [shown?, hprinted, hshade]
    · by_cases hshade : shade = .printed
      · simp [shown?, hshade]
      · cases hfind : marks.find? (·.1 = n) <;>
          simp [shown?, hprinted, hshade, Ne.symm hshade, hfind, List.find?_append]
  · simp [shown?, hnm, Ne.symm hnm, List.find?_append]

theorem getElem?_mark (s : Sheet) (n m : Name) (shade : Shade) :
    (s.mark n shade).shades[m]? =
      if n = m ∧ (shade = .printed ∨ s.shades[n]? = none) then some shade else s.shades[m]? := by
  unfold mark
  by_cases hn : n ∈ s.shades
  · by_cases hshade : shade = .printed
    · simp [hn, hshade, Std.ExtTreeMap.getElem?_insert]
    · simp [hn, hshade]
  · simp [hn, Std.ExtTreeMap.getElem?_insert]

theorem toList_order_mark (s : Sheet) (n : Name) (shade : Shade) :
    (s.mark n shade).order.toList =
      if s.shades[n]? = none then s.order.toList ++ [n] else s.order.toList := by
  unfold mark
  by_cases hn : n ∈ s.shades
  · by_cases hshade : shade = .printed <;> simp [hn, hshade]
  · simp [hn]

structure Shows (s : Sheet) (marks : List (Name × Shade)) : Prop where
  order : s.order.toList = (marks.map Prod.fst).eraseDups
  shades : ∀ n, s.shades[n]? = shown? marks n

theorem shows_blank : blank.Shows [] where
  order := rfl
  shades n := by simp [blank, shown?]

theorem Shows.mark {s : Sheet} {marks : List (Name × Shade)} (h : s.Shows marks) (n : Name)
    (shade : Shade) : (s.mark n shade).Shows (marks ++ [(n, shade)]) where
  order := by
    rw [toList_order_mark, h.shades, h.order, List.map_append, List.map_singleton,
      eraseDups_append_singleton]
    by_cases hn : n ∈ marks.map Prod.fst
    · rw [if_pos hn, if_neg fun hnone => (shown?_eq_none_iff marks n).1 hnone hn]
    · rw [if_neg hn, if_pos ((shown?_eq_none_iff marks n).2 hn)]
  shades m := by
    rw [getElem?_mark, shown?_append_singleton, h.shades, h.shades]

theorem Shows.foldl_mark {s : Sheet} {marks : List (Name × Shade)} (h : s.Shows marks)
    (more : List (Name × Shade)) :
    (more.foldl (fun s p => s.mark p.1 p.2) s).Shows (marks ++ more) := by
  induction more generalizing s marks with
  | nil => simpa using h
  | cons p more ih =>
    have hmore := ih (h.mark p.1 p.2)
    rwa [List.append_assoc] at hmore

theorem Shows.nodes {s : Sheet} {marks : List (Name × Shade)} (h : s.Shows marks) :
    s.nodes =
      (marks.map Prod.fst).eraseDups.map fun n => (n, (shown? marks n).getD .undefined) := by
  simp only [Sheet.nodes, h.order, Std.ExtTreeMap.getD_eq_getD_getElem?, h.shades]

end Sheet

/-- When a name has a shade: a print counts for more than a definition. -/
def Shade.Fits (ops : List Operation) (live : NameSet) (n : Name) : Shade → Prop
  | .printed => .print n ∈ ops
  | .live => .print n ∉ ops ∧ (∃ c : Calc, .define c ∈ ops ∧ c.target = n) ∧ n ∈ live
  | .dead => .print n ∉ ops ∧ (∃ c : Calc, .define c ∈ ops ∧ c.target = n) ∧ n ∉ live
  | .undefined => .print n ∉ ops ∧ ¬ ∃ c : Calc, .define c ∈ ops ∧ c.target = n

theorem Shade.Fits.unique {ops : List Operation} {live : NameSet} {n : Name} {s s' : Shade}
    (h : s.Fits ops live n) (h' : s'.Fits ops live n) : s = s' := by
  cases s <;> cases s' <;> simp only [Fits] at h h' <;> grind

namespace Drawing

variable (ops : List Operation) (live : NameSet) (g : Graph)

def marks : List (Name × Shade) :=
  ops.map (fun o => (o.target, o.shade live)) ++
    (ops.flatMap Operation.references).map fun n => (n, .undefined)

theorem map_fst_marks :
    (marks ops live).map Prod.fst =
      ops.map Operation.target ++ ops.flatMap Operation.references := by
  simp [marks, Function.comp_def]

theorem printed_mem_marks_iff (n : Name) : (n, .printed) ∈ marks ops live ↔ .print n ∈ ops := by
  constructor
  · intro h
    rcases List.mem_append.1 h with h | h
    · obtain ⟨o, ho, heq⟩ := List.mem_map.1 h
      obtain ⟨htarget, hshade⟩ := Prod.mk.inj heq
      cases o with
      | print m => exact htarget ▸ ho
      | define c =>
        simp only [Operation.shade] at hshade
        split at hshade <;> simp at hshade
    · simp at h
  · intro h
    exact List.mem_append_left _ (List.mem_map_of_mem (f := fun o => (o.target, o.shade live)) h)

/-- If there is no print, the marks for targets come before those for references. -/
theorem fits_of_shown? {n : Name} {s : Shade} (h : Sheet.shown? (marks ops live) n = some s) :
    s.Fits ops live n := by
  unfold Sheet.shown? at h
  split at h
  case isTrue hprint =>
    obtain rfl := Option.some.inj h
    exact (printed_mem_marks_iff ops live n).1 hprint
  case isFalse hprint =>
    have hprint : .print n ∉ ops := mt (printed_mem_marks_iff ops live n).2 hprint
    obtain ⟨p, hfind, rfl⟩ := Option.map_eq_some_iff.1 h
    rw [marks, List.find?_append] at hfind
    cases htarget : (ops.map fun o => (o.target, o.shade live)).find? (·.1 = n) with
    | some q =>
      obtain rfl : q = p := by simpa [htarget] using hfind
      obtain ⟨o, ho, rfl⟩ := List.mem_map.1 (List.mem_of_find?_eq_some htarget)
      obtain rfl : o.target = n := by simpa using List.find?_some htarget
      cases o with
      | print m => exact absurd ho hprint
      | define c =>
        by_cases hlive : c.target ∈ live
        · simpa [Operation.shade, hlive, Shade.Fits, Operation.target] using ⟨hprint, c, ho, rfl⟩
        · simpa [Operation.shade, hlive, Shade.Fits, Operation.target] using ⟨hprint, c, ho, rfl⟩
    | none =>
      rw [htarget, Option.none_or] at hfind
      obtain ⟨m, -, rfl⟩ := List.mem_map.1 (List.mem_of_find?_eq_some hfind)
      refine ⟨hprint, ?_⟩
      rintro ⟨c, hc, hn⟩
      have hnone := List.find?_eq_none.1 htarget _ (List.mem_map_of_mem hc)
      simp [Operation.target, hn] at hnone

theorem nodes_ofOperations :
    (ofOperations ops live g).nodes = ((marks ops live).map Prod.fst).eraseDups.map fun n =>
      (n, (Sheet.shown? (marks ops live) n).getD .undefined) := by
  have htargets := Sheet.shows_blank.foldl_mark (ops.map fun o => (o.target, o.shade live))
  have hall := htargets.foldl_mark ((ops.flatMap Operation.references).map fun n => (n, .undefined))
  rw [List.foldl_map, List.foldl_map] at hall
  exact hall.nodes

theorem map_fst_nodes :
    (ofOperations ops live g).nodes.map Prod.fst =
      (ops.map Operation.target ++ ops.flatMap Operation.references).eraseDups := by
  rw [nodes_ofOperations, map_fst_marks, List.map_map]
  exact List.map_id _

theorem mem_nodes_iff (n : Name) (s : Shade) :
    (n, s) ∈ (ofOperations ops live g).nodes ↔
      n ∈ ops.map Operation.target ++ ops.flatMap Operation.references ∧ s.Fits ops live n := by
  have hshown (hn : n ∈ ops.map Operation.target ++ ops.flatMap Operation.references) :
      ∃ s', Sheet.shown? (marks ops live) n = some s' := by
    rw [← map_fst_marks ops live] at hn
    exact Option.ne_none_iff_exists'.1 (mt (Sheet.shown?_eq_none_iff _ n).1 (not_not.2 hn))
  rw [nodes_ofOperations, map_fst_marks]
  constructor
  · intro h
    obtain ⟨m, hm, heq⟩ := List.mem_map.1 h
    obtain ⟨rfl, hs⟩ := Prod.mk.inj heq
    have hn := List.mem_eraseDups.1 hm
    obtain ⟨s', hs'⟩ := hshown hn
    rw [hs', Option.getD_some] at hs
    exact ⟨hn, hs ▸ fits_of_shown? ops live hs'⟩
  · rintro ⟨hn, hfits⟩
    obtain ⟨s', hs'⟩ := hshown hn
    obtain rfl := hfits.unique (fits_of_shown? ops live hs')
    exact List.mem_map.2 ⟨n, List.mem_eraseDups.2 hn, by rw [hs', Option.getD_some]⟩

theorem edges_ofOperations :
    (ofOperations ops live g).edges =
      g.order.flatMap fun n => (g.dependencies n).map fun d => (d, n) := by
  simp [ofOperations, Graph.nodes, List.flatMap_map]

/-- A drawing of a list of operations and a graph, as it can be read off its text. -/
structure Depicts (d : Drawing) : Prop where
  read_dot : Dot.read? d.dot =
    some (d.nodes.map Dot.nodeStatement ++ d.edges.map Dot.edgeStatement)
  names : d.nodes.map Prod.fst = (ops.map Operation.target).eraseDups ++
    ((ops.flatMap Operation.references).removeAll (ops.map Operation.target)).eraseDups
  nodup : (d.nodes.map Prod.fst).Nodup
  mem_nodes_iff : ∀ n s, (n, s) ∈ d.nodes ↔
    n ∈ ops.map Operation.target ++ ops.flatMap Operation.references ∧ s.Fits ops live n
  edges : d.edges = g.order.flatMap fun n => (g.dependencies n).map fun d => (d, n)

theorem depicts_ofOperations : (ofOperations ops live g).Depicts ops live g where
  read_dot := Dot.read?_dot _
  names := by rw [map_fst_nodes, List.eraseDups_append]
  nodup := by
    rw [map_fst_nodes]
    exact nodup_eraseDups _
  mem_nodes_iff := mem_nodes_iff ops live g
  edges := edges_ofOperations ops live g

theorem map_fst_edges :
    (ofOperations ops live g).edges.map Prod.fst = g.order.flatMap g.dependencies := by
  simp [edges_ofOperations, List.map_flatMap, Function.comp_def]

theorem map_snd_edges_subset : (ofOperations ops live g).edges.map Prod.snd ⊆ g.order := by
  intro n hn
  obtain ⟨e, he, rfl⟩ := List.mem_map.1 hn
  rw [edges_ofOperations] at he
  obtain ⟨m, hm, hd⟩ := List.mem_flatMap.1 he
  obtain ⟨d, -, rfl⟩ := List.mem_map.1 hd
  exact hm

/-- Each name is drawn once, in the order the names come in, with the shade that the operations
give it, and each edge of the graph from what is needed to what needs it. If the graph is that of
the operations, all its edges are between names that are drawn, and there is one for each
reference. -/
theorem dot_contents :
    (ofOperations ops live g).Depicts ops live g ∧
      (ofOperations ops live (.ofOperations ops)).edges.map Prod.fst ⊆
        (ofOperations ops live (.ofOperations ops)).nodes.map Prod.fst ∧
      (ofOperations ops live (.ofOperations ops)).edges.map Prod.snd ⊆
        (ofOperations ops live (.ofOperations ops)).nodes.map Prod.fst ∧
      (ofOperations ops live (.ofOperations ops)).edges.length =
        (ops.flatMap Operation.references).length := by
  have hdrawn {n : Name} (hn : n ∈ ops.map Operation.target ++ ops.flatMap Operation.references) :
      n ∈ (ofOperations ops live (.ofOperations ops)).nodes.map Prod.fst := by
    rw [map_fst_nodes]
    exact List.mem_eraseDups.2 hn
  have hreferences := Graph.perm_flatMap_dependencies ops
  rw [← map_fst_edges ops live] at hreferences
  refine ⟨depicts_ofOperations ops live g, ?_, ?_, ?_⟩
  · intro d hd
    exact hdrawn (List.mem_append_right _ (hreferences.subset hd))
  · intro n hn
    have horder := map_snd_edges_subset ops live (.ofOperations ops) hn
    exact hdrawn (List.mem_append_left _ (Graph.order_ofOperations_subset ops horder))
  · rw [← hreferences.length_eq, List.length_map]

end Drawing

end Wavefront
