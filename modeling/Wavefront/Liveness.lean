import Wavefront.Graph

set_option autoImplicit false

/-!
# Liveness

A variable is live when a print needs it, directly or through the definitions of what it
needs. The live set grows along a worklist. A node leaves the table of edges when it is
visited, so each is visited once and a cycle comes to an end.
-/
namespace Wavefront

/-- Everything that the names of the worklist lead to along the edges, added to `live`. -/
def spread (edges : NameMap (List Name)) (live : NameSet) : List Name → NameSet
  | [] => live
  | n :: rest =>
    match _h : edges[n]? with
    | none => spread edges live rest
    | some deps => spread (edges.erase n) (live.insertMany deps) (deps ++ rest)
termination_by worklist => (edges.size, worklist.length)
decreasing_by
  · apply Prod.Lex.right
    simp
  · apply Prod.Lex.left
    have hmem : n ∈ edges := by
      rw [← Std.ExtTreeMap.isSome_getElem?_iff_mem, _h]
      rfl
    have hpos : edges.size ≠ 0 := by
      intro h
      rw [← Std.ExtTreeMap.eq_empty_iff_size_eq_zero] at h
      simp [h] at hmem
    rw [Std.ExtTreeMap.size_erase, if_pos (Std.ExtTreeMap.mem_iff_contains.1 hmem)]
    omega

def liveNames (ops : List Operation) : NameSet :=
  let printed := ops.filterMap Operation.printed?
  spread (Graph.ofOperations ops).edges (Std.ExtTreeSet.ofList printed) printed

end Wavefront
