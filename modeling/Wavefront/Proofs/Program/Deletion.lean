import Wavefront.Proofs.Program.Numbering

set_option autoImplicit false

/-!
# Deleting operations

Operations that stay in a list from which others are deleted move up. The place of an operation is
the number of those before it that stay, and the definitions that stay are the tasks of the shorter
list under their places.
-/
namespace Wavefront

def place (keep : Operation → Bool) (ops : List Operation) (i : Nat) : Nat :=
  (ops.take i).countP keep

theorem place_cons_succ (keep : Operation → Bool) (o : Operation) (ops : List Operation) (i : Nat) :
    place keep (o :: ops) (i + 1) = place keep ops i + if keep o then 1 else 0 := by
  rw [place, List.take_succ_cons, List.countP_cons]
  rfl

theorem zipIdx_filter_from (keep : Operation → Bool) (ops : List Operation) (i j : Nat) :
    (ops.filter keep).zipIdx j =
      ((ops.zipIdx i).filter fun x => keep x.1).map fun x =>
        (x.1, place keep ops (x.2 - i) + j) := by
  induction ops generalizing i j with
  | nil => rfl
  | cons o rest ih =>
    -- every operation of the rest has `o` before it, which counts if it stays
    have hlater (k : Nat) : (((rest.zipIdx (i + 1)).filter fun x => keep x.1).map fun x =>
        (x.1, place keep (o :: rest) (x.2 - i) + k)) =
          (rest.filter keep).zipIdx (k + if keep o then 1 else 0) := by
      rw [ih (i + 1)]
      refine List.map_congr_left fun x hx => ?_
      have hle : i + 1 ≤ x.2 := List.le_snd_of_mem_zipIdx (List.mem_filter.1 hx).1
      have hsucc : x.2 - i = (x.2 - (i + 1)) + 1 := by omega
      rw [hsucc, place_cons_succ]
      exact congrArg (Prod.mk x.1) (by omega)
    rw [List.zipIdx_cons, List.filter_cons, List.filter_cons]
    cases hk : keep o with
    | true =>
      have hfirst : place keep (o :: rest) (i - i) = 0 := by simp [place]
      simp only [if_true, List.map_cons, List.zipIdx_cons, hfirst, hlater, hk, Nat.zero_add]
    | false => simp [hlater, hk]

theorem zipIdx_filter (keep : Operation → Bool) (ops : List Operation) :
    (ops.filter keep).zipIdx =
      (ops.zipIdx.filter fun x => keep x.1).map fun x => (x.1, place keep ops x.2) :=
  zipIdx_filter_from keep ops 0 0

theorem getElem?_place {keep : Operation → Bool} {ops : List Operation} {i : Nat} {o : Operation}
    (h : ops[i]? = some o) (hk : keep o = true) :
    (ops.filter keep)[place keep ops i]? = some o := by
  have hmem : (o, i) ∈ ops.zipIdx := List.mem_zipIdx_iff_getElem?.2 h
  have hplace : (o, place keep ops i) ∈ (ops.filter keep).zipIdx := by
    rw [zipIdx_filter]
    exact List.mem_map.2 ⟨(o, i), List.mem_filter.2 ⟨hmem, hk⟩, rfl⟩
  exact List.mem_zipIdx_iff_getElem?.1 hplace

theorem tasksFrom_eq_filterMap (i : Nat) (ops : List Operation) :
    tasksFrom i ops =
      (ops.zipIdx i).filterMap fun x => x.1.definition?.map fun c => ⟨x.2, c⟩ := by
  induction ops generalizing i with
  | nil => rfl
  | cons o rest ih =>
    cases o with
    | define c => exact congrArg (_ :: ·) (ih (i + 1))
    | print n => exact ih (i + 1)

theorem tasksFrom_filter (keep : Operation → Bool) (ops : List Operation) :
    tasksFrom 0 (ops.filter keep) =
      ((tasksFrom 0 ops).filter fun t => keep (.define t.definition)).map
        (Task.renumber (place keep ops)) := by
  rw [tasksFrom_eq_filterMap, tasksFrom_eq_filterMap, zipIdx_filter, List.filterMap_map,
    List.filterMap_filter, List.filter_filterMap, List.map_filterMap]
  refine List.filterMap_congr fun x _ => ?_
  obtain ⟨o, i⟩ := x
  cases o with
  | define c =>
    cases hk : keep (.define c) <;> simp [Operation.definition?, Option.filter, hk, Task.renumber]
  | print n => simp [Operation.definition?]

end Wavefront
