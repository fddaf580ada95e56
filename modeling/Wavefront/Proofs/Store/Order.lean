import Mathlib.Order.Defs.PartialOrder
import Wavefront.Schedule

set_option autoImplicit false

/-!
# Stores ordered by what they hold

A store is below another that holds all its values unchanged. Operands that resolve in a store
resolve to the same value in every store above it.
-/
namespace Wavefront.Store

instance : PartialOrder Store where
  le s t := ∀ n v, s.get? n = some v → t.get? n = some v
  le_refl _ _ _ h := h
  le_trans _ _ _ hst htu n v h := htu n v (hst n v h)
  le_antisymm s t hst hts := ext fun n => by
    cases hs : s.get? n with
    | some v => exact (hst n v hs).symm
    | none =>
      cases ht : t.get? n with
      | some v => exact absurd (hts n v ht) (by simp [hs])
      | none => rfl

theorem get?_eq_none_of_le {s t : Store} (h : s ≤ t) {n : Name} (ht : t.get? n = none) :
    s.get? n = none := by
  cases hs : s.get? n with
  | none => rfl
  | some v => exact absurd (h n v hs) (by simp [ht])

theorem size_set (s : Store) {n : Name} (h : s.get? n = none) (v : Value) :
    (s.set n v).size = s.size + 1 := by
  have hn : n ∉ s.values := by simpa [get?] using h
  simp [size, set, Std.ExtTreeMap.size_insert, hn]

theorem contains_iff (s : Store) (n : Name) : s.contains n ↔ ∃ v, s.get? n = some v := by
  rw [contains_eq_isSome, Option.isSome_iff_exists]

theorem exists_resolve {s : Store} {o : Operand} (h : ∀ n, o = .reference n → s.contains n) :
    ∃ v, s.resolve o = some v := by
  cases o with
  | literal v => exact ⟨v, rfl⟩
  | reference n => exact (s.contains_iff n).1 (h n rfl)

theorem resolve_of_le {s t : Store} (h : s ≤ t) {o : Operand} {v : Value}
    (hs : s.resolve o = some v) : t.resolve o = some v := by
  cases o with
  | literal w => exact hs
  | reference n => exact h n v hs

end Wavefront.Store
