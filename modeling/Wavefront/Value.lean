set_option autoImplicit false

/-!
# Values

Values are the integers from -2^63 to 2^63 - 1. There is no wrapping: `Value.ofInt?`
has nothing to offer for an integer outside that range.
-/
namespace Wavefront

structure Value where
  toInt : Int
  min_le : -9223372036854775808 ≤ toInt
  le_max : toInt ≤ 9223372036854775807
deriving DecidableEq

namespace Value

theorem ext {v w : Value} (h : v.toInt = w.toInt) : v = w := by
  cases v; cases w; simp_all

def ofInt? (n : Int) : Option Value :=
  if h : -9223372036854775808 ≤ n ∧ n ≤ 9223372036854775807 then some ⟨n, h.1, h.2⟩ else none

theorem ofInt?_eq_some_iff (n : Int) (v : Value) : ofInt? n = some v ↔ v.toInt = n := by
  have := v.min_le
  have := v.le_max
  unfold ofInt?
  split
  · rw [Option.some.injEq]
    exact ⟨fun h => h ▸ rfl, fun h => ext h.symm⟩
  · simp only [reduceCtorEq, false_iff]
    rintro rfl
    omega

theorem ofInt?_toInt (v : Value) : ofInt? v.toInt = some v :=
  (ofInt?_eq_some_iff _ v).2 rfl

instance : Zero Value := ⟨⟨0, by decide, by decide⟩⟩

def text (v : Value) : String := v.toInt.repr

end Value

end Wavefront
