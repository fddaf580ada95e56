import Wavefront.Operand
import Wavefront.Proofs.Text.Integer

set_option autoImplicit false

/-!
# Which texts are literals

The text of an operand is a literal exactly if it spells an integer that is a value. Every other
text is a reference to the variable of that name.
-/
namespace Wavefront

theorem Value.ofText?_eq_some_iff (t : String) (v : Value) :
    ofText? t = some v ↔ Text.Spells t.toList v.toInt := by
  rw [ofText?, Option.bind_eq_some_iff]
  constructor
  · rintro ⟨n, hn, hv⟩
    rw [(ofInt?_eq_some_iff n v).1 hv]
    exact (Text.integer?_eq_some_iff _ n).1 hn
  · intro h
    exact ⟨v.toInt, (Text.integer?_eq_some_iff _ _).2 h, ofInt?_toInt v⟩

namespace Operand

theorem ofText_eq_literal_iff (t : String) (v : Value) :
    ofText t = literal v ↔ Text.Spells t.toList v.toInt := by
  rw [← Value.ofText?_eq_some_iff, ofText]
  cases Value.ofText? t <;> simp

theorem isNumber_iff (t : String) : isNumber t = true ↔ ∃ v, ofText t = literal v := by
  simp only [isNumber, ofText]
  cases Value.ofText? t <;> simp

theorem ofText_eq_reference_iff (t : String) : ofText t = reference ⟨t⟩ ↔ isNumber t = false := by
  simp only [isNumber, ofText]
  cases Value.ofText? t <;> simp

theorem exists_literal_iff (t : String) (n : Int) :
    (∃ v : Value, v.toInt = n ∧ ofText t = literal v) ↔
      Text.Spells t.toList n ∧ -2 ^ 63 ≤ n ∧ n ≤ 2 ^ 63 - 1 := by
  constructor
  · rintro ⟨v, rfl, hv⟩
    exact ⟨(ofText_eq_literal_iff t v).1 hv, v.min_le, v.le_max⟩
  · rintro ⟨hspells, hmin, hmax⟩
    exact ⟨⟨n, hmin, hmax⟩, rfl, (ofText_eq_literal_iff t _).2 hspells⟩

/-- A text is a literal if it is one sign at most and then digits, and what it spells is in the
range of values; otherwise it is a reference, unchanged. The text of a literal is a literal
again. -/
theorem ofText_classification (t : String) :
    (∀ n : Int, (∃ v : Value, v.toInt = n ∧ ofText t = literal v) ↔
      Text.Spells t.toList n ∧ -2 ^ 63 ≤ n ∧ n ≤ 2 ^ 63 - 1) ∧
    (isNumber t = true ↔ ∃ v, ofText t = literal v) ∧
    (ofText t = reference ⟨t⟩ ↔ isNumber t = false) ∧
    ∀ v, ofText (literal v).text = literal v :=
  ⟨exists_literal_iff t, isNumber_iff t, ofText_eq_reference_iff t, ofText_text_literal⟩

end Operand

end Wavefront
