import Wavefront.Operation

set_option autoImplicit false

/-!
# Operations whose texts are understood again

The texts of an operation say what it is unless a reference looks like a literal or an unsupported
symbol is that of a supported operator. No operation that comes from texts is of that kind.
-/
namespace Wavefront

theorem Operand.ofText_text_iff (o : Operand) :
    ofText o.text = o ↔ ∀ n ∈ o.reference?, Value.ofText? n.text = none := by
  cases o with
  | literal v => simp [ofText_text_literal, reference?]
  | reference n => cases h : Value.ofText? n.text <;> simp [ofText, text, reference?, h]

/-- A literal may be written in another way than it was, but not so that it becomes another. -/
theorem Operand.ofText_text_ofText (t : String) : ofText (ofText t).text = ofText t := by
  cases h : Value.ofText? t with
  | some v =>
    have ht : ofText t = literal v := by simp [ofText, h]
    rw [ht, ofText_text_literal]
  | none =>
    have ht : ofText t = reference ⟨t⟩ := by simp [ofText, h]
    rw [ht]
    exact ht

theorem Operator.ofSymbol_symbol_iff (op : Operator) :
    ofSymbol op.symbol = op ↔ ∀ s, op = other s → s ≠ "+" ∧ s ≠ "-" ∧ s ≠ "*" := by
  cases op with
  | add | sub | mul => simp [symbol, ofSymbol]
  | other s =>
    simp only [symbol, ofSymbol, other.injEq, forall_eq']
    by_cases hadd : s = "+"
    · simp [hadd]
    · by_cases hsub : s = "-"
      · simp [hsub]
      · by_cases hmul : s = "*" <;> simp [hadd, hsub, hmul]

def Calc.reread (c : Calc) : Calc :=
  ofTexts c.target.text c.left.text c.operator.symbol c.right.text

theorem Calc.reread_eq_iff (c : Calc) :
    c.reread = c ↔ (∀ n ∈ c.references, Value.ofText? n.text = none) ∧
      ∀ s, c.operator = .other s → s ≠ "+" ∧ s ≠ "-" ∧ s ≠ "*" := by
  obtain ⟨⟨target⟩, left, operator, right⟩ := c
  have hreferences :
      (∀ n ∈ [left, right].filterMap Operand.reference?, Value.ofText? n.text = none) ↔
        Operand.ofText left.text = left ∧ Operand.ofText right.text = right := by
    rw [left.ofText_text_iff, right.ofText_text_iff]
    cases left <;> cases right <;> simp [Operand.reference?]
  rw [references, hreferences, ← Operator.ofSymbol_symbol_iff, reread, ofTexts]
  simp only [mk.injEq, true_and]
  constructor
  · rintro ⟨hleft, hoperator, hright⟩
    exact ⟨⟨hleft, hright⟩, hoperator⟩
  · rintro ⟨⟨hleft, hright⟩, hoperator⟩
    exact ⟨hleft, hoperator, hright⟩

theorem Calc.reread_ofTexts (target left symbol right : String) :
    (ofTexts target left symbol right).reread = ofTexts target left symbol right := by
  simp [reread, ofTexts, Operand.ofText_text_ofText, Operator.symbol_ofSymbol]

/-- The texts of the operation say what it is. -/
structure Operation.Unambiguous (o : Operation) : Prop where
  named : o.target.text ≠ ""
  /-- No reference looks like a literal. -/
  references : ∀ n ∈ o.references, Value.ofText? n.text = none
  /-- No symbol of a supported operator is taken for an unsupported one. -/
  symbol : ∀ c, o = .define c → ∀ s, c.operator = .other s → s ≠ "+" ∧ s ≠ "-" ∧ s ≠ "*"

namespace Operation

theorem unambiguous_define_iff (c : Calc) :
    (define c).Unambiguous ↔ c.target.text ≠ "" ∧ c.reread = c := by
  rw [c.reread_eq_iff]
  constructor
  · intro h
    exact ⟨h.named, h.references, h.symbol c rfl⟩
  · rintro ⟨hnamed, hreferences, hsymbol⟩
    refine ⟨hnamed, hreferences, ?_⟩
    rintro _ ⟨⟩
    exact hsymbol

theorem unambiguous_print_iff (n : Name) : (print n).Unambiguous ↔ n.text ≠ "" := by
  constructor
  · intro h
    exact h.named
  · intro h
    exact ⟨h, by simp [references], by simp⟩

end Operation

end Wavefront
