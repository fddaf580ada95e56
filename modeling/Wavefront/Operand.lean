import Wavefront.Name
import Wavefront.Value
import Wavefront.Text.Integer

set_option autoImplicit false

/-!
# Operands

The text of an operand is a literal when it is a decimal integer that is a value, and
otherwise the name of a variable. The decision is made once, here, and not again later.
-/
namespace Wavefront

def Value.ofText? (text : String) : Option Value :=
  (Text.integer? text.toList).bind Value.ofInt?

theorem Value.ofText?_text (v : Value) : ofText? v.text = some v := by
  simp [ofText?, Value.text, Text.integer?_repr, Value.ofInt?_toInt]

inductive Operand
  | literal (value : Value)
  | reference (name : Name)
deriving DecidableEq

namespace Operand

def ofText (text : String) : Operand :=
  match Value.ofText? text with
  | some v => literal v
  | none => reference ⟨text⟩

/-- Whether a text is a literal. -/
def isNumber (text : String) : Bool := (Value.ofText? text).isSome

def text : Operand → String
  | literal v => v.text
  | reference n => n.text

theorem ofText_text_literal (v : Value) : ofText (text (literal v)) = literal v := by
  simp [ofText, text, Value.ofText?_text]

def reference? : Operand → Option Name
  | literal _ => none
  | reference n => some n

def isLiteral : Operand → Bool
  | literal _ => true
  | reference _ => false

end Operand

end Wavefront
