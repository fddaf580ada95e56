import Wavefront.Value

set_option autoImplicit false

/-!
# Operators

Addition, subtraction and multiplication are exact: a result that is no value is an
overflow, never a wrapped number. Any other symbol is kept as it was written and can be
applied to nothing.
-/
namespace Wavefront

inductive Operator
  | add
  | sub
  | mul
  | other (symbol : String)
deriving DecidableEq

inductive ApplyError
  | unsupported
  | overflow
deriving DecidableEq

def ApplyError.message : ApplyError → String
  | .unsupported => "unsupported operator"
  | .overflow => "integer overflow"

namespace Operator

def ofSymbol (symbol : String) : Operator :=
  if symbol = "+" then add
  else if symbol = "-" then sub
  else if symbol = "*" then mul
  else other symbol

def symbol : Operator → String
  | add => "+"
  | sub => "-"
  | mul => "*"
  | other symbol => symbol

theorem symbol_ofSymbol (s : String) : (ofSymbol s).symbol = s := by
  unfold ofSymbol
  split
  · simp_all [symbol]
  · split
    · simp_all [symbol]
    · split <;> simp_all [symbol]

def isSupported : Operator → Bool
  | other _ => false
  | _ => true

/-- The exact integer result, before it is asked whether it is a value. -/
def result? : Operator → Int → Int → Option Int
  | add, a, b => some (a + b)
  | sub, a, b => some (a - b)
  | mul, a, b => some (a * b)
  | other _, _, _ => none

def apply (op : Operator) (left right : Value) : Except ApplyError Value :=
  match op.result? left.toInt right.toInt with
  | none => .error .unsupported
  | some n =>
    match Value.ofInt? n with
    | none => .error .overflow
    | some v => .ok v

theorem apply_eq_ok_iff (op : Operator) (left right v : Value) :
    op.apply left right = .ok v ↔ op.result? left.toInt right.toInt = some v.toInt := by
  unfold apply
  cases h : op.result? left.toInt right.toInt with
  | none => simp
  | some n =>
    have := Value.ofInt?_eq_some_iff n v
    cases hv : Value.ofInt? n <;> grind

theorem apply_eq_unsupported_iff (op : Operator) (left right : Value) :
    op.apply left right = .error .unsupported ↔ op.isSupported = false := by
  unfold apply
  cases op <;> simp only [result?, isSupported] <;> cases Value.ofInt? _ <;> simp

end Operator

end Wavefront
