import Wavefront.Operand
import Wavefront.Operator

set_option autoImplicit false

/-!
# Operations

A `Calc` gives its target a value by one operator and two operands. An operation defines
a variable by a calc or asks for one to be printed.
-/
namespace Wavefront

structure Calc where
  target : Name
  left : Operand
  operator : Operator
  right : Operand
deriving DecidableEq

namespace Calc

def ofTexts (target left symbol right : String) : Calc :=
  ⟨⟨target⟩, Operand.ofText left, Operator.ofSymbol symbol, Operand.ofText right⟩

/-- The variables the operands name, left before right, a repeated one twice. -/
def references (c : Calc) : List Name := [c.left, c.right].filterMap Operand.reference?

theorem mem_references_iff (c : Calc) (n : Name) :
    n ∈ c.references ↔ c.left = .reference n ∨ c.right = .reference n := by
  have href (o : Operand) : o.reference? = some n ↔ o = .reference n := by
    cases o <;> simp [Operand.reference?]
  simp [references, href, eq_comm]

def text (c : Calc) : String :=
  s!"calc {c.target.text} = {c.left.text} {c.operator.symbol} {c.right.text}"

end Calc

inductive Operation
  | define (c : Calc)
  | print (target : Name)
deriving DecidableEq

namespace Operation

def target : Operation → Name
  | define c => c.target
  | print n => n

def definition? : Operation → Option Calc
  | define c => some c
  | print _ => none

def printed? : Operation → Option Name
  | define _ => none
  | print n => some n

@[simp] theorem definition?_eq_some_iff (o : Operation) (c : Calc) :
    o.definition? = some c ↔ o = define c := by
  cases o <;> simp [definition?]

@[simp] theorem printed?_eq_some_iff (o : Operation) (n : Name) :
    o.printed? = some n ↔ o = print n := by
  cases o <;> simp [printed?]

def isDefinition (o : Operation) : Bool := o.definition?.isSome

def isPrint (o : Operation) : Bool := o.printed?.isSome

def references : Operation → List Name
  | define c => c.references
  | print _ => []

def text : Operation → String
  | define c => c.text
  | print n => s!"print {n.text}"

end Operation

end Wavefront
