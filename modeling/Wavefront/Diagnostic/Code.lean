set_option autoImplicit false

/-!
# Diagnostic codes

A letter for the severity and four digits, of which the first names the phase: 1 for loading
a request, 2 for validating it, 6 for evaluating it.
-/
namespace Wavefront.Diagnostic

inductive Code
  | unknownOperation
  | missingOperand
  | emptyName
  | malformedLine
  | duplicateDefinition
  | brokenPrint
  | unsupportedOperator
  | overflow
  | unresolved
deriving DecidableEq

namespace Code

def all : List Code :=
  [unknownOperation, missingOperand, emptyName, malformedLine, duplicateDefinition, brokenPrint,
   unsupportedOperator, overflow, unresolved]

theorem mem_all (c : Code) : c ∈ all := by cases c <;> decide

def text : Code → String
  | unknownOperation => "E1001"
  | missingOperand => "E1002"
  | emptyName => "E1003"
  | malformedLine => "E1004"
  | duplicateDefinition => "E2001"
  | brokenPrint => "W6001"
  | unsupportedOperator => "W6002"
  | overflow => "W6003"
  | unresolved => "W6004"

def description : Code → String
  | unknownOperation => "unknown operation type"
  | missingOperand => "calc is missing an operand"
  | emptyName => "empty variable name"
  | malformedLine => "malformed operation line"
  | duplicateDefinition => "variable defined more than once"
  | brokenPrint => "variable printed before calculation"
  | unsupportedOperator => "unsupported operator"
  | overflow => "integer overflow"
  | unresolved => "unresolved dependency"

def isLoadError : Code → Bool
  | unknownOperation | missingOperand | emptyName | malformedLine => true
  | _ => false

def isValidationError (c : Code) : Bool := c = duplicateDefinition

def isWarning : Code → Bool
  | brokenPrint | unsupportedOperator | overflow | unresolved => true
  | _ => false

/-- In either case. No letter outside ASCII has an upper case form that a code contains. -/
def ofText? (text : String) : Option Code :=
  let upper := text.toList.map Char.toUpper
  all.find? fun c => c.text.toList = upper

end Code

end Wavefront.Diagnostic
