import Wavefront.Diagnostic.Code

set_option autoImplicit false

/-!
# The manual

A page for each diagnostic code: what it means, and what to do about it.
-/
namespace Wavefront.Diagnostic

def page (lines : List String) : String := String.join (lines.map fun line => line ++ "\n")

/-- Every code has a page. -/
def Code.manual : Code → String
  | .unknownOperation => page [
      "# E1001: Unknown Operation Type",
      "",
      "Every operation in a request must have `\"type\": \"calc\"` or `\"type\": \"print\"`.",
      "",
      "```json",
      "\x7b\"type\": \"eval\", \"var\": \"x\"\x7d",
      "```",
      "",
      "## Solution",
      "",
      "Use `calc` to define a variable or `print` to request its value."]
  | .missingOperand => page [
      "# E1002: Calc Is Missing an Operand",
      "",
      "A `calc` needs both a `left` and a `right` operand. Operands may be integer",
      "literals (as JSON numbers or strings) or names of other variables.",
      "",
      "```json",
      "\x7b\"type\": \"calc\", \"op\": \"+\", \"var\": \"x\", \"left\": 1\x7d",
      "```",
      "",
      "## Solution",
      "",
      "Add the missing operand:",
      "",
      "```json",
      "\x7b\"type\": \"calc\", \"op\": \"+\", \"var\": \"x\", \"left\": 1, \"right\": 2\x7d",
      "```"]
  | .emptyName => page [
      "# E1003: Empty Variable Name",
      "",
      "The `var` field of an operation must not be empty.",
      "",
      "## Solution",
      "",
      "Name the variable being defined or printed."]
  | .malformedLine => page [
      "# E1004: Malformed Operation Line",
      "",
      "In the text form every non-blank, non-comment line must be one of",
      "",
      "```text",
      "calc <var> = <left> <op> <right>",
      "print <var>",
      "```",
      "",
      "with tokens separated by whitespace.",
      "",
      "## Solution",
      "",
      "Check the token count; `calc x = 1+2` must be written `calc x = 1 + 2`."]
  | .duplicateDefinition => page [
      "# E2001: Variable Defined More Than Once",
      "",
      "Each variable may be the target of at most one `calc`. Operations are",
      "unordered, so a second definition would make the printed value depend on",
      "which definition happened to run first.",
      "",
      "```text",
      "calc x = 1 + 1",
      "calc x = 2 + 2",
      "print x",
      "```",
      "",
      "## Solution",
      "",
      "Rename one of the definitions."]
  | .brokenPrint => page [
      "# W6001: Variable Printed Before Calculation",
      "",
      "A `print` names a variable that never received a value. The response",
      "contains `0` for it and the variable is listed in the warning.",
      "",
      "Causes:",
      "",
      "- no `calc` defines the variable",
      "- the defining `calc` uses an unsupported operator or overflows",
      "- the variable depends, directly or transitively, on one of the above",
      "- the variable is part of a dependency cycle",
      "",
      "```text",
      "calc p = q + 1",
      "calc q = p * 2",
      "print p",
      "```",
      "",
      "## Solution",
      "",
      "Define every variable the printed one depends on and break any cycle."]
  | .unsupportedOperator => page [
      "# W6002: Unsupported Operator",
      "",
      "Only `+`, `-` and `*` are supported. A `calc` with any other operator is",
      "discarded without storing a value.",
      "",
      "## Solution",
      "",
      "Rewrite the calculation with a supported operator."]
  | .overflow => page [
      "# W6003: Integer Overflow",
      "",
      "Values are signed 64-bit integers. A `calc` whose result does not fit is",
      "discarded without storing a value.",
      "",
      "## Solution",
      "",
      "Keep intermediate values within `-9223372036854775808..=9223372036854775807`."]
  | .unresolved => page [
      "# W6004: Unresolved Dependency",
      "",
      "A needed `calc` never became ready: one of its operands refers to a",
      "variable that is never defined, never computed, or part of a cycle.",
      "",
      "## Solution",
      "",
      "Check the operands named in the note and define them without cycles."]

end Wavefront.Diagnostic
