import Wavefront.Diagnostic.Code
import Wavefront.Name

set_option autoImplicit false

/-!
# Diagnostics

A problem with a request: its code and severity, a message, the variable and the operation it
concerns if there are any, and notes.
-/
namespace Wavefront

namespace Diagnostic

inductive Severity
  | error
  | warning
  | note
deriving DecidableEq

def Severity.text : Severity → String
  | error => "error"
  | warning => "warning"
  | note => "note"

end Diagnostic

structure Diagnostic where
  code : Diagnostic.Code
  severity : Diagnostic.Severity
  message : String
  subject? : Option Name
  index? : Option Nat
  notes : List String
deriving DecidableEq

namespace Diagnostic

def isError (d : Diagnostic) : Bool := d.severity = .error

def isWarning (d : Diagnostic) : Bool := d.severity = .warning

def text (d : Diagnostic) : String := s!"{d.severity.text}[{d.code.text}]: {d.message}"

/-- How many errors and warnings a report ends with. -/
structure Summary where
  errors : Nat
  warnings : Nat
deriving DecidableEq

def Summary.ofList (ds : List Diagnostic) : Summary := ⟨ds.countP isError, ds.countP isWarning⟩

/-- What a reporter is asked to do, one request after the other. -/
inductive Instruction
  | emit (d : Diagnostic)
  | emitAll (ds : List Diagnostic)
  | summary (s : Summary)
  | flush
deriving DecidableEq

end Diagnostic

end Wavefront
