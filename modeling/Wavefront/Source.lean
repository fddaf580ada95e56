import Wavefront.Diagnostic
import Wavefront.Json.Message
import Wavefront.Program
import Wavefront.Request
import Wavefront.Script

set_option autoImplicit false

/-!
# Sources

A request is written as JSON or as a script. A file whose name ends in `.json`, and any source
whose first character that is not blank is an opening brace, counts as JSON.
-/
namespace Wavefront

namespace Source

inductive Kind
  | json
  | script
deriving DecidableEq

def startsWithBrace (source : String) : Bool :=
  (source.toList.dropWhile Text.isBlank).head? == some '\x7b'

/-- The extension is that of the file the source comes from, if it comes from one. -/
def kind (extension? : Option String) (source : String) : Kind :=
  let isJson := extension?.any fun e => e.toList.map Char.toLower == ['j', 's', 'o', 'n']
  if isJson || startsWithBrace source then .json else .script

end Source

/-- Why a source is no program. -/
inductive LoadError
  | json (fault : Json.Fault)
  | record (e : Record.Error)
  | script (e : Script.Error)
  | duplicate (d : Duplicate)
deriving DecidableEq

namespace LoadError

def message : LoadError → String
  | json fault => s!"invalid request JSON: {fault.message}"
  | record e => e.message
  | script e => e.message
  | duplicate d => d.message

/-- A request that is not even JSON has no diagnostic. -/
def diagnostic? : LoadError → Option Diagnostic
  | json _ => none
  | record e =>
    let code :=
      match e.fault with
      | .unknownKind _ => Diagnostic.Code.unknownOperation
      | .missingOperand _ => Diagnostic.Code.missingOperand
      | .emptyName => Diagnostic.Code.emptyName
    some ⟨code, .error, e.message, none, some e.index, []⟩
  | script e =>
    let code :=
      match e.fault with
      | .unknownKeyword _ => Diagnostic.Code.unknownOperation
      | .malformedCalc | .malformedPrint => Diagnostic.Code.malformedLine
    some ⟨code, .error, e.message, none, none, []⟩
  | duplicate d =>
    some ⟨.duplicateDefinition, .error, s!"variable `{d.name.text}` is defined more than once",
      some d.name, some d.second, [s!"first definition is operation #{d.first}"]⟩

end LoadError

namespace Source

def operations (kind : Kind) (source : String) : Except LoadError (List Operation) :=
  match kind with
  | .script => (Script.read source).mapError .script
  | .json =>
    match Request.read source with
    | .error fault => .error (.json fault)
    | .ok request => request.operations.mapError .record

def program (kind : Kind) (source : String) : Except LoadError Program :=
  match operations kind source with
  | .error e => .error e
  | .ok ops => (Program.ofOperations ops).mapError .duplicate

end Source

end Wavefront
