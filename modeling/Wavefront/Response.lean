import Wavefront.Json.Document
import Wavefront.Json.Schema
import Wavefront.Printout

set_option autoImplicit false

/-!
# Responses in JSON

The printed variables with their values, in print order, and a warning if there is one.
-/
namespace Wavefront

structure Response where
  items : List Printed
  warning : Option String
deriving DecidableEq

namespace Printed

inductive Key
  | name
  | value
deriving DecidableEq

def Key.text : Key → String
  | name => "var"
  | value => "value"

abbrev Key.Content : Key → Type
  | name => String
  | value => Value

def Key.reader : (k : Key) → Json.Reader k.Content
  | name => Json.Reader.string
  | value => Json.Reader.value

def build (d : (k : Key) → Option k.Content) : Except Key Printed :=
  match d .name, d .value with
  | none, _ => .error .name
  | _, none => .error .value
  | some name, some value => .ok ⟨⟨name⟩, value⟩

def schema : Json.Schema Printed where
  label := "VariableValue"
  Key := Key
  decEq := inferInstance
  keys := [.name, .value]
  name := Key.text
  Content := Key.Content
  reader := Key.reader
  isOptional := fun _ => false
  build := build

def document (p : Printed) : Json.Document :=
  .object [(Key.name.text, .string p.name.text), (Key.value.text, .integer p.value.toInt)]

end Printed

namespace Response

inductive Key
  | items
  | warning
deriving DecidableEq

def Key.text : Key → String
  | items => "items"
  | warning => "warning"

abbrev Key.Content : Key → Type
  | items => List Printed
  | warning => Option String

def Key.reader : (k : Key) → Json.Reader k.Content
  | items => Printed.schema.record.list
  | warning => Json.Reader.string.optional

def build (d : (k : Key) → Option k.Content) : Except Key Response :=
  match d .items with
  | none => .error .items
  | some items => .ok ⟨items, (d .warning).getD none⟩

def schema : Json.Schema Response where
  label := "OperationResponse"
  Key := Key
  decEq := inferInstance
  keys := [.items, .warning]
  name := Key.text
  Content := Key.Content
  reader := Key.reader
  isOptional := fun k => k = .warning
  build := build

def read (source : String) : Except Json.Fault Response :=
  schema.record.readText source

/-- The warning is left out when there is none. -/
def document (r : Response) : Json.Document :=
  .object <| (Key.items.text, .array (r.items.map Printed.document)) ::
    (r.warning.toList.map fun text => (Key.warning.text, .string text))

def ofPrintout (p : Printout) : Response := ⟨p.items, p.warning?⟩

end Response

end Wavefront
