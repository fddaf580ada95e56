import Wavefront.Json.Document
import Wavefront.Json.Schema
import Wavefront.Operation

set_option autoImplicit false

/-!
# Requests in JSON

A request is a list of records. A record has texts for all its parts and need not make sense;
`Record.operation` is where a record becomes an operation or is found wanting, and
`Record.ofOperation` writes an operation as a record.
-/
namespace Wavefront

structure Record where
  kind : String
  symbol : String
  target : String
  left : Option String
  right : Option String
deriving DecidableEq

namespace Record

inductive Key
  | kind
  | symbol
  | target
  | left
  | right
deriving DecidableEq

def Key.name : Key → String
  | kind => "type"
  | symbol => "op"
  | target => "var"
  | left => "left"
  | right => "right"

abbrev Key.Content : Key → Type
  | kind | symbol | target => String
  | left | right => Option String

def Key.reader : (k : Key) → Json.Reader k.Content
  | kind | symbol | target => Json.Reader.string
  | left | right => Json.Reader.operand

def build (d : (k : Key) → Option k.Content) : Except Key Record :=
  match d .kind, d .target with
  | none, _ => .error .kind
  | _, none => .error .target
  | some kind, some target =>
    .ok ⟨kind, (d .symbol).getD "", target, (d .left).getD none, (d .right).getD none⟩

def schema : Json.Schema Record where
  label := "WireOperation"
  Key := Key
  decEq := inferInstance
  keys := [.kind, .symbol, .target, .left, .right]
  name := Key.name
  Content := Key.Content
  reader := Key.reader
  isOptional := fun k => k = .symbol || k = .left || k = .right
  build := build

/-- The operator is left out when it is empty, and an operand when it is absent. -/
def document (r : Record) : Json.Document :=
  .object <| (Key.kind.name, .string r.kind) ::
    (if r.symbol.isEmpty then [] else [(Key.symbol.name, .string r.symbol)]) ++
    (Key.target.name, .string r.target) ::
    (r.left.toList.map fun text => (Key.left.name, .string text)) ++
    (r.right.toList.map fun text => (Key.right.name, .string text))

inductive Side
  | left
  | right
deriving DecidableEq

def Side.text : Side → String
  | left => "left"
  | right => "right"

inductive Fault
  | unknownKind (kind : String)
  | missingOperand (side : Side)
  | emptyName
deriving DecidableEq

/-- Records are numbered from 0. -/
structure Error where
  index : Nat
  fault : Fault
deriving DecidableEq

def Error.message (e : Error) : String :=
  match e.fault with
  | .unknownKind kind =>
    s!"operation #{e.index}: unknown type `{kind}` (expected `calc` or `print`)"
  | .missingOperand side => s!"operation #{e.index}: calc is missing its {side.text} operand"
  | .emptyName => s!"operation #{e.index}: variable name is empty"

def operation (r : Record) : Except Fault Operation :=
  if r.target.isEmpty then .error .emptyName
  else
    match r.kind with
    | "calc" =>
      match r.left, r.right with
      | none, _ => .error (.missingOperand .left)
      | some _, none => .error (.missingOperand .right)
      | some left, some right => .ok (.define (Calc.ofTexts r.target left r.symbol right))
    | "print" => .ok (.print ⟨r.target⟩)
    | kind => .error (.unknownKind kind)

def ofOperation : Operation → Record
  | .define c => ⟨"calc", c.operator.symbol, c.target.text, some c.left.text, some c.right.text⟩
  | .print n => ⟨"print", "", n.text, none, none⟩

/-- The operations of records that are numbered from `i` on, up to the first with a fault. -/
def operationsFrom (i : Nat) : List Record → Except Error (List Operation)
  | [] => .ok []
  | r :: rest =>
    match r.operation with
    | .error fault => .error ⟨i, fault⟩
    | .ok o => (operationsFrom (i + 1) rest).map (o :: ·)

end Record

structure Request where
  records : List Record
deriving DecidableEq

namespace Request

/-- A request without the list is the empty request. -/
def schema : Json.Schema Request where
  label := "OperationRequest"
  Key := Unit
  decEq := inferInstance
  keys := [()]
  name := fun _ => "operations"
  Content := fun _ => List Record
  reader := fun _ => Record.schema.record.list
  isOptional := fun _ => true
  build := fun d => .ok ⟨(d ()).getD []⟩

def read (source : String) : Except Json.Fault Request :=
  schema.record.readText source

def document (r : Request) : Json.Document :=
  .object [("operations", .array (r.records.map Record.document))]

def operations (r : Request) : Except Record.Error (List Operation) :=
  Record.operationsFrom 0 r.records

end Request

end Wavefront
