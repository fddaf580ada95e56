import Wavefront.Diagnostic
import Wavefront.Json.Document

set_option autoImplicit false

/-!
# Diagnostics as JSON

Diagnostics are collected until they are flushed. Each flush writes one indented document, its
members in alphabetical order, and a line feed.
-/
namespace Wavefront.Diagnostic

def document (d : Diagnostic) : Json.Document :=
  .object
    [("code", .string d.code.text),
     ("message", .string d.message),
     ("notes", .array (d.notes.map .string)),
     ("operation", (d.index?.map fun i => .integer i).getD .null),
     ("severity", .string d.severity.text),
     ("variable", (d.subject?.map fun n => .string n.text).getD .null)]

def Summary.document (s : Summary) : Json.Document :=
  .object [("errors", .integer s.errors), ("warnings", .integer s.warnings)]

/-- What is waiting for the next flush. -/
structure Batch where
  diagnostics : List Diagnostic
  summary? : Option Summary
deriving DecidableEq

namespace Batch

def empty : Batch := ⟨[], none⟩

def document (b : Batch) : Json.Document :=
  .object <| ("diagnostics", .array (b.diagnostics.map Diagnostic.document)) ::
    (b.summary?.toList.map fun s => ("summary", s.document))

def text (b : Batch) : String := b.document.indented ++ "\n"

/-- The batch after a request, and the batch the request writes if it is a flush. -/
def step (b : Batch) : Instruction → Batch × Option Batch
  | .emit d => (⟨b.diagnostics ++ [d], b.summary?⟩, none)
  | .emitAll ds => (⟨b.diagnostics ++ ds, some (Summary.ofList ds)⟩, none)
  | .summary s => (⟨b.diagnostics, some s⟩, none)
  | .flush => (empty, some b)

/-- The batches that are flushed, in order. -/
def flushed (b : Batch) : List Instruction → List Batch
  | [] => []
  | r :: rest => (b.step r).2.toList ++ flushed (b.step r).1 rest

end Batch

def jsonReport (instructions : List Instruction) : String :=
  String.join ((Batch.empty.flushed instructions).map Batch.text)

end Wavefront.Diagnostic
