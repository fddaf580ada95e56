import Wavefront.Diagnostic.Document
import Wavefront.Proofs.Json.Reading

set_option autoImplicit false

/-!
# Diagnostics that are read back

A reader for the documents that diagnostics are written as. A diagnostic has all its members, with
null for a variable or an operation that is absent, and a batch has its summary as a member only if
there is one. Numbers of operations and counts are read whatever their size.
-/
namespace Wavefront

open Json

namespace Json.Reader

def natural : Reader Nat where
  run ls :=
    match ls with
    | ⟨_, .number n⟩ :: rest =>
      if n.isPlain && !n.negative then .ok (Nat.ofDigitChars 10 n.whole 0, rest)
      else .error (wrongType "a natural number" ls)
    | ls => .error (wrongType "a natural number" ls)
  shrinks ls a rest h := by
    split at h
    · split at h <;> simp_all
    · simp at h

def choice {α : Type} (label : String) (choices : List α) (text : α → String) : Reader α where
  run ls :=
    match string.run ls with
    | .error fault => .error fault
    | .ok (found, rest) =>
      match choices.find? fun a => text a == found with
      | none => .error (.misfit (.wrongType (.string found) label))
      | some a => .ok (a, rest)
  shrinks ls a rest h := by
    split at h
    · simp at h
    · rename_i found rest' hstring
      split at h
      · simp at h
      · simp only [Except.ok.injEq, Prod.mk.injEq] at h
        exact h.2 ▸ string.shrinks ls found rest' hstring

theorem reads_natural (n : Nat) : natural.Reads (Document.integer n).tokens n := by
  intro ls us h
  obtain ⟨blanks, rest, rfl, hrest⟩ := exists_of_map_token h
  have hplain : (Numeral.ofInt n).isPlain = true := rfl
  have hnegative : (Numeral.ofInt n).negative = false := by simp [Numeral.ofInt]
  have hwhole : Nat.ofDigitChars 10 (Numeral.ofInt n).whole 0 = n := by
    simp [Numeral.ofInt, Nat.ofDigitChars_toDigits]
  exact ⟨rest, by simp [natural, hplain, hnegative, hwhole], hrest⟩

theorem reads_choice {α : Type} (label : String) {choices : List α} {text : α → String} {a : α}
    (h : choices.find? (fun a' => text a' == text a) = some a) :
    (choice label choices text).Reads (Document.string (text a)).tokens a := by
  intro ls us hls
  obtain ⟨rest, hrun, hrest⟩ := reads_string (text a) ls us hls
  exact ⟨rest, by simp [choice, hrun, h], hrest⟩

end Json.Reader

namespace Diagnostic

inductive Key
  | code
  | message
  | notes
  | index
  | severity
  | subject
deriving DecidableEq

def Key.text : Key → String
  | code => "code"
  | message => "message"
  | notes => "notes"
  | index => "operation"
  | severity => "severity"
  | subject => "variable"

abbrev Key.Content : Key → Type
  | code => Code
  | message => String
  | notes => List String
  | index => Option Nat
  | severity => Severity
  | subject => Option Name

def Severity.all : List Severity := [error, warning, note]

def Key.reader : (k : Key) → Reader k.Content
  | code => Reader.choice "a code" Code.all Code.text
  | message => Reader.string
  | notes => Reader.string.list
  | index => Reader.natural.optional
  | severity => Reader.choice "a severity" Severity.all Severity.text
  | subject => (Reader.string.map Name.mk).optional

def build (d : (k : Key) → Option k.Content) : Except Key Diagnostic := do
  let need (k : Key) : Except Key k.Content := (d k).elim (.error k) .ok
  return ⟨← need .code, ← need .severity, ← need .message, ← need .subject, ← need .index,
    ← need .notes⟩

def schema : Schema Diagnostic where
  label := "Diagnostic"
  Key := Key
  decEq := inferInstance
  keys := [.code, .message, .notes, .index, .severity, .subject]
  name := Key.text
  Content := Key.Content
  reader := Key.reader
  isOptional := fun _ => false
  build := build

theorem distinct_schema : schema.Distinct where
  nodup := by simp [schema]
  key? k := by cases k <;> rfl

def written (d : Diagnostic) : (k : Key) → Option (k.Content × Document)
  | .code => some (d.code, .string d.code.text)
  | .message => some (d.message, .string d.message)
  | .notes => some (d.notes, .array (d.notes.map .string))
  | .index => some (d.index?, (d.index?.map fun i => .integer i).getD .null)
  | .severity => some (d.severity, .string d.severity.text)
  | .subject => some (d.subject?, (d.subject?.map fun n => .string n.text).getD .null)

theorem reads_of_written (d : Diagnostic) (k : Key) (p : k.Content × Document)
    (h : d.written k = some p) : k.reader.Reads p.2.tokens p.1 := by
  cases k <;> obtain rfl := Option.some.inj h
  case code => exact Reader.reads_choice _ (by cases d.code <;> rfl)
  case message => exact Reader.reads_string d.message
  case notes =>
    refine Reader.reads_list ?_
    rw [List.forall₂_map_left_iff, List.forall₂_same]
    exact fun note _ => Reader.reads_string note
  case index =>
    cases d.index? with
    | none => exact Reader.reads_null _
    | some i => exact Reader.reads_optional (Reader.reads_natural i) (by simp)
  case severity => exact Reader.reads_choice _ (by cases d.severity <;> rfl)
  case subject =>
    cases d.subject? with
    | none => exact Reader.reads_null _
    | some n => exact Reader.reads_optional ((Reader.reads_string n.text).map Name.mk) (by simp)

theorem reads_document (d : Diagnostic) : schema.record.Reads d.document.tokens d :=
  Schema.reads_written distinct_schema d.reads_of_written rfl

namespace Summary

inductive Key
  | errors
  | warnings
deriving DecidableEq

def Key.text : Key → String
  | errors => "errors"
  | warnings => "warnings"

def build (d : Key → Option Nat) : Except Key Summary := do
  let need (k : Key) : Except Key Nat := (d k).elim (.error k) .ok
  return ⟨← need .errors, ← need .warnings⟩

def schema : Schema Summary where
  label := "Summary"
  Key := Key
  decEq := inferInstance
  keys := [.errors, .warnings]
  name := Key.text
  Content := fun _ => Nat
  reader := fun _ => Reader.natural
  isOptional := fun _ => false
  build := build

theorem distinct_schema : schema.Distinct where
  nodup := by simp [schema]
  key? k := by cases k <;> rfl

def written (s : Summary) : Key → Option (Nat × Document)
  | .errors => some (s.errors, .integer s.errors)
  | .warnings => some (s.warnings, .integer s.warnings)

theorem reads_of_written (s : Summary) (k : Key) (p : Nat × Document) (h : s.written k = some p) :
    Reader.natural.Reads p.2.tokens p.1 := by
  cases k <;> obtain rfl := Option.some.inj h <;> exact Reader.reads_natural _

theorem reads_document (s : Summary) : schema.record.Reads s.document.tokens s :=
  Schema.reads_written distinct_schema s.reads_of_written rfl

end Summary

namespace Batch

inductive Key
  | diagnostics
  | summary
deriving DecidableEq

def Key.text : Key → String
  | diagnostics => "diagnostics"
  | summary => "summary"

abbrev Key.Content : Key → Type
  | diagnostics => List Diagnostic
  | summary => Summary

def Key.reader : (k : Key) → Reader k.Content
  | diagnostics => Diagnostic.schema.record.list
  | summary => Summary.schema.record

def build (d : (k : Key) → Option k.Content) : Except Key Batch :=
  (d .diagnostics).elim (.error .diagnostics) fun ds => .ok ⟨ds, d .summary⟩

def schema : Schema Batch where
  label := "Batch"
  Key := Key
  decEq := inferInstance
  keys := [.diagnostics, .summary]
  name := Key.text
  Content := Key.Content
  reader := Key.reader
  isOptional := fun k => k = .summary
  build := build

def read (source : String) : Except Fault Batch := schema.record.readText source

theorem distinct_schema : schema.Distinct where
  nodup := by simp [schema]
  key? k := by cases k <;> rfl

def written (b : Batch) : (k : Key) → Option (k.Content × Document)
  | .diagnostics => some (b.diagnostics, .array (b.diagnostics.map Diagnostic.document))
  | .summary => b.summary?.map fun s => (s, s.document)

theorem document_eq_membersOf (b : Batch) :
    b.document = .object (schema.membersOf b.written schema.keys) := by
  obtain ⟨ds, summary?⟩ := b
  cases summary? <;> rfl

theorem reads_of_written (b : Batch) (k : Key) (p : k.Content × Document)
    (h : b.written k = some p) : k.reader.Reads p.2.tokens p.1 := by
  cases k with
  | diagnostics =>
    obtain rfl := Option.some.inj h
    refine Reader.reads_list ?_
    rw [List.forall₂_map_left_iff, List.forall₂_same]
    exact fun d _ => d.reads_document
  | summary =>
    obtain ⟨s, -, rfl⟩ := Option.map_eq_some_iff.1 h
    exact s.reads_document

theorem build_written (b : Batch) : build (fun k => (b.written k).map Prod.fst) = .ok b := by
  obtain ⟨ds, summary?⟩ := b
  cases summary? <;> rfl

theorem reads_document (b : Batch) : schema.record.Reads b.document.tokens b := by
  rw [document_eq_membersOf]
  exact Schema.reads_written distinct_schema b.reads_of_written b.build_written

theorem read_indented (b : Batch) : read b.document.indented = .ok b :=
  b.reads_document.readText_render Layout.isBlank_indented

end Batch

end Diagnostic

end Wavefront
