import Wavefront.Proofs.Json.Reading
import Wavefront.Request

set_option autoImplicit false

/-!
# Requests that are read back

A record leaves out its operator when that is empty and its operands when they are absent, and the
reader takes a missing field for just that. So a request that is written is read back as it was.
-/
namespace Wavefront

open Json

namespace Record

theorem distinct_schema : schema.Distinct where
  nodup := by simp [schema]
  key? k := by cases k <;> rfl

def written (r : Record) : (k : Key) → Option (k.Content × Document)
  | .kind => some (r.kind, .string r.kind)
  | .symbol => if r.symbol.isEmpty then none else some (r.symbol, .string r.symbol)
  | .target => some (r.target, .string r.target)
  | .left => r.left.map fun text => (some text, .string text)
  | .right => r.right.map fun text => (some text, .string text)

theorem document_eq_membersOf (r : Record) :
    r.document = .object (schema.membersOf r.written schema.keys) := by
  obtain ⟨kind, symbol, target, left, right⟩ := r
  by_cases hsymbol : symbol.isEmpty = true <;> cases left <;> cases right <;>
    simp [document, schema, Schema.membersOf, written, hsymbol]

theorem reads_of_written (r : Record) (k : Key) (p : k.Content × Document)
    (h : r.written k = some p) : k.reader.Reads p.2.tokens p.1 := by
  cases k with
  | kind =>
    obtain rfl := Option.some.inj h
    exact Reader.reads_string r.kind
  | symbol =>
    obtain ⟨-, heq⟩ := Option.ite_none_left_eq_some.1 h
    obtain rfl := Option.some.inj heq
    exact Reader.reads_string r.symbol
  | target =>
    obtain rfl := Option.some.inj h
    exact Reader.reads_string r.target
  | left =>
    obtain ⟨text, -, rfl⟩ := Option.map_eq_some_iff.1 h
    exact Reader.reads_operand text
  | right =>
    obtain ⟨text, -, rfl⟩ := Option.map_eq_some_iff.1 h
    exact Reader.reads_operand text

/-- A field that is left out is taken for what it was. -/
theorem build_written (r : Record) : build (fun k => (r.written k).map Prod.fst) = .ok r := by
  have hsymbol : ((r.written .symbol).map Prod.fst).getD "" = r.symbol := by
    by_cases h : r.symbol.isEmpty = true
    · simp [written, String.isEmpty_iff.1 h]
    · simp [written, h]
  have hleft : ((r.written .left).map Prod.fst).getD none = r.left := by
    cases h : r.left <;> simp [written, h]
  have hright : ((r.written .right).map Prod.fst).getD none = r.right := by
    cases h : r.right <;> simp [written, h]
  change Except.ok (Record.mk r.kind _ r.target _ _) = .ok r
  rw [hsymbol, hleft, hright]

theorem reads_document (r : Record) : schema.record.Reads r.document.tokens r := by
  rw [document_eq_membersOf]
  exact Schema.reads_written distinct_schema r.reads_of_written r.build_written

end Record

namespace Request

theorem distinct_schema : schema.Distinct where
  nodup := by simp [schema]
  key? _ := rfl

def written (r : Request) : Unit → Option (List Record × Document) :=
  fun _ => some (r.records, .array (r.records.map Record.document))

theorem reads_of_written (r : Request) (k : Unit) (p : List Record × Document)
    (h : r.written k = some p) : Record.schema.record.list.Reads p.2.tokens p.1 := by
  obtain rfl := Option.some.inj h
  refine Reader.reads_list ?_
  rw [List.forall₂_map_left_iff, List.forall₂_same]
  exact fun record _ => record.reads_document

theorem reads_document (r : Request) : schema.record.Reads r.document.tokens r :=
  Schema.reads_written distinct_schema r.reads_of_written rfl

/-- Decoding undoes encoding, whatever the texts of the records are. -/
theorem read_compact_document (r : Request) : read r.document.compact = .ok r :=
  r.reads_document.readText_render Layout.isBlank_compact

end Request

end Wavefront
