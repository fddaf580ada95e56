import Wavefront.Proofs.Json.Reading
import Wavefront.Response

set_option autoImplicit false

/-!
# Responses that are read back

A response leaves out its warning when there is none, and the reader takes that for no warning. So a
response is read back as it was, from its compact text and from its indented one.
-/
namespace Wavefront

open Json

namespace Printed

theorem distinct_schema : schema.Distinct where
  nodup := by simp [schema]
  key? k := by cases k <;> rfl

def written (p : Printed) : (k : Key) → Option (k.Content × Document)
  | .name => some (p.name.text, .string p.name.text)
  | .value => some (p.value, .integer p.value.toInt)

theorem reads_of_written (p : Printed) (k : Key) (q : k.Content × Document)
    (h : p.written k = some q) : k.reader.Reads q.2.tokens q.1 := by
  cases k with
  | name =>
    obtain rfl := Option.some.inj h
    exact Reader.reads_string p.name.text
  | value =>
    obtain rfl := Option.some.inj h
    exact Reader.reads_value p.value

theorem reads_document (p : Printed) : schema.record.Reads p.document.tokens p :=
  Schema.reads_written distinct_schema p.reads_of_written rfl

end Printed

namespace Response

theorem distinct_schema : schema.Distinct where
  nodup := by simp [schema]
  key? k := by cases k <;> rfl

def written (r : Response) : (k : Key) → Option (k.Content × Document)
  | .items => some (r.items, .array (r.items.map Printed.document))
  | .warning => r.warning.map fun text => (some text, .string text)

theorem document_eq_membersOf (r : Response) :
    r.document = .object (schema.membersOf r.written schema.keys) := by
  obtain ⟨items, warning⟩ := r
  cases warning <;> simp [document, schema, Schema.membersOf, written]

theorem reads_of_written (r : Response) (k : Key) (p : k.Content × Document)
    (h : r.written k = some p) : k.reader.Reads p.2.tokens p.1 := by
  cases k with
  | items =>
    obtain rfl := Option.some.inj h
    refine Reader.reads_list ?_
    rw [List.forall₂_map_left_iff, List.forall₂_same]
    exact fun printed _ => printed.reads_document
  | warning =>
    obtain ⟨text, -, rfl⟩ := Option.map_eq_some_iff.1 h
    exact Reader.reads_optional (Reader.reads_string text) (by simp)

theorem build_written (r : Response) : build (fun k => (r.written k).map Prod.fst) = .ok r := by
  have hwarning : ((r.written .warning).map Prod.fst).getD none = r.warning := by
    cases h : r.warning <;> simp [written, h]
  change Except.ok (Response.mk r.items _) = .ok r
  rw [hwarning]

theorem reads_document (r : Response) : schema.record.Reads r.document.tokens r := by
  rw [document_eq_membersOf]
  exact Schema.reads_written distinct_schema r.reads_of_written r.build_written

theorem read_compact (r : Response) : read r.document.compact = .ok r :=
  r.reads_document.readText_render Layout.isBlank_compact

theorem read_indented (r : Response) : read r.document.indented = .ok r :=
  r.reads_document.readText_render Layout.isBlank_indented

theorem read_indented_newline (r : Response) :
    read (r.document.indented ++ "\n") = .ok r := by
  have hblank : ∀ c ∈ ['\n'], isBlank c = true := List.forall_mem_singleton.2 rfl
  have hnewline : r.document.indented ++ "\n" =
      String.ofList (r.document.render Layout.indented 0 ++ ['\n']) :=
    (String.ofList_append ..).symm
  rw [hnewline]
  exact r.reads_document.readText_render_append Layout.isBlank_indented hblank

end Response

end Wavefront
