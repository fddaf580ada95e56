import Mathlib.Data.List.Forall2
import Wavefront.Proofs.Json.Reading
import Wavefront.Proofs.Operation.Unambiguity
import Wavefront.Proofs.Request.RoundTrip
import Wavefront.Proofs.Script.Writing
import Wavefront.Source

set_option autoImplicit false

/-!
# Operations that are sent as requests

An operation that is written as a record is what the record says exactly if its texts say what it
is. All operations that come from a source are of that kind, so a request in either form can be sent
on as JSON.
-/
namespace Wavefront

namespace Record

theorem operation_eq_ok_iff (r : Record) (o : Operation) :
    r.operation = .ok o ↔ r.target ≠ "" ∧
      ((r.kind = "calc" ∧ ∃ left right, r.left = some left ∧ r.right = some right ∧
          o = .define (Calc.ofTexts r.target left r.symbol right)) ∨
        (r.kind = "print" ∧ o = .print ⟨r.target⟩)) := by
  obtain ⟨kind, symbol, target, left, right⟩ := r
  by_cases htarget : target = ""
  · simp [operation, htarget]
  · simp only [operation, String.isEmpty_iff, htarget, if_false, ne_eq, not_false_eq_true, true_and]
    split
    case h_1 =>
      cases left <;> cases right <;> simp [eq_comm]
    case h_2 => simp [eq_comm]
    case h_3 hcalc hprint =>
      have hcalc' : kind ≠ "calc" := hcalc
      have hprint' : kind ≠ "print" := hprint
      simp [hcalc', hprint']

theorem operationsFrom_eq_ok_iff (i : Nat) (rs : List Record) (ops : List Operation) :
    operationsFrom i rs = .ok ops ↔ List.Forall₂ (fun r o => r.operation = .ok o) rs ops := by
  induction rs generalizing i ops with
  | nil => simp [operationsFrom, eq_comm]
  | cons r rs ih =>
    constructor
    · intro h
      rw [operationsFrom] at h
      split at h
      case h_1 => simp at h
      case h_2 o hr =>
        cases hrs : operationsFrom (i + 1) rs with
        | error e => simp [hrs, Except.map] at h
        | ok ops' =>
          rw [hrs] at h
          obtain rfl := Except.ok.inj h
          exact .cons hr ((ih (i + 1) ops').1 hrs)
    · rintro (_ | ⟨hr, hrs⟩)
      simp [operationsFrom, hr, (ih (i + 1) _).2 hrs, Except.map]

theorem operation_ofOperation_iff (o : Operation) :
    (ofOperation o).operation = .ok o ↔ o.Unambiguous := by
  rw [operation_eq_ok_iff]
  cases o with
  | define c =>
    rw [Operation.unambiguous_define_iff, @eq_comm _ c.reread]
    simp [ofOperation, Calc.reread]
  | print n =>
    rw [Operation.unambiguous_print_iff]
    simp [ofOperation]

theorem unambiguous_of_operation {r : Record} {o : Operation} (h : r.operation = .ok o) :
    o.Unambiguous := by
  obtain ⟨htarget, ⟨-, left, right, -, -, rfl⟩ | ⟨-, rfl⟩⟩ := (r.operation_eq_ok_iff o).1 h
  · exact (Operation.unambiguous_define_iff _).2 ⟨htarget, Calc.reread_ofTexts ..⟩
  · exact (Operation.unambiguous_print_iff _).2 htarget

theorem unambiguous_of_operationsFrom {i : Nat} {rs : List Record} {ops : List Operation}
    (h : operationsFrom i rs = .ok ops) : ∀ o ∈ ops, o.Unambiguous := by
  rw [operationsFrom_eq_ok_iff] at h
  induction h with
  | nil => simp
  | cons hr _ ih => exact List.forall_mem_cons.2 ⟨unambiguous_of_operation hr, ih⟩

theorem operationsFrom_map_ofOperation_iff (i : Nat) (ops : List Operation) :
    operationsFrom i (ops.map ofOperation) = .ok ops ↔ ∀ o ∈ ops, o.Unambiguous := by
  rw [operationsFrom_eq_ok_iff, List.forall₂_map_left_iff, List.forall₂_same]
  exact forall₂_congr fun o _ => operation_ofOperation_iff o

end Record

def Request.ofOperations (ops : List Operation) : Request := ⟨ops.map Record.ofOperation⟩

namespace Source

theorem unambiguous_of_operations {kind : Kind} {source : String} {ops : List Operation}
    (h : operations kind source = .ok ops) : ∀ o ∈ ops, o.Unambiguous := by
  cases kind with
  | script =>
    cases hread : Script.read source with
    | error e => simp [operations, hread, Except.mapError] at h
    | ok ops' =>
      simp only [operations, hread, Except.mapError, Except.ok.injEq] at h
      subst h
      exact fun o ho => (Script.writable_of_read hread o ho).unambiguous
  | json =>
    cases hread : Request.read source with
    | error fault => simp [operations, hread] at h
    | ok request =>
      cases hops : request.operations with
      | error e => simp [operations, hread, hops, Except.mapError] at h
      | ok ops' =>
        simp only [operations, hread, hops, Except.mapError, Except.ok.injEq] at h
        subst h
        exact Record.unambiguous_of_operationsFrom hops

theorem operations_json_compact {r : Request} {ops : List Operation} (h : r.operations = .ok ops) :
    operations .json r.document.compact = .ok ops := by
  have hread : Request.read r.document.compact = .ok r :=
    r.reads_document.readText_render Json.Layout.isBlank_compact
  simp [operations, hread, h, Except.mapError]

theorem kind_compact (r : Request) : kind none r.document.compact = .json := by
  have hblank : Text.isBlank '{' = false := by decide
  have hbrace : startsWithBrace r.document.compact = true := by
    simp [startsWithBrace, Request.document, Json.Document.compact, Json.Document.render, hblank]
  simp [kind, hbrace]

/-- Whatever form the operations of a source come in, they are read again from the request they
make. One operation comes back from its record exactly if its texts say what it is. -/
theorem operations_transmitted :
    (∀ kind source ops, operations kind source = .ok ops →
      operations .json (Request.ofOperations ops).document.compact = .ok ops ∧
        Source.kind none (Request.ofOperations ops).document.compact = .json ∧
        ∀ o ∈ ops, o.Unambiguous) ∧
      (∀ o, ((Record.ofOperation o).operation = .ok o ↔ o.Unambiguous) ∧
        ∀ i, Record.operationsFrom i [Record.ofOperation o] = .ok [o] ↔ o.Unambiguous) ∧
      ∀ (r : Record) o, r.operation = .ok o → o.Unambiguous := by
  refine ⟨?_, ?_, ?_⟩
  · intro kind source ops h
    have hall := unambiguous_of_operations h
    have hrequest := (Record.operationsFrom_map_ofOperation_iff 0 ops).2 hall
    exact ⟨operations_json_compact hrequest, kind_compact _, hall⟩
  · intro o
    refine ⟨Record.operation_ofOperation_iff o, fun i => ?_⟩
    have hone := Record.operationsFrom_map_ofOperation_iff i [o]
    rwa [List.forall_mem_singleton] at hone
  · intro r o
    exact Record.unambiguous_of_operation

/-- Integers in unusual spelling, one that is too large, and numbers that are none, in a request
whose second record is an array, and in a script. -/
theorem operations_transmitted_unusual_integers :
    let request := "\x7b\"operations\":[\x7b\"var\":\"x\",\"left\":-0,\"type\":\"calc\"," ++
      "\"op\":\"^\",\"right\":1e3\x7d,[\"print\",\"\",\"x\"]]\x7d"
    let requested : List Operation :=
      [.define (Calc.ofTexts "x" "0" "^" "1e3"), .print ⟨"x"⟩]
    let script := "calc x = +7 + 007\ncalc y = - - 9223372036854775808"
    let scripted : List Operation :=
      [.define (Calc.ofTexts "x" "7" "+" "7"),
        .define (Calc.ofTexts "y" "-" "-" "9223372036854775808")]
    operations .json request = .ok requested ∧
      operations .json (Request.ofOperations requested).document.compact = .ok requested ∧
        operations .script script = .ok scripted ∧
          operations .json (Request.ofOperations scripted).document.compact = .ok scripted := by
  intro request requested script scripted
  have hrequest : operations .json request = .ok requested := by decide +kernel
  have hscript : operations .script script = .ok scripted := by decide
  obtain ⟨htransmitted, -⟩ := operations_transmitted
  exact ⟨hrequest, (htransmitted .json request requested hrequest).1, hscript,
    (htransmitted .script script scripted hscript).1⟩

end Source

end Wavefront
