import Wavefront.Proofs.Diagnostic.RoundTrip

set_option autoImplicit false

/-!
# What each flush writes

The instructions between two flushes fill a batch: its diagnostics are all they emit, in order, and
its summary is the last one they ask for. So a report is read back document by document, and
nothing that is emitted before a flush is lost or written twice.
-/
namespace Wavefront.Diagnostic

namespace Instruction

def diagnostics : Instruction → List Diagnostic
  | emit d => [d]
  | emitAll ds => ds
  | summary _ | flush => []

/-- The summary an instruction asks for. A list is counted by itself, whatever came before it. -/
def summary? : Instruction → Option Summary
  | emitAll ds => some ⟨ds.countP (·.severity = .error), ds.countP (·.severity = .warning)⟩
  | summary s => some s
  | emit _ | flush => none

end Instruction

/-- For each flush the instructions after the one before it. What comes after the last flush is
never written. -/
def flushes (instructions : List Instruction) : List (List Instruction) :=
  (instructions.splitOn .flush).dropLast

theorem flushes_flush (instructions : List Instruction) :
    flushes (.flush :: instructions) = [] :: flushes instructions := by
  simp [flushes, List.splitOn_cons_eq_if_modifyHead, List.dropLast_cons_of_ne_nil]

theorem flushes_cons {i : Instruction} (hi : i ≠ .flush) (instructions : List Instruction) :
    flushes (i :: instructions) = (flushes instructions).modifyHead (i :: ·) := by
  obtain ⟨first, others, hsplit⟩ :=
    List.exists_cons_of_ne_nil (List.splitOn_ne_nil Instruction.flush instructions)
  cases others <;> simp [flushes, List.splitOn_cons_eq_if_modifyHead, hi, hsplit]

theorem length_flushes (instructions : List Instruction) :
    (flushes instructions).length = instructions.count .flush := by
  induction instructions with
  | nil => rfl
  | cons i rest ih =>
    by_cases hi : i = .flush
    · rw [hi, flushes_flush, List.length_cons, ih, List.count_cons_self]
    · rw [flushes_cons hi, List.length_modifyHead, ih, List.count_cons_of_ne hi]

namespace Batch

def gather (b : Batch) (asked : List Instruction) : Batch :=
  ⟨b.diagnostics ++ asked.flatMap Instruction.diagnostics,
    (asked.filterMap Instruction.summary?).getLast?.or b.summary?⟩

@[simp]
theorem gather_nil (b : Batch) : b.gather [] = b := by simp [gather]

theorem getLast?_cons_or (s : Summary) (ss : List Summary) (s? : Option Summary) :
    ss.getLast?.or (some s) = (s :: ss).getLast?.or s? := by
  rw [List.getLast?_cons]
  cases ss.getLast? <;> rfl

theorem gather_step (b : Batch) {i : Instruction} (hi : i ≠ .flush) (asked : List Instruction) :
    (b.step i).1.gather asked = b.gather (i :: asked) := by
  cases i with
  | emit d => simp [gather, step, Instruction.diagnostics, Instruction.summary?]
  | emitAll ds =>
    have hdiagnostics : (b.diagnostics ++ ds) ++ asked.flatMap Instruction.diagnostics =
        b.diagnostics ++ (Instruction.emitAll ds :: asked).flatMap Instruction.diagnostics := by
      simp [Instruction.diagnostics]
    exact congrArg₂ mk hdiagnostics (getLast?_cons_or (Summary.ofList ds) _ b.summary?)
  | summary s =>
    exact congrArg₂ mk rfl (getLast?_cons_or s _ b.summary?)
  | flush => contradiction

theorem step_of_ne {i : Instruction} (hi : i ≠ .flush) (b : Batch) : (b.step i).2 = none := by
  cases i <;> first | rfl | contradiction

/-- The first flush writes what was waiting as well, and every other one starts from nothing. -/
theorem flushed_eq (b : Batch) (instructions : List Instruction) :
    b.flushed instructions =
      match flushes instructions with
      | [] => []
      | asked :: rest => b.gather asked :: rest.map empty.gather := by
  induction instructions generalizing b with
  | nil => rfl
  | cons i rest ih =>
    by_cases hi : i = .flush
    · have hrest : empty.flushed rest = (flushes rest).map empty.gather := by
        rw [ih empty]
        cases flushes rest <;> rfl
      simp [hi, flushes_flush, flushed, step, hrest]
    · rw [flushed, step_of_ne hi, ih, flushes_cons hi]
      cases flushes rest <;> simp [gather_step b hi]

theorem empty_flushed (instructions : List Instruction) :
    empty.flushed instructions = (flushes instructions).map empty.gather := by
  rw [flushed_eq]
  cases flushes instructions <;> rfl

end Batch

/-- A report is a document and a line feed for each flush. The document is read back as what the
instructions since the last flush emitted, with a summary if they asked for one. -/
theorem read_jsonReport (instructions : List Instruction) :
    ∃ texts : List String,
      jsonReport instructions = String.join (texts.map (· ++ "\n")) ∧
        texts.length = instructions.count .flush ∧
        List.Forall₂
          (fun text asked => Batch.read text =
            .ok ⟨asked.flatMap Instruction.diagnostics,
              (asked.filterMap Instruction.summary?).getLast?⟩)
          texts (flushes instructions) := by
  refine ⟨(flushes instructions).map fun asked => (Batch.empty.gather asked).document.indented,
    ?_, ?_, ?_⟩
  · rw [jsonReport, Batch.empty_flushed, List.map_map, List.map_map]
    rfl
  · rw [List.length_map, length_flushes]
  · rw [List.forall₂_map_left_iff, List.forall₂_same]
    intro asked _
    rw [Batch.read_indented]
    simp [Batch.gather, Batch.empty]

end Wavefront.Diagnostic
