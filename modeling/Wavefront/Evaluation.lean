import Wavefront.Diagnostic
import Wavefront.Liveness
import Wavefront.Printout
import Wavefront.Response
import Wavefront.Trace

set_option autoImplicit false

/-!
# Evaluations

A program is evaluated by finding what is live, running it from an empty store, and collecting
its prints. Whatever came to nothing on the way is explained by a warning: first the discarded
definitions, then the unresolved ones, then the prints without a value.
-/
namespace Wavefront

structure Evaluation where
  live : NameSet
  graph : Graph
  run : Run
  printout : Printout
  diagnostics : List Diagnostic

namespace Discarded

def diagnostic (d : Discarded) : Diagnostic :=
  match d.reason with
  | .unsupportedOperator symbol =>
    ⟨.unsupportedOperator, .warning,
      s!"unsupported operator `{symbol}` in definition of `{d.target.text}`",
      some d.target, some d.index, ["supported operators are `+`, `-` and `*`"]⟩
  | .overflow =>
    ⟨.overflow, .warning, s!"integer overflow computing `{d.target.text}`",
      some d.target, some d.index, ["values are signed 64-bit integers"]⟩

end Discarded

/-- One note for each reference without a value. -/
def unresolvedDiagnostic (s : Store) (i : Nat) (o : Operation) : Diagnostic :=
  ⟨.unresolved, .warning, s!"`{o.target.text}` could not be computed", some o.target, some i,
    (o.references.filter fun n => !s.contains n).map fun n => s!"`{n.text}` has no value"⟩

def Program.brokenDiagnostic (p : Program) (i : Nat) (n : Name) : Diagnostic :=
  let note :=
    match p.definitionOf? n with
    | some d => s!"`{n.text}` is defined by operation #{d} but its value never resolved"
    | none => s!"no `calc` defines `{n.text}`"
  ⟨.brokenPrint, .warning, s!"variable `{n.text}` called for print before calculation",
    some n, some i, [note]⟩

def Program.unresolvedDiagnostics (p : Program) (s : Store) (unresolved : List Nat) :
    List Diagnostic :=
  unresolved.filterMap fun i => p.operations[i]?.map (unresolvedDiagnostic s i)

/-- The prints without a value, among operations that are numbered from `i` on. -/
def brokenPrints (s : Store) (i : Nat) : List Operation → List (Nat × Name)
  | [] => []
  | .define _ :: rest => brokenPrints s (i + 1) rest
  | .print n :: rest =>
    if s.contains n then brokenPrints s (i + 1) rest else (i, n) :: brokenPrints s (i + 1) rest

def Program.diagnostics (p : Program) (r : Run) : List Diagnostic :=
  r.report.discarded.map Discarded.diagnostic ++
    p.unresolvedDiagnostics r.store r.unresolved ++
    (brokenPrints r.store 0 p.operations).map fun (i, n) => p.brokenDiagnostic i n

def Program.evaluate (p : Program) (settings : Settings) : Evaluation :=
  let live := liveNames p.operations
  let r := p.run settings live Store.empty
  { live := live
    graph := Graph.ofOperations p.operations
    run := r
    printout := Printout.ofOperations p.operations r.store
    diagnostics := p.diagnostics r }

namespace Evaluation

def response (e : Evaluation) : Response := Response.ofPrintout e.printout

def text (e : Evaluation) : String :=
  String.join (e.printout.items.map fun item => s!"{item.name.text} = {item.value.text}\n") ++
    (e.printout.warning?.map fun w => w ++ "\n").getD ""

def json (e : Evaluation) : String := e.response.document.indented

end Evaluation

end Wavefront
