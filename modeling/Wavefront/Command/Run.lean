import Wavefront.Command.Host
import Wavefront.Command.Options
import Wavefront.Diagnostic.Document
import Wavefront.Diagnostic.Manual
import Wavefront.Drawing
import Wavefront.Evaluation
import Wavefront.Path
import Wavefront.Source

set_option autoImplicit false

/-!
# Commands

The command line: `run` evaluates a request, `graph` draws it, `check` only loads it, and
`explain` shows a page of the manual. A command that fails says so on standard error, writes
nothing to standard output and exits with 1.
-/
namespace Wavefront.Command

inductive Failure
  | access (path : String) (e : AccessError)
  | load (e : LoadError)
  | usage (e : UsageError)
deriving DecidableEq

def Failure.message : Failure → String
  | access path e => s!"cannot access `{path}`: {e.message}"
  | load e => e.message
  | usage e => e.message

def Failure.diagnostic? : Failure → Option Diagnostic
  | load e => e.diagnostic?
  | access _ _ | usage _ => none

/-- What a command leaves behind, apart from files. -/
structure Outcome where
  exit : Nat
  out : String
  err : String
deriving DecidableEq

/-- Nothing at all if there are no diagnostics. -/
def diagnosticText (color : Bool) (f : Format) (ds : List Diagnostic) : String :=
  if ds.isEmpty then ""
  else
    match f with
    | .text => Diagnostic.terminalReport color [.emitAll ds, .flush]
    | .json => Diagnostic.jsonReport [.emitAll ds, .flush]

def Failure.text (color : Bool) (f : Format) (e : Failure) : String :=
  match e.diagnostic? with
  | some d => diagnosticText color f [d]
  | none => s!"error: {e.message}\n"

def Outcome.failure (color : Bool) (f : Format) (e : Failure) : Outcome := ⟨1, "", e.text color f⟩

def explain (code : String) : Except UsageError String :=
  match Diagnostic.Code.ofText? code with
  | some c => .ok c.manual
  | none => .error (.unknownCode code)

section

variable {m : Type → Type} [Monad m] (host : Host m)

def readSource (path : String) : m (Except Failure String) := do
  match ← host.read path with
  | .error e => return .error (.access path e)
  | .ok bytes =>
    match String.fromUTF8? bytes with
    | none => return .error (.access path .notText)
    | some source => return .ok source

def loadProgram (path : String) : m (Except Failure Program) := do
  match ← readSource host path with
  | .error e => return .error e
  | .ok source =>
    let kind := Source.kind (Path.extension? path) source
    return (Source.program kind source).mapError .load

/-- An evaluation that is over, and why there is no picture of its graph if there should be. -/
structure Finished where
  evaluation : Evaluation
  elapsed : Elapsed
  renderError? : Option RenderError

/-- The graph is written after the evaluation, and the picture made from the written graph. -/
def evaluateProgram (p : Program) (o : Options) : m (Except Failure Finished) := do
  let (evaluation, elapsed) ← host.timed fun _ => p.evaluate o.settings
  match o.graphPath? with
  | none => return .ok ⟨evaluation, elapsed, none⟩
  | some path =>
    let drawing := Drawing.ofOperations p.operations evaluation.live evaluation.graph
    match ← host.write path drawing.dot with
    | .error e => return .error (.access path e)
    | .ok () =>
      match o.png? with
      | none => return .ok ⟨evaluation, elapsed, none⟩
      | some png =>
        match ← host.render path png with
        | .ok () => return .ok ⟨evaluation, elapsed, none⟩
        | .error e => return .ok ⟨evaluation, elapsed, some e⟩

def Finished.outcome (color : Bool) (f : Format) (r : Finished) : Outcome where
  exit := 0
  out :=
    match f with
    | .text => r.evaluation.text
    | .json => r.evaluation.json ++ "\n"
  err := diagnosticText color f r.evaluation.diagnostics ++
    (r.renderError?.map fun e => s!"warning: graph PNG not rendered: {e.message}\n").getD "" ++
    s!"processed in {r.elapsed.text}\n"

def runRequest (path : String) (o : Options) : m Outcome := do
  match ← loadProgram host path with
  | .error e => return .failure host.color o.format e
  | .ok p =>
    match ← evaluateProgram host p o with
    | .error e => return .failure host.color o.format e
    | .ok r => return r.outcome host.color o.format

def runUsage : String :=
  "Usage: opflow run <request> [--format=text|json] [--no-parallel] [--threads=N] " ++
    "[--dot=<path>] [--png=<path>]\n"

def run (arguments : List String) : m Outcome :=
  match Options.read arguments with
  | .error e => return ⟨1, "", s!"error: {e.message}\n{runUsage}"⟩
  | .ok (path, o) => runRequest host path o

def graph (path : String) : m Outcome := do
  match ← loadProgram host path with
  | .error e => return .failure host.color .text e
  | .ok p => return ⟨0, p.drawing.dot, ""⟩

def checkText (path : String) (p : Program) : String :=
  let calcs := p.tasks.length
  s!"OK: {path} ({p.size} operations, {calcs} calcs, {p.size - calcs} prints)\n"

def check (path : String) : m Outcome := do
  match ← loadProgram host path with
  | .error e => return .failure host.color .text e
  | .ok p => return ⟨0, checkText path p, ""⟩

end

def explainOutcome (color : Bool) (code : String) : Outcome :=
  match explain code with
  | .error e => .failure color .text (.usage e)
  | .ok page => ⟨0, page ++ "\n", ""⟩

def usage : String := String.join <| List.map (fun line => line ++ "\n") [
  "opflow: evaluate unordered calc/print operation lists",
  "",
  "Usage: opflow <command> [options]",
  "",
  "Commands:",
  "  run <request>        Evaluate a request and print its results",
  "  graph <request>      Print the dependency graph as Graphviz DOT",
  "  check <request>      Validate a request without evaluating it",
  "  explain <code>       Explain a diagnostic code (e.g., W6001)",
  "  help                 Show this help message",
  "  version              Show version information",
  "",
  "Requests are JSON (\x7b\"operations\": [...]\x7d) or text, one operation per line:",
  "  calc x = 10 + 2",
  "  print x",
  "",
  "Run options:",
  "  --format=<fmt>      Output format: text (default), json",
  "  --no-parallel       Evaluate each wave on the calling thread",
  "  --threads=<n>       Worker threads per wave (default: one per core)",
  "  --dot=<path>        Write the dependency graph as DOT",
  "  --png=<path>        Render the dependency graph with Graphviz `dot`",
  "",
  "Environment:",
  "  RUST_LOG            Enable logging (e.g., RUST_LOG=opflow_eval=debug)",
  "  OPFLOW_LOG_TREE=1   Render logs as an indented span tree",
  "",
  "Examples:",
  "  opflow run request.json",
  "  opflow run ops.txt --format=json --dot=graph.dot",
  "  opflow explain W6001"]

def version : String := "opflow 0.1.0\n"

/-- The command line after the program's own name. -/
def execute {m : Type → Type} [Monad m] (host : Host m) : List String → m Outcome
  | [] => return ⟨0, usage, ""⟩
  | "run" :: arguments => run host arguments
  | "graph" :: path :: _ => graph host path
  | ["graph"] => return ⟨1, "", "Usage: opflow graph <request>\n"⟩
  | "check" :: path :: _ => check host path
  | ["check"] => return ⟨1, "", "Usage: opflow check <request>\n"⟩
  | word :: arguments =>
    if word = "explain" || word = "--explain" then
      match arguments with
      | code :: _ => return explainOutcome host.color code
      | [] => return ⟨1, "", "Usage: opflow explain <CODE>\nExample: opflow explain W6001\n"⟩
    else if word = "help" || word = "--help" || word = "-h" then return ⟨0, usage, ""⟩
    else if word = "version" || word = "--version" || word = "-V" then return ⟨0, version, ""⟩
    else return ⟨1, usage, s!"Unknown command: {word}\n\n"⟩

end Wavefront.Command
