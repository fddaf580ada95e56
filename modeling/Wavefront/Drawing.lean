import Wavefront.Liveness
import Wavefront.Program

set_option autoImplicit false

/-!
# Drawings of dependency graphs

A drawing shows each variable of an operation list once, the targets in the order they appear
in and then the variables that are only referred to, and the edges of a graph from what is
needed to what needs it. Its text is in the DOT language, where names are quoted.
-/
namespace Wavefront

inductive Shade
  | printed
  | live
  | dead
  | undefined
deriving DecidableEq

def Shade.color : Shade → String
  | printed => "lightgreen"
  | live => "lightblue"
  | dead => "mistyrose"
  | undefined => "lightgrey"

/-- What an operation shows of its target. -/
def Operation.shade (live : NameSet) : Operation → Shade
  | print _ => .printed
  | define c => if c.target ∈ live then .live else .dead

/-- A drawing that is being made: the names met so far, in the order they came in, each with the
shade it has by now. -/
structure Sheet where
  order : Array Name
  shades : NameMap Shade

namespace Sheet

def blank : Sheet := ⟨#[], ∅⟩

/-- A name that is there already changes its shade for a print and for nothing else. -/
def mark (s : Sheet) (n : Name) (shade : Shade) : Sheet :=
  if n ∈ s.shades then
    if shade = .printed then { s with shades := s.shades.insert n shade } else s
  else ⟨s.order.push n, s.shades.insert n shade⟩

def markTarget (live : NameSet) (s : Sheet) (o : Operation) : Sheet :=
  s.mark o.target (o.shade live)

def markReference (s : Sheet) (n : Name) : Sheet := s.mark n .undefined

def nodes (s : Sheet) : List (Name × Shade) :=
  s.order.toList.map fun n => (n, s.shades.getD n .undefined)

end Sheet

structure Drawing where
  nodes : List (Name × Shade)
  edges : List (Name × Name)
deriving DecidableEq

namespace Drawing

def ofOperations (ops : List Operation) (live : NameSet) (g : Graph) : Drawing :=
  let targets := ops.foldl (Sheet.markTarget live) Sheet.blank
  let all := (ops.flatMap Operation.references).foldl Sheet.markReference targets
  ⟨all.nodes, g.nodes.flatMap fun (n, deps) => deps.map fun d => (d, n)⟩

/-- A text with another text for each place where a character stands. -/
def replace (c : Char) (text cs : List Char) : List Char :=
  cs.flatMap fun d => if d = c then text else [d]

/-- Backslashes come first, so that those in front of quotes are not doubled. -/
def escape (n : Name) : List Char :=
  replace '"' ['\\', '"'] (replace '\\' ['\\', '\\'] n.text.toList)

def nodeText : Name × Shade → String
  | (n, s) =>
    let id := String.ofList (escape n)
    let label := if s = .printed then id ++ "\\n[PRINT]" else id
    s!"  \"{id}\" [label=\"{label}\", fillcolor={s.color}];\n"

def edgeText : Name × Name → String
  | (d, n) => s!"  \"{String.ofList (escape d)}\" -> \"{String.ofList (escape n)}\";\n"

def header : String := "digraph G \x7b\n  rankdir=LR;\n  node [shape=box, style=filled];\n"

def dot (d : Drawing) : String :=
  header ++ String.join (d.nodes.map nodeText) ++ String.join (d.edges.map edgeText) ++ "\x7d\n"

end Drawing

def Program.drawing (p : Program) : Drawing :=
  Drawing.ofOperations p.operations (liveNames p.operations) (Graph.ofOperations p.operations)

end Wavefront
