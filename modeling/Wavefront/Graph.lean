import Wavefront.Operation

set_option autoImplicit false

/-!
# Dependency graphs

The nodes are the defined variables, in the order of their first definitions, and each node
depends on the variables that its definitions refer to. Nothing is forbidden here: a variable
may be defined twice, depend on itself, or depend on one that nothing defines.
-/
namespace Wavefront

structure Graph where
  order : List Name
  edges : NameMap (List Name)

namespace Graph

def empty : Graph := ⟨[], ∅⟩

/-- Appends the references of a definition to those its target already has. -/
def addEdges (edges : NameMap (List Name)) (c : Calc) : NameMap (List Name) :=
  edges.insert c.target (edges.getD c.target [] ++ c.references)

/-- A graph that is being made. Its two parts are kept in step: a name comes to the end of the
order when it comes into the table of edges, and never again. -/
structure Draft where
  order : Array Name
  edges : NameMap (List Name)

namespace Draft

def blank : Draft := ⟨#[], ∅⟩

/-- The target of a definition becomes a node, if it is none yet. -/
def add (d : Draft) (c : Calc) : Draft :=
  ⟨if c.target ∈ d.edges then d.order else d.order.push c.target, addEdges d.edges c⟩

def graph (d : Draft) : Graph := ⟨d.order.toList, d.edges⟩

end Draft

def ofOperations (ops : List Operation) : Graph :=
  ((ops.filterMap Operation.definition?).foldl Draft.add Draft.blank).graph

/-- Nothing for a variable that is no node. -/
def dependencies (g : Graph) (n : Name) : List Name := g.edges.getD n []

def contains (g : Graph) (n : Name) : Bool := g.edges.contains n

def nodes (g : Graph) : List (Name × List Name) := g.order.map fun n => (n, g.dependencies n)

def size (g : Graph) : Nat := g.order.length

def isEmpty (g : Graph) : Bool := g.order.isEmpty

def edgeCount (g : Graph) : Nat := g.edges.foldl (fun count _ deps => count + deps.length) 0

end Graph

end Wavefront
