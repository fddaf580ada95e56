import Wavefront.Evaluation
import Wavefront.Proofs.Liveness.Renaming
import Wavefront.Proofs.Schedule.Renaming

set_option autoImplicit false

/-!
# Evaluations under other names

Names are opaque. If all names of an operation list are exchanged for others, different names for
different ones, then the verdict on the list and everything its evaluation comes to are the same
with the new names in the place of the old ones.
-/
namespace Wavefront

variable (f : Name ↪ Name)

def Printed.rename (item : Printed) : Printed := { item with name := f item.name }

structure Evaluation.Renamed (e e' : Evaluation) : Prop where
  items : e'.printout.items = e.printout.items.map (Printed.rename f)
  broken : e'.printout.broken = e.printout.broken.map f
  live : e'.live = NameSet.rename f e.live
  graph : e'.graph = e.graph.rename f
  nodes : e'.graph.nodes = e.graph.nodes.map fun (n, deps) => (f n, deps.map f)
  report : e'.run.report = e.run.report.relabel f id
  events : e'.run.events = e.run.events.map (Event.rename f)

theorem Printout.ofOperations_map_rename (ops : List Operation) (s : Store) :
    ofOperations (ops.map (Operation.rename f)) (s.rename f) =
      ⟨(ofOperations ops s).items.map (Printed.rename f), (ofOperations ops s).broken.map f⟩ := by
  have hbroken : (fun n => !(s.rename f).contains n) ∘ f = fun n => !s.contains n :=
    funext fun n => congrArg not (s.contains_rename f n)
  simp only [ofOperations, map_printed?_rename, List.map_map, List.filter_map, hbroken]
  refine congrArg (Printout.mk · _) (List.map_congr_left fun n _ => ?_)
  simp only [Function.comp, Store.get?_rename, Printed.rename]

theorem Program.renamed_evaluate (p : Program) (settings settings' : Settings) :
    (p.evaluate settings).Renamed f ((p.rename f).evaluate settings') := by
  have hlive : liveNames (p.rename f).operations = NameSet.rename f (liveNames p.operations) :=
    liveNames_map_rename f p.operations
  have hgraph : ((p.rename f).evaluate settings').graph = (p.evaluate settings).graph.rename f :=
    Graph.ofOperations_map_rename f p.operations
  have hrun : ((p.rename f).evaluate settings').run =
      (Translation.rename f (liveNames p.operations)).run (p.evaluate settings).run := by
    have h := p.run_rename f settings settings' (liveNames p.operations) Store.empty
    rw [Store.rename_empty] at h
    change (p.rename f).run settings' (liveNames (p.rename f).operations) Store.empty = _
    rw [hlive]
    exact h
  have hprintout : ((p.rename f).evaluate settings').printout =
      ⟨(p.evaluate settings).printout.items.map (Printed.rename f),
        (p.evaluate settings).printout.broken.map f⟩ := by
    change Printout.ofOperations _ ((p.rename f).evaluate settings').run.store = _
    rw [hrun]
    exact Printout.ofOperations_map_rename f p.operations (p.evaluate settings).run.store
  constructor
  case items => rw [hprintout]
  case broken => rw [hprintout]
  case live => exact hlive
  case graph => exact hgraph
  case nodes => rw [hgraph, Graph.nodes_rename]
  case report =>
    rw [hrun]
    exact (Translation.rename f _).report_run _
  case events =>
    rw [hrun]
    exact (Translation.rename f _).events_run _

/-- An operation list with other names is a program exactly if the list itself is, and otherwise
has the same duplicate under its new name. As programs, both come to the same under these names. -/
theorem evaluate_renamed :
    (∀ ops, Program.ofOperations (ops.map (Operation.rename f)) =
      ((Program.ofOperations ops).map (Program.rename f)).mapError (Duplicate.rename f)) ∧
        ∀ (p : Program) (settings settings' : Settings),
          (p.evaluate settings).Renamed f ((p.rename f).evaluate settings') :=
  ⟨Program.ofOperations_map_rename f, Program.renamed_evaluate f⟩

end Wavefront
