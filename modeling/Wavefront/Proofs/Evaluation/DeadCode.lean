import Wavefront.Proofs.Evaluation.Explanations
import Wavefront.Proofs.Program.Deletion
import Wavefront.Proofs.Schedule.Renumbering

set_option autoImplicit false

/-!
# Dead code

Definitions that are not live may be deleted from a program. What is live stays live, since no path
from a print goes through them, and the run is the same under the places of the operations that
stay. The two evaluations differ in these numbers and in nothing else.
-/
namespace Wavefront

open Relation

namespace Program

def keeps (p : Program) (chosen : Calc → Bool) : Operation → Bool
  | .define c => !chosen c || decide (c.target ∈ liveNames p.operations)
  | .print _ => true

def withoutDead (p : Program) (chosen : Calc → Bool) : Program :=
  ofNodup (p.operations.filter (p.keeps chosen))
    (p.nodup.sublist ((List.filter_sublist.filterMap Operation.definition?).map Calc.target))

theorem operations_withoutDead (p : Program) (chosen : Calc → Bool) :
    (p.withoutDead chosen).operations = p.operations.filter (p.keeps chosen) := rfl

def newPlace (p : Program) (chosen : Calc → Bool) : Nat → Nat :=
  place (p.keeps chosen) p.operations

/-- The operation with number `i` stays and has the number `j` from then on. -/
def Moves (p : Program) (chosen : Calc → Bool) (i j : Nat) : Prop :=
  p.newPlace chosen i = j ∧
    ∃ o, p.operations[i]? = some o ∧ (p.withoutDead chosen).operations[j]? = some o

variable (p : Program) (chosen : Calc → Bool)

theorem keeps_define_of_live {c : Calc} (h : c.target ∈ liveNames p.operations) :
    p.keeps chosen (.define c) = true := by
  simp [keeps, h]

theorem moves_of_keeps {i : Nat} {o : Operation} (h : p.operations[i]? = some o)
    (hk : p.keeps chosen o = true) : p.Moves chosen i (p.newPlace chosen i) :=
  ⟨rfl, o, h, getElem?_place h hk⟩

theorem moves_of_live {i : Nat} {c : Calc} (h : p.operations[i]? = some (.define c))
    (hlive : c.target ∈ liveNames p.operations) : p.Moves chosen i (p.newPlace chosen i) :=
  p.moves_of_keeps chosen h (p.keeps_define_of_live chosen hlive)

theorem define_mem_withoutDead_iff {c : Calc} (h : c.target ∈ liveNames p.operations) :
    .define c ∈ (p.withoutDead chosen).operations ↔ .define c ∈ p.operations := by
  rw [operations_withoutDead, List.mem_filter, and_iff_left (p.keeps_define_of_live chosen h)]

theorem print_mem_withoutDead_iff (n : Name) :
    .print n ∈ (p.withoutDead chosen).operations ↔ .print n ∈ p.operations := by
  rw [operations_withoutDead, List.mem_filter]
  exact and_iff_left rfl

theorem refers_withoutDead_iff {n : Name} (hn : n ∈ liveNames p.operations) (m : Name) :
    Refers (p.withoutDead chosen).operations n m ↔ Refers p.operations n m := by
  refine exists_congr fun c => ?_
  constructor
  · rintro ⟨hc, rfl, hm⟩
    exact ⟨(p.define_mem_withoutDead_iff chosen hn).1 hc, rfl, hm⟩
  · rintro ⟨hc, rfl, hm⟩
    exact ⟨(p.define_mem_withoutDead_iff chosen hn).2 hc, rfl, hm⟩

/-- From a live variable the same paths go out. -/
theorem reflTransGen_withoutDead_iff {n : Name} (hn : n ∈ liveNames p.operations) (m : Name) :
    ReflTransGen (Refers (p.withoutDead chosen).operations) n m ↔
      ReflTransGen (Refers p.operations) n m := by
  constructor
  · intro h
    induction h with
    | refl => exact .refl
    | tail _ hm ih =>
      exact ih.tail ((p.refers_withoutDead_iff chosen (mem_liveNames_of_reflTransGen hn ih) _).1 hm)
  · intro h
    induction h with
    | refl => exact .refl
    | tail hpath hm ih =>
      exact ih.tail
        ((p.refers_withoutDead_iff chosen (mem_liveNames_of_reflTransGen hn hpath) _).2 hm)

theorem liveNames_withoutDead :
    liveNames (p.withoutDead chosen).operations = liveNames p.operations := by
  refine Std.ExtTreeSet.ext_mem fun n => ?_
  rw [mem_liveNames_iff_refers, mem_liveNames_iff_refers]
  simp only [print_mem_withoutDead_iff]
  refine exists_congr fun q => and_congr_right fun hq => ?_
  exact p.reflTransGen_withoutDead_iff chosen (mem_liveNames_of_print hq) n

theorem printed_withoutDead :
    (p.withoutDead chosen).operations.filterMap Operation.printed? =
      p.operations.filterMap Operation.printed? := by
  rw [operations_withoutDead, List.filterMap_filter]
  refine List.filterMap_congr fun o _ => ?_
  cases o with
  | define c => simp [Operation.printed?]
  | print n => rfl

theorem run_withoutDead (settings settings' : Settings) (s : Store) :
    (p.withoutDead chosen).run settings' (liveNames p.operations) s =
      (p.run settings (liveNames p.operations) s).renumber (p.newPlace chosen) := by
  have hd := p.distinct_tasks
  have htasks : (p.withoutDead chosen).tasks =
      (p.tasks.filter fun t => p.keeps chosen (.define t.definition)).map
        (Task.renumber (p.newPlace chosen)) := tasksFrom_filter _ p.operations
  have hdead : ∀ t ∈ p.tasks, p.keeps chosen (.define t.definition) = false →
      t.target ∉ liveNames p.operations := by
    intro t _ hk hlive
    rw [p.keeps_define_of_live chosen hlive] at hk
    cases hk
  have hkept : Distinct (p.tasks.filter fun t => p.keeps chosen (.define t.definition)) :=
    hd.sublist (List.filter_sublist.map Task.target)
  -- first the run under the old numbers, and in it the dead tasks back again
  rw [run, htasks, runTasks_map_renumber _ settings settings' _ hkept,
    runTasks_filter settings hd hdead]
  rfl

theorem rel_definitionOf? {n : Name} (hn : n ∈ liveNames p.operations) :
    Option.Rel (p.Moves chosen) (p.definitionOf? n) ((p.withoutDead chosen).definitionOf? n) := by
  cases hd : p.definitionOf? n with
  | some i =>
    obtain ⟨c, hc, rfl⟩ := (p.definitionOf?_eq_some_iff n i).1 hd
    have hstays := getElem?_place hc (p.keeps_define_of_live chosen hn)
    rw [((p.withoutDead chosen).definitionOf?_eq_some_iff _ _).2 ⟨c, hstays, rfl⟩]
    exact .some (p.moves_of_live chosen hc hn)
  | none =>
    cases hd' : (p.withoutDead chosen).definitionOf? n with
    | none => exact .none
    | some j =>
      obtain ⟨c, hc, rfl⟩ := (definitionOf?_eq_some_iff _ n j).1 hd'
      have hmem := (p.define_mem_withoutDead_iff chosen hn).1 (List.mem_of_getElem? hc)
      obtain ⟨i, hi⟩ := List.getElem?_of_mem hmem
      rw [(p.definitionOf?_eq_some_iff _ i).2 ⟨c, hi, rfl⟩] at hd
      cases hd

end Program

theorem Program.brokenPrints_withoutDead (p : Program) (chosen : Calc → Bool) (s : Store) :
    brokenPrints s 0 (p.withoutDead chosen).operations =
      (brokenPrints s 0 p.operations).map fun x => (p.newPlace chosen x.1, x.2) := by
  rw [operations_withoutDead, brokenPrints_eq_filterMap, brokenPrints_eq_filterMap, zipIdx_filter,
    List.filterMap_map, List.filterMap_filter, List.map_filterMap]
  refine List.filterMap_congr fun x _ => ?_
  obtain ⟨o, i⟩ := x
  cases o with
  | define c => simp [Operation.printed?]
  | print n =>
    by_cases hn : s.contains n <;>
      simp [keeps, newPlace, Operation.printed?, Option.filter, hn]

/-! ## Evaluations under other numbers -/

structure Discarded.Renumbered (R : Nat → Nat → Prop) (d d' : Discarded) : Prop where
  index : R d.index d'.index
  target : d'.target = d.target
  reason : d'.reason = d.reason

namespace Diagnostic

inductive PrintNotes (R : Nat → Nat → Prop) : List String → List String → Prop
  | undefined (n : Name) :
      PrintNotes R [s!"no `calc` defines `{n.text}`"] [s!"no `calc` defines `{n.text}`"]
  | defined (n : Name) (i j : Nat) (h : R i j) :
      PrintNotes R
        [s!"`{n.text}` is defined by operation #{i} but its value never resolved"]
        [s!"`{n.text}` is defined by operation #{j} but its value never resolved"]

structure Renumbered (R : Nat → Nat → Prop) (g g' : Diagnostic) : Prop where
  code : g'.code = g.code
  severity : g'.severity = g.severity
  message : g'.message = g.message
  subject : g'.subject? = g.subject?
  index : Option.Rel R g.index? g'.index?
  notes : g.code ≠ .brokenPrint → g'.notes = g.notes
  printNotes : g.code = .brokenPrint → PrintNotes R g.notes g'.notes

end Diagnostic

/-- Two evaluations that differ in the numbers of operations only. -/
structure Evaluation.Renumbered (R : Nat → Nat → Prop) (e e' : Evaluation) : Prop where
  items : e'.printout.items = e.printout.items
  broken : e'.printout.broken = e.printout.broken
  live : e'.live = e.live
  waves : e'.run.report.waves = e.run.report.waves
  computed : e'.run.report.computed = e.run.report.computed
  log : ∀ s : Sink, (s.reportAll e'.run.events).render = (s.reportAll e.run.events).render
  discarded : List.Forall₂ (Discarded.Renumbered R) e.run.report.discarded
    e'.run.report.discarded
  unresolved : List.Forall₂ R e.run.report.unresolved e'.run.report.unresolved
  diagnostics : List.Forall₂ (Diagnostic.Renumbered R) e.diagnostics e'.diagnostics

theorem Discarded.Renumbered.diagnostic {R : Nat → Nat → Prop} {d d' : Discarded}
    (h : d.Renumbered R d') : d.diagnostic.Renumbered R d'.diagnostic := by
  obtain ⟨i, n, reason⟩ := d
  obtain ⟨j, n', reason'⟩ := d'
  obtain ⟨hindex, htarget, hreason⟩ := h
  cases htarget
  cases hreason
  cases reason <;> exact ⟨rfl, rfl, rfl, rfl, .some hindex, fun _ => rfl, nofun⟩

namespace Program

variable (p : Program) (chosen : Calc → Bool) (settings : Settings)

theorem discarded_withoutDead :
    List.Forall₂ (Discarded.Renumbered (p.Moves chosen)) (p.evaluate settings).run.report.discarded
      ((p.evaluate settings).run.report.discarded.map
        (Discarded.renumber (p.newPlace chosen))) := by
  rw [List.forall₂_map_right_iff, List.forall₂_same]
  intro d hd
  obtain ⟨t, ht, hw, -, -, -, e, -, rfl⟩ :=
    (mem_report_discarded_iff settings (liveNames p.operations) p.distinct_tasks d).1 hd
  exact ⟨p.moves_of_live chosen ((p.mem_tasks_iff t).1 ht) hw.1, rfl, rfl⟩

theorem unresolved_withoutDead :
    List.Forall₂ (p.Moves chosen) (p.evaluate settings).run.report.unresolved
      ((p.evaluate settings).run.report.unresolved.map (p.newPlace chosen)) := by
  rw [List.forall₂_map_right_iff, List.forall₂_same]
  intro i hi
  obtain ⟨c, hc, hlive, -⟩ := p.define_of_mem_unresolved settings hi
  exact p.moves_of_live chosen hc hlive

theorem renumbered_unresolvedDiagnostics (s : Store) {unresolved unresolved' : List Nat}
    (h : List.Forall₂ (p.Moves chosen) unresolved unresolved') :
    List.Forall₂ (Diagnostic.Renumbered (p.Moves chosen)) (p.unresolvedDiagnostics s unresolved)
      ((p.withoutDead chosen).unresolvedDiagnostics s unresolved') := by
  refine List.rel_filterMap (fun i j hmoves => ?_) h
  obtain ⟨o, hi, hj⟩ := hmoves.2
  rw [hi, hj]
  exact .some ⟨rfl, rfl, rfl, rfl, .some hmoves, fun _ => rfl, nofun⟩

theorem renumbered_brokenDiagnostic {i : Nat} {n : Name}
    (hprint : p.operations[i]? = some (.print n)) :
    (p.brokenDiagnostic i n).Renumbered (p.Moves chosen)
      ((p.withoutDead chosen).brokenDiagnostic (p.newPlace chosen i) n) := by
  have hlive := mem_liveNames_of_print (List.mem_of_getElem? hprint)
  refine ⟨rfl, rfl, rfl, rfl, .some (p.moves_of_keeps chosen hprint rfl),
    fun h => absurd rfl h, fun _ => ?_⟩
  have hdefined := p.rel_definitionOf? chosen hlive
  unfold brokenDiagnostic
  generalize p.definitionOf? n = d, (p.withoutDead chosen).definitionOf? n = d' at hdefined ⊢
  cases hdefined with
  | none => exact .undefined n
  | some h => exact .defined n _ _ h

theorem renumbered_diagnostics :
    List.Forall₂ (Diagnostic.Renumbered (p.Moves chosen)) (p.evaluate settings).diagnostics
      ((p.withoutDead chosen).diagnostics
        ((p.evaluate settings).run.renumber (p.newPlace chosen))) := by
  change List.Forall₂ _ (p.diagnostics (p.evaluate settings).run) _
  rw [diagnostics_eq, diagnostics_eq]
  refine List.rel_append (List.rel_append ?_ ?_) ?_
  · rw [Run.report_renumber]
    exact List.rel_map (fun _ _ h => h.diagnostic) (p.discarded_withoutDead chosen settings)
  · exact p.renumbered_unresolvedDiagnostics chosen _ (p.unresolved_withoutDead chosen settings)
  · change List.Forall₂ _ _ (List.map _ (brokenPrints (p.evaluate settings).run.store 0 _))
    rw [brokenPrints_withoutDead, List.map_map, List.forall₂_map_left_iff,
      List.forall₂_map_right_iff, List.forall₂_same]
    rintro ⟨i, n⟩ hmem
    exact p.renumbered_brokenDiagnostic chosen ((mem_brokenPrints_iff _ _ i n).1 hmem).1

/-- Definitions that are not live may be deleted: what is left is a program, and its evaluation
differs in the numbers of operations only. -/
theorem evaluate_withoutDead (settings' : Settings) :
    ofOperations (p.operations.filter (p.keeps chosen)) = .ok (p.withoutDead chosen) ∧
      (p.evaluate settings).Renumbered (p.Moves chosen)
        ((p.withoutDead chosen).evaluate settings') := by
  refine ⟨(ofOperations_eq_ok_iff _ _).2 rfl, ?_⟩
  have hrun : ((p.withoutDead chosen).evaluate settings').run =
      (p.evaluate settings).run.renumber (p.newPlace chosen) := by
    change (p.withoutDead chosen).run settings' (liveNames _) Store.empty = _
    rw [liveNames_withoutDead]
    exact p.run_withoutDead chosen settings settings' Store.empty
  have hreport : ((p.withoutDead chosen).evaluate settings').run.report =
      (p.evaluate settings).run.report.renumber (p.newPlace chosen) := by
    rw [hrun, Run.report_renumber]
  have hprintout : ((p.withoutDead chosen).evaluate settings').printout =
      (p.evaluate settings).printout := by
    change Printout.ofOperations _ ((p.withoutDead chosen).evaluate settings').run.store = _
    rw [hrun, Printout.ofOperations, printed_withoutDead]
    rfl
  constructor
  case items => rw [hprintout]
  case broken => rw [hprintout]
  case live => exact p.liveNames_withoutDead chosen
  case waves =>
    rw [hreport]
    rfl
  case computed =>
    rw [hreport]
    rfl
  case log =>
    intro s
    rw [hrun, Run.events_renumber]
  case discarded =>
    rw [hreport]
    exact p.discarded_withoutDead chosen settings
  case unresolved =>
    rw [hreport]
    exact p.unresolved_withoutDead chosen settings
  case diagnostics =>
    change List.Forall₂ _ _ ((p.withoutDead chosen).diagnostics
      ((p.withoutDead chosen).evaluate settings').run)
    rw [hrun]
    exact p.renumbered_diagnostics chosen settings

end Program

end Wavefront
