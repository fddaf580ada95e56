import Wavefront.Command.Run
import Wavefront.Proofs.Evaluation.Values
import Wavefront.Proofs.Program.Numbering

set_option autoImplicit false

/-!
# Evaluations on a host

A host has a state that commands read and change. Whatever the host, a run that comes to an end
shows the evaluation of the program it has loaded, and otherwise it shows nothing; what the host can
spoil is only the graph.
-/
namespace Wavefront.Command

def Format.shown : Format → Evaluation → String
  | .text, e => e.text
  | .json, e => e.json ++ "\n"

def RenderError.of? : Except RenderError Unit → Option RenderError
  | .ok () => none
  | .error e => some e

theorem Finished.out_outcome (color : Bool) (f : Format) (r : Finished) :
    (r.outcome color f).out = f.shown r.evaluation := by
  cases f <;> rfl

section
variable {σ : Type}

theorem run_bind_of_run {α β : Type} {x : StateM σ α} {s t : σ} {a : α} (h : x.run s = (a, t))
    (f : α → StateM σ β) : (x >>= f).run s = (f a).run t := by
  rw [StateT.run_bind, h]
  rfl

theorem state_run_bind {α β : Type} {x : StateM σ α} {f : α → StateM σ β} {s : σ}
    (hx : (x.run s).2 = s) (hf : ∀ a, ((f a).run s).2 = s) : ((x >>= f).run s).2 = s := by
  have hrun : x.run s = ((x.run s).1, s) := Prod.ext rfl hx
  rw [run_bind_of_run hrun]
  exact hf (x.run s).1

variable (host : Host (StateM σ))

/-- A host takes the time of a computation, and the result is the computation's own. -/
def Host.Computes : Prop :=
  ∀ {α : Type} (f : Unit → α) (s : σ), ((host.timed f).run s).1.1 = f ()

variable {host} {s t u : σ} {path : String} {p : Program} {arguments : List String} {o : Options}

theorem execute_graph (hload : (loadProgram host path).run s = (.ok p, t)) {more : List String} :
    (execute host ("graph" :: path :: more)).run s = (⟨0, p.drawing.dot, ""⟩, t) :=
  run_bind_of_run hload _

theorem execute_check (hload : (loadProgram host path).run s = (.ok p, t)) {more : List String} :
    (execute host ("check" :: path :: more)).run s = (⟨0, checkText path p, ""⟩, t) :=
  run_bind_of_run hload _

theorem execute_run (harguments : Options.read arguments = .ok (path, o)) :
    execute host ("run" :: arguments) = runRequest host path o := by
  simp [execute, run, harguments]

theorem runRequest_of_ok (hload : (loadProgram host path).run s = (.ok p, t)) {r : Finished}
    (hr : (evaluateProgram host p o).run t = (.ok r, u)) :
    (runRequest host path o).run s = (r.outcome host.color o.format, u) :=
  (run_bind_of_run hload _).trans (run_bind_of_run hr _)

theorem runRequest_of_error (hload : (loadProgram host path).run s = (.ok p, t)) {e : Failure}
    (he : (evaluateProgram host p o).run t = (.error e, u)) :
    (runRequest host path o).run s = (.failure host.color o.format e, u) :=
  (run_bind_of_run hload _).trans (run_bind_of_run he _)

def Host.afterPicture (host : Host (StateM σ)) (target : String) (png? : Option String) (s : σ) :
    σ :=
  match png? with
  | none => s
  | some png => ((host.render target png).run s).2

section
variable {e : Evaluation} {elapsed : Elapsed} {target : String}
  (htimed : (host.timed fun _ => p.evaluate o.settings).run s = ((e, elapsed), t))
include htimed

theorem evaluateProgram_of_undrawn (hgraph : o.graphPath? = none) :
    (evaluateProgram host p o).run s = (.ok ⟨e, elapsed, none⟩, t) := by
  rw [evaluateProgram, run_bind_of_run htimed]
  simp only [hgraph]
  rfl

theorem evaluateProgram_of_unwritten (hgraph : o.graphPath? = some target) {fault : AccessError}
    (hwrite : (host.write target (Drawing.ofOperations p.operations e.live e.graph).dot).run t =
      (.error fault, u)) :
    (evaluateProgram host p o).run s = (.error (.access target fault), u) := by
  rw [evaluateProgram, run_bind_of_run htimed]
  simp only [hgraph]
  exact run_bind_of_run hwrite _

/-- A run of the renderer is reported and has no other influence on the run. -/
theorem evaluateProgram_of_rendered (hgraph : o.graphPath? = some target)
    (hwrite : (host.write target (Drawing.ofOperations p.operations e.live e.graph).dot).run t =
      (.ok (), u)) {png : String} (hpng : o.png? = some png) {result : Except RenderError Unit}
    {v : σ} (hrender : (host.render target png).run u = (result, v)) :
    (evaluateProgram host p o).run s = (.ok ⟨e, elapsed, RenderError.of? result⟩, v) := by
  rw [evaluateProgram, run_bind_of_run htimed]
  simp only [hgraph]
  rw [run_bind_of_run hwrite]
  simp only [hpng]
  rw [run_bind_of_run hrender]
  rcases result with fault | ⟨⟩ <;> rfl

theorem evaluateProgram_of_written (hgraph : o.graphPath? = some target)
    (hwrite : (host.write target (Drawing.ofOperations p.operations e.live e.graph).dot).run t =
      (.ok (), u)) :
    ∃ renderError?, (evaluateProgram host p o).run s =
      (.ok ⟨e, elapsed, renderError?⟩, host.afterPicture target o.png? u) := by
  cases hpng : o.png? with
  | none =>
    rw [evaluateProgram, run_bind_of_run htimed]
    simp only [hgraph]
    rw [run_bind_of_run hwrite]
    simp only [hpng]
    exact ⟨none, rfl⟩
  | some png => exact ⟨_, evaluateProgram_of_rendered htimed hgraph hwrite hpng rfl⟩

theorem evaluation_eq_of_evaluateProgram {r : Finished}
    (hr : (evaluateProgram host p o).run s = (.ok r, u)) : r.evaluation = e := by
  cases hgraph : o.graphPath? with
  | none =>
    rw [evaluateProgram_of_undrawn htimed hgraph] at hr
    cases hr
    rfl
  | some target =>
    rcases hwrite : (host.write target
      (Drawing.ofOperations p.operations e.live e.graph).dot).run t with ⟨fault | ⟨⟩, v⟩
    · rw [evaluateProgram_of_unwritten htimed hgraph hwrite] at hr
      cases hr
    · obtain ⟨renderError?, hok⟩ := evaluateProgram_of_written htimed hgraph hwrite
      rw [hok] at hr
      cases hr
      rfl

end

section
variable {e : Evaluation} {elapsed : Elapsed} {target : String}
  (harguments : Options.read arguments = .ok (path, o))
  (hload : (loadProgram host path).run s = (.ok p, t))
  (htimed : (host.timed fun _ => p.evaluate o.settings).run t = ((e, elapsed), u))
include harguments hload htimed

theorem execute_run_of_undrawn (hgraph : o.graphPath? = none) :
    (execute host ("run" :: arguments)).run s =
      (Finished.outcome host.color o.format ⟨e, elapsed, none⟩, u) := by
  rw [execute_run harguments]
  exact runRequest_of_ok hload (evaluateProgram_of_undrawn htimed hgraph)

theorem execute_run_of_unwritten (hgraph : o.graphPath? = some target) {fault : AccessError}
    {v : σ} (hwrite : (host.write target
      (Drawing.ofOperations p.operations e.live e.graph).dot).run u = (.error fault, v)) :
    (execute host ("run" :: arguments)).run s =
      (.failure host.color o.format (.access target fault), v) := by
  rw [execute_run harguments]
  exact runRequest_of_error hload (evaluateProgram_of_unwritten htimed hgraph hwrite)

theorem execute_run_of_written (hgraph : o.graphPath? = some target) {v : σ}
    (hwrite : (host.write target
      (Drawing.ofOperations p.operations e.live e.graph).dot).run u = (.ok (), v)) :
    ∃ renderError?, (execute host ("run" :: arguments)).run s =
      (Finished.outcome host.color o.format ⟨e, elapsed, renderError?⟩,
        host.afterPicture target o.png? v) := by
  obtain ⟨renderError?, hr⟩ := evaluateProgram_of_written htimed hgraph hwrite
  rw [execute_run harguments]
  exact ⟨renderError?, runRequest_of_ok hload hr⟩

end

/-- A run that exits with 0 shows the evaluation of its program. -/
theorem out_execute_run (hhost : host.Computes)
    (hload : ((loadProgram host path).run s).1 = .ok p)
    (harguments : Options.read arguments = .ok (path, o))
    (hexit : ((execute host ("run" :: arguments)).run s).1.exit = 0) :
    ((execute host ("run" :: arguments)).run s).1.out = o.format.shown (p.evaluate o.settings) := by
  rw [execute_run harguments] at hexit ⊢
  obtain ⟨t, hload⟩ : ∃ t, (loadProgram host path).run s = (.ok p, t) := ⟨_, Prod.ext hload rfl⟩
  rcases hr : (evaluateProgram host p o).run t with ⟨fault | r, u⟩
  · rw [runRequest_of_error hload hr] at hexit
    simp [Outcome.failure] at hexit
  · have htimed := hhost (fun _ => p.evaluate o.settings) t
    have hevaluation : r.evaluation = p.evaluate o.settings :=
      evaluation_eq_of_evaluateProgram (Prod.ext (Prod.ext htimed rfl) rfl) hr
    rw [runRequest_of_ok hload hr, Finished.out_outcome, hevaluation]

end

end Wavefront.Command
