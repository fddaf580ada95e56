import Wavefront.Proofs.Command.Files

set_option autoImplicit false

/-!
# What a run changes

A run changes the file of its graph and no other, and that file then holds what drawing the request
would have shown before. Neither the graph nor the threads have any influence on what the run shows:
all runs of a request that exit with 0 show the same in one format.
-/
namespace Wavefront.Command

theorem drawing_evaluate (p : Program) (settings : Settings) :
    Drawing.ofOperations p.operations (p.evaluate settings).live (p.evaluate settings).graph =
      p.drawing := rfl

/-- What a run that starts from `s` does with its graph, and that it changes nothing else. A graph
goes where it is wanted if it can be written there, whatever the renderer then makes of it. -/
structure Confined {σ : Type} (host : Host (StateM σ)) (F : Files σ) (o : Options) (graph : String)
    (s : σ) (ended : Outcome × σ) : Prop where
  undrawn : o.dot? = none → o.png? = none → ended.1.exit = 0 ∧ ended.2 = s
  written : ∀ {target : String} {t : σ}, o.graphPath? = some target →
    (host.write target graph).run s = (.ok (), t) →
      ended.1.exit = 0 ∧ F.Holds t target graph.toUTF8 ∧ F.SameExcept target s t ∧
        (o.png? = none → ended.2 = t) ∧
          ∀ png, o.png? = some png →
            ended.2 = ((host.render target png).run t).2 ∧ F.SameExcept png t ended.2
  unwritten : ∀ {target : String} {e : AccessError} {t : σ}, o.graphPath? = some target →
    (host.write target graph).run s = (.error e, t) →
      ended.1.exit = 1 ∧ ended.1.out = "" ∧ ended.2 = s

theorem confined_execute_run {σ : Type} {host : Host (StateM σ)} {F : Files σ} {path : String}
    {o : Options} (hhost : host.Respects F path o) {s : σ} {p : Program}
    (hload : (loadProgram host path).run s = (.ok p, s)) {arguments : List String}
    (harguments : Options.read arguments = .ok (path, o)) :
    Confined host F o p.drawing.dot s ((execute host ("run" :: arguments)).run s) where
  undrawn := by
    intro hdot hpng
    have hgraph : o.graphPath? = none := by simp [Options.graphPath?, hdot, hpng]
    obtain ⟨elapsed, htimed⟩ := hhost.timed (fun _ => p.evaluate o.settings) s
    rw [execute_run_of_undrawn harguments hload htimed hgraph]
    exact ⟨rfl, rfl⟩
  written := by
    intro target t hgraph hwrite
    obtain ⟨hholds, hsame⟩ := hhost.written hgraph hwrite
    obtain ⟨elapsed, htimed⟩ := hhost.timed (fun _ => p.evaluate o.settings) s
    rw [← drawing_evaluate p o.settings] at hwrite
    obtain ⟨renderError?, hended⟩ := execute_run_of_written harguments hload htimed hgraph hwrite
    rw [hended]
    refine ⟨rfl, hholds, hsame, ?_, ?_⟩
    · intro hpng
      rw [hpng]
      rfl
    · intro png hpng
      rw [hpng]
      exact ⟨rfl, hhost.rendered hgraph hpng t⟩
  unwritten := by
    intro target e t hgraph hwrite
    obtain rfl := hhost.unwritten hgraph hwrite
    obtain ⟨elapsed, htimed⟩ := hhost.timed (fun _ => p.evaluate o.settings) t
    rw [← drawing_evaluate p o.settings] at hwrite
    rw [execute_run_of_unwritten harguments hload htimed hgraph hwrite]
    exact ⟨rfl, rfl, rfl⟩

/-- A run of a request changes the file of its graph at most, which then holds what drawing the
request would have shown before. Wherever and however else the request is run, if the run exits with
0 then it shows the same. -/
theorem execute_run_frame {σ : Type} {host : Host (StateM σ)} {F : Files σ} {path : String}
    {o : Options} (hhost : host.Respects F path o) {s : σ} {p : Program}
    (hload : ((loadProgram host path).run s).1 = .ok p) {arguments : List String}
    (harguments : Options.read arguments = .ok (path, o)) :
    let ended := (execute host ("run" :: arguments)).run s
    (∃ graph, (execute host ["graph", path]).run s = (⟨0, graph, ""⟩, s) ∧
      Confined host F o graph s ended) ∧
      ∀ {t : σ} {path' : String} {arguments' : List String} {o' : Options},
        ((loadProgram host path').run t).1 = .ok p →
          Options.read arguments' = .ok (path', o') → o'.format = o.format →
            let ended' := (execute host ("run" :: arguments')).run t
            ended.1.exit = 0 → ended'.1.exit = 0 → ended'.1.out = ended.1.out := by
  intro ended
  constructor
  · have hloaded : (loadProgram host path).run s = (.ok p, s) :=
      run_loadProgram (hhost.read s) hload
    exact ⟨_, execute_graph hloaded, confined_execute_run hhost hloaded harguments⟩
  · intro t path' arguments' o' hload' harguments' hformat ended' hexit hexit'
    have hout : ended.1.out = o.format.shown (p.evaluate o.settings) :=
      out_execute_run hhost.computes hload harguments hexit
    have hout' : ended'.1.out = o'.format.shown (p.evaluate o'.settings) :=
      out_execute_run hhost.computes hload' harguments' hexit'
    rw [hout, hout', hformat, p.evaluate_settings o'.settings o.settings]

/-- The graph overwrites the request, the renderer fails after it has written something, and a run
without either shows the same. -/
theorem execute_run_frame_overwritten_request :
    let request := "calc y = x + 1\ncalc x = 2 * 3\nprint y\n"
    let machine : Machine :=
      ⟨(Disk.empty ["home"]).putRelative "in.txt" (.file request.toUTF8),
        some ⟨1, some "half a picture".toUTF8⟩⟩
    let p : Program :=
      .ofNodup [.define (Calc.ofTexts "y" "x" "+" "1"), .define (Calc.ofTexts "x" "2" "*" "3"),
        .print ⟨"y"⟩] (by decide)
    let o : Options := { dot? := some "in.txt", png? := some "y.png" }
    let ended := (execute Machine.host ["run", "--png=y.png", "--dot=in.txt", "in.txt"]).run machine
    let ended' := (execute Machine.host ["run", "in.txt", "--no-parallel"]).run machine
    Machine.host.Respects Machine.files "in.txt" o ∧
      ((loadProgram Machine.host "in.txt").run machine).1 = .ok p ∧
        Options.read ["--png=y.png", "--dot=in.txt", "in.txt"] = .ok ("in.txt", o) ∧
          (∃ graph written, (execute Machine.host ["graph", "in.txt"]).run machine =
              (⟨0, graph, ""⟩, machine) ∧
            (Machine.host.write "in.txt" graph).run machine = (.ok (), written) ∧
              Machine.files.Holds written "in.txt" graph.toUTF8 ∧
                Machine.files.SameExcept "in.txt" machine written ∧
                  Machine.files.SameExcept "y.png" written ended.2) ∧
            ended.1.exit = 0 ∧ ended'.1.exit = 0 ∧ ended'.1.out = ended.1.out := by
  intro request machine p o ended ended'
  have hhost := Machine.respects_host "in.txt" o
  have hload : ((loadProgram Machine.host "in.txt").run machine).1 = .ok p := by
    unfold machine p request
    rfl
  have harguments : Options.read ["--png=y.png", "--dot=in.txt", "in.txt"] = .ok ("in.txt", o) := by
    decide
  have harguments' : Options.read ["in.txt", "--no-parallel"] =
      .ok ("in.txt", { settings := .sequential }) := by
    decide
  have hexit' : ended'.1.exit = 0 := by decide +kernel
  obtain ⟨⟨graph, hgraphed, hconfined⟩, hshown⟩ := execute_run_frame hhost hload harguments
  obtain ⟨written, hwrite⟩ :
      ∃ written, (Machine.host.write "in.txt" graph).run machine = (.ok (), written) := by
    unfold machine
    exact ⟨_, rfl⟩
  obtain ⟨hexit, hholds, hsame, -, hpicture⟩ := hconfined.written rfl hwrite
  obtain ⟨-, hsame'⟩ := hpicture "y.png" rfl
  exact ⟨hhost, hload, harguments, ⟨graph, written, hgraphed, hwrite, hholds, hsame, hsame'⟩,
    hexit, hexit', hshown hload harguments' rfl hexit hexit'⟩

end Wavefront.Command
