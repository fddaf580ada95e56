import Wavefront.Proofs.Command.Files

set_option autoImplicit false

/-!
# Runs that make a picture

A picture is made from the written graph. A renderer that fails or cannot be started is reported and
nothing more, so the run succeeds and shows its results. A graph that cannot be written ends the run
without them, also where it was wanted for the picture alone.
-/
namespace Wavefront.Command

section
variable {σ : Type} {host : Host (StateM σ)} {s : σ} {p : Program} {o : Options}
  {path : String} {arguments : List String} {target : String}

theorem execute_run_of_rendered (hhost : host.Steady path o)
    (hload : ((loadProgram host path).run s).1 = .ok p)
    (harguments : Options.read arguments = .ok (path, o)) (hgraph : o.graphPath? = some target)
    {png : String} (hpng : o.png? = some png) {t : σ}
    (hwrite : (host.write target p.drawing.dot).run s = (.ok (), t)) :
    ∃ elapsed, (execute host ("run" :: arguments)).run s =
      (Finished.outcome host.color o.format ⟨p.evaluate o.settings, elapsed,
        RenderError.of? ((host.render target png).run t).1⟩,
        ((host.render target png).run t).2) := by
  obtain ⟨elapsed, htimed⟩ := hhost.timed (fun _ => p.evaluate o.settings) s
  refine ⟨elapsed, ?_⟩
  rw [execute_run harguments]
  exact runRequest_of_ok (run_loadProgram (hhost.read s) hload)
    (evaluateProgram_of_rendered htimed hgraph hwrite hpng rfl)

theorem execute_run_of_unwritable (hhost : host.Steady path o)
    (hload : ((loadProgram host path).run s).1 = .ok p)
    (harguments : Options.read arguments = .ok (path, o)) (hgraph : o.graphPath? = some target)
    {e : AccessError} (hwrite : ((host.write target p.drawing.dot).run s).1 = .error e) :
    (execute host ("run" :: arguments)).run s =
      (.failure host.color o.format (.access target e), s) := by
  obtain ⟨elapsed, htimed⟩ := hhost.timed (fun _ => p.evaluate o.settings) s
  have hunchanged : (host.write target p.drawing.dot).run s = (.error e, s) :=
    Prod.ext hwrite (hhost.unwritten hgraph (Prod.ext hwrite rfl))
  exact execute_run_of_unwritten harguments (run_loadProgram (hhost.read s) hload) htimed hgraph
    hunchanged

/-- A run that is asked for a picture and not for a graph shows its results and exits with 0 exactly
if the graph can be written next to the picture. What the renderer then does is reported at most,
and otherwise the graph is what the run fails for. -/
theorem execute_run_pictured (hhost : host.Steady path o)
    (hload : ((loadProgram host path).run s).1 = .ok p)
    (harguments : Options.read arguments = .ok (path, o)) (hdot : o.dot? = none) {png : String}
    (hpng : o.png? = some png) :
    let target := Path.withExtension png "dot"
    let written := (host.write target p.drawing.dot).run s
    let rendered := (host.render target png).run written.2
    let ended := (execute host ("run" :: arguments)).run s
    (ended.1.exit = 0 ∧ ended.1.out = o.format.shown (p.evaluate o.settings) ↔
        written.1 = .ok ()) ∧
      (written.1 = .ok () → ∃ elapsed, ended = (Finished.outcome host.color o.format
        ⟨p.evaluate o.settings, elapsed, RenderError.of? rendered.1⟩, rendered.2)) ∧
        ∀ e, written.1 = .error e →
          ended = (.failure host.color o.format (.access target e), s) := by
  intro target written rendered ended
  have hgraph : o.graphPath? = some target := by simp [Options.graphPath?, hdot, hpng, target]
  have hok (h : written.1 = .ok ()) : ∃ elapsed, ended = (Finished.outcome host.color o.format
      ⟨p.evaluate o.settings, elapsed, RenderError.of? rendered.1⟩, rendered.2) :=
    execute_run_of_rendered hhost hload harguments hgraph hpng (Prod.ext h rfl)
  have herror (e : AccessError) (h : written.1 = .error e) :
      ended = (.failure host.color o.format (.access target e), s) :=
    execute_run_of_unwritable hhost hload harguments hgraph h
  refine ⟨?_, hok, herror⟩
  cases hwritten : written.1 with
  | error e =>
    rw [herror e hwritten]
    simp [Outcome.failure]
  | ok _ =>
    obtain ⟨elapsed, hended⟩ := hok hwritten
    rw [hended, Finished.out_outcome]
    exact iff_of_true ⟨rfl, rfl⟩ rfl

/-- The renderer fails where the graph can be written, and is never started where the folder of the
picture is missing. -/
theorem execute_run_pictured_failing_renderer :
    let machine : Machine :=
      ⟨(Disk.empty ["home"]).putRelative "r.txt" (.file "calc x = 10 + 2\nprint x\n".toUTF8),
        some ⟨3, none⟩⟩
    let p : Program :=
      .ofNodup [.define (Calc.ofTexts "x" "10" "+" "2"), .print ⟨"x"⟩] (by decide)
    let here := (execute Machine.host ["run", "--png=g.png", "r.txt"]).run machine
    let missing := (execute Machine.host ["run", "--png=missing/g.png", "r.txt"]).run machine
    (∀ o, Machine.host.Steady "r.txt" o) ∧
      ((loadProgram Machine.host "r.txt").run machine).1 = .ok p ∧
        here.1.exit = 0 ∧ here.1.out = Format.text.shown (p.evaluate {}) ∧
          missing =
            (.failure Machine.host.color .text (.access "missing/g.dot" .notFound), machine) := by
  intro machine p here missing
  have hhost (o : Options) := (Machine.respects_host "r.txt" o).toSteady
  have hload : ((loadProgram Machine.host "r.txt").run machine).1 = .ok p := by
    unfold machine p
    rfl
  have hargumentsHere : Options.read ["--png=g.png", "r.txt"] =
      .ok ("r.txt", { png? := some "g.png" }) := by decide
  have hargumentsMissing : Options.read ["--png=missing/g.png", "r.txt"] =
      .ok ("r.txt", { png? := some "missing/g.png" }) := by decide
  obtain ⟨hiff, -, -⟩ := execute_run_pictured (hhost _) hload hargumentsHere rfl rfl
  obtain ⟨-, -, herror⟩ := execute_run_pictured (hhost _) hload hargumentsMissing rfl rfl
  obtain ⟨hexit, hout⟩ := hiff.2 rfl
  exact ⟨hhost, hload, hexit, hout, herror .notFound rfl⟩

/-- The folder of the picture is missing, and so the run shows no results. It does show them where
the graph has a place of its own, although the picture is as impossible as before. -/
theorem execute_run_missing_folder :
    let machine : Machine :=
      ⟨(Disk.empty ["home"]).putRelative "r.txt" (.file "calc x = 10 + 2\nprint x\n".toUTF8), none⟩
    let p : Program :=
      .ofNodup [.define (Calc.ofTexts "x" "10" "+" "2"), .print ⟨"x"⟩] (by decide)
    let o : Options := { png? := some "missing/g.png" }
    let ended := (execute Machine.host ["run", "r.txt", "--png=missing/g.png"]).run machine
    let ended' :=
      (execute Machine.host ["run", "r.txt", "--png=missing/g.png", "--dot=g.dot"]).run machine
    ((loadProgram Machine.host "r.txt").run machine).1 = .ok p ∧
      Options.read ["r.txt", "--png=missing/g.png"] = .ok ("r.txt", o) ∧
        o.format.shown (p.evaluate o.settings) = "x = 12\n" ∧
          ended.1 = ⟨1, "",
            "error: cannot access `missing/g.dot`: No such file or directory (os error 2)\n"⟩ ∧
            ended'.1.exit = 0 ∧ ended'.1.out = "x = 12\n" := by
  intro machine p o ended ended'
  have hload : ((loadProgram Machine.host "r.txt").run machine).1 = .ok p := by
    unfold machine p
    rfl
  have harguments' : Options.read ["r.txt", "--png=missing/g.png", "--dot=g.dot"] =
      .ok ("r.txt", { dot? := some "g.dot", png? := some "missing/g.png" }) := by decide
  have hlive : ⟨"x"⟩ ∈ liveNames p.operations :=
    mem_liveNames_of_print (List.mem_cons_of_mem _ List.mem_cons_self)
  have hvalue : (p.evaluate {}).run.store.get? ⟨"x"⟩ = some ⟨12, by decide, by decide⟩ :=
    (p.get?_evaluate_iff {} _ _).2 ⟨hlive, _, List.mem_cons_self, rfl,
      ⟨10, by decide, by decide⟩, ⟨2, by decide, by decide⟩, rfl, rfl, rfl⟩
  have hprintout : (p.evaluate {}).printout = ⟨[⟨⟨"x"⟩, ⟨12, by decide, by decide⟩⟩], []⟩ := by
    have hprinted : p.operations.filterMap Operation.printed? = [⟨"x"⟩] := rfl
    change Printout.ofOperations p.operations (p.evaluate {}).run.store = _
    simp [Printout.ofOperations, hprinted, hvalue, Store.contains_eq_isSome]
  have hshown : Format.text.shown (p.evaluate {}) = "x = 12\n" := by
    rw [Format.shown, Evaluation.text, hprintout]
    decide
  have hexit' : ended'.1.exit = 0 := by decide +kernel
  have hout' : ended'.1.out = Format.text.shown (p.evaluate {}) :=
    out_execute_run Machine.computes_host hload harguments' hexit'
  exact ⟨hload, by decide, hshown, by decide +kernel, hexit', hout'.trans hshown⟩

end

end Wavefront.Command
