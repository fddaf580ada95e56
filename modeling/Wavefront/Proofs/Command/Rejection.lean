import Wavefront.Proofs.Command.Arguments
import Wavefront.Proofs.Command.Files

set_option autoImplicit false

/-!
# Requests that are rejected

All commands load a request before they do anything else, so they accept the same requests and
reject the others in the same way: with a report on standard error and nothing else. A request that
is loaded is never rejected for what it says; only a graph that cannot be written can spoil its run.
-/
namespace Wavefront.Command

section
variable {text : String}

theorem Options.read_path (htext : text.toList.head? ≠ some '-') :
    Options.read [text] = .ok (text, {}) := by
  simp [read, readFrom, Argument.ofText_of_isPath htext]

end

section
variable {σ : Type} {host : Host (StateM σ)} {s t : σ} {path : String} {arguments : List String}
  {o : Options}

section
variable {e : Failure} (hload : (loadProgram host path).run s = (.error e, t))
include hload

theorem execute_check_of_error (more : List String) :
    (execute host ("check" :: path :: more)).run s = (.failure host.color .text e, t) :=
  run_bind_of_run hload _

theorem execute_graph_of_error (more : List String) :
    (execute host ("graph" :: path :: more)).run s = (.failure host.color .text e, t) :=
  run_bind_of_run hload _

theorem execute_run_of_error (harguments : Options.read arguments = .ok (path, o)) :
    (execute host ("run" :: arguments)).run s = (.failure host.color o.format e, t) := by
  rw [execute_run harguments]
  exact run_bind_of_run hload _

end

/-- Unless a run has a graph to write, the commands exit alike on any request. One that cannot be
loaded leaves nothing behind but a report, the same from each command, and one that can be loaded is
not rejected for anything it says. -/
theorem execute_alike (s : σ) (path : String) (hread : ((host.read path).run s).2 = s) :
    (path.toList.head? ≠ some '-' → Options.read [path] = .ok (path, {})) ∧
      ∀ more arguments o, Options.read arguments = .ok (path, o) →
        let check := (execute host ("check" :: path :: more)).run s
        let graph := (execute host ("graph" :: path :: more)).run s
        let run := (execute host ("run" :: arguments)).run s
        (o.dot? = none → o.png? = none →
          run.1.exit = check.1.exit ∧ graph.1.exit = check.1.exit) ∧
          (∀ e, ((loadProgram host path).run s).1 = .error e →
            check = (⟨1, "", e.text host.color .text⟩, s) ∧ graph = check ∧
              run = (⟨1, "", e.text host.color o.format⟩, s) ∧ (o.format = .text → run = check)) ∧
            ∀ p, ((loadProgram host path).run s).1 = .ok p →
              check.1.exit = 0 ∧ graph.1.exit = 0 ∧
                (o.dot? = none → o.png? = none → run.1.exit = 0) := by
  refine ⟨Options.read_path, ?_⟩
  intro more arguments o harguments check graph run
  have hloaded {result : Except Failure Program} (h : ((loadProgram host path).run s).1 = result) :
      (loadProgram host path).run s = (result, s) := run_loadProgram hread h
  have hrejected (e : Failure) (h : ((loadProgram host path).run s).1 = .error e) :
      check = (.failure host.color .text e, s) ∧ graph = (.failure host.color .text e, s) ∧
        run = (.failure host.color o.format e, s) :=
    ⟨execute_check_of_error (hloaded h) more, execute_graph_of_error (hloaded h) more,
      execute_run_of_error (hloaded h) harguments⟩
  have haccepted (p : Program) (h : ((loadProgram host path).run s).1 = .ok p) :
      check.1.exit = 0 ∧ graph.1.exit = 0 ∧
        (o.dot? = none → o.png? = none → run.1.exit = 0) := by
    refine ⟨congrArg (fun r => r.1.exit) (execute_check (hloaded h)),
      congrArg (fun r => r.1.exit) (execute_graph (hloaded h)), fun hdot hpng => ?_⟩
    have hgraph : o.graphPath? = none := by simp [Options.graphPath?, hdot, hpng]
    have hrun : run = _ := execute_run_of_undrawn harguments (hloaded h) rfl hgraph
    exact congrArg (fun r => r.1.exit) hrun
  refine ⟨fun hdot hpng => ?_, fun e hload => ?_, haccepted⟩
  · rcases hload : ((loadProgram host path).run s).1 with e | p
    · obtain ⟨hcheck, hgraph, hrun⟩ := hrejected e hload
      rw [hcheck, hgraph, hrun]
      exact ⟨rfl, rfl⟩
    · obtain ⟨hcheck, hgraph, hrun⟩ := haccepted p hload
      exact ⟨(hrun hdot hpng).trans hcheck.symm, hgraph.trans hcheck.symm⟩
  · obtain ⟨hcheck, hgraph, hrun⟩ := hrejected e hload
    rw [hcheck, hgraph, hrun]
    refine ⟨rfl, rfl, rfl, fun hformat => ?_⟩
    rw [hformat]

/-- One request that defines a variable twice, with a run that would overwrite it by its graph, and
one with a cycle, an operator that is not supported and a variable that nothing defines. -/
theorem execute_alike_rejected_and_accepted :
    let rejected := "calc x = 1 + 1\ncalc x = 2 + 2\nprint x\n"
    let accepted := "calc p = p + 1\ncalc q = 4 / r\nprint p\nprint q\nprint r\n"
    let machine : Machine :=
      ⟨((Disk.empty ["home"]).putRelative "twice.txt" (.file rejected.toUTF8)).putRelative
        "wild.txt" (.file accepted.toUTF8), some ⟨0, none⟩⟩
    let arguments := ["--dot=twice.txt", "twice.txt", "--png=g.png", "--format=json"]
    let o : Options := { format := .json, dot? := some "twice.txt", png? := some "g.png" }
    let e : Failure := .load (.duplicate ⟨⟨"x"⟩, 0, 1⟩)
    let report := "error[E2001]: variable `x` is defined more than once\n" ++
      "  --> variable `x`, operation #1\n  = note: first definition is operation #0\n" ++
        "error: request rejected with 1 error\n"
    let p : Program :=
      .ofNodup [.define (Calc.ofTexts "p" "p" "+" "1"), .define (Calc.ofTexts "q" "4" "/" "r"),
        .print ⟨"p"⟩, .print ⟨"q"⟩, .print ⟨"r"⟩] (by decide)
    (∀ path, ((Machine.host.read path).run machine).2 = machine) ∧
      ((loadProgram Machine.host "twice.txt").run machine).1 = .error e ∧
        Options.read arguments = .ok ("twice.txt", o) ∧
          (execute Machine.host ["check", "twice.txt"]).run machine = (⟨1, "", report⟩, machine) ∧
            (execute Machine.host ["graph", "twice.txt"]).run machine =
              (execute Machine.host ["check", "twice.txt"]).run machine ∧
              (execute Machine.host ("run" :: arguments)).run machine =
                (⟨1, "", e.text Machine.host.color .json⟩, machine) ∧
                ((loadProgram Machine.host "wild.txt").run machine).1 = .ok p ∧
                  ((execute Machine.host ["run", "wild.txt"]).run machine).1.exit = 0 := by
  intro rejected accepted machine arguments o e report p
  have hread (path : String) : ((Machine.host.read path).run machine).2 = machine := rfl
  have hload : ((loadProgram Machine.host "twice.txt").run machine).1 = .error e := by
    unfold machine e rejected
    rfl
  have harguments : Options.read arguments = .ok ("twice.txt", o) := by decide
  have hreport : e.text Machine.host.color .text = report := by decide +kernel
  have hload' : ((loadProgram Machine.host "wild.txt").run machine).1 = .ok p := by
    unfold machine p accepted
    rfl
  obtain ⟨-, halike⟩ := execute_alike machine "twice.txt" (hread "twice.txt")
  obtain ⟨-, hrejected, -⟩ := halike [] arguments o harguments
  obtain ⟨hcheck, hgraph, hrun, -⟩ := hrejected e hload
  obtain ⟨harguments', halike'⟩ := execute_alike machine "wild.txt" (hread "wild.txt")
  obtain ⟨-, -, haccepted⟩ := halike' [] ["wild.txt"] {} (harguments' (by decide))
  obtain ⟨-, -, hrun'⟩ := haccepted p hload'
  exact ⟨hread, hload, harguments, hreport ▸ hcheck, hgraph, hrun, hload', hrun' rfl rfl⟩

end

end Wavefront.Command
