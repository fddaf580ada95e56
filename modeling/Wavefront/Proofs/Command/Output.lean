import Wavefront.Proofs.Command.Files
import Wavefront.Proofs.Response.RoundTrip

set_option autoImplicit false

/-!
# Responses on standard output

What a run shows in JSON is read back as the response of its evaluation, whatever the names in it
are spelt like.
-/
namespace Wavefront.Command

theorem read_shown_json (e : Evaluation) : Response.read (Format.json.shown e) = .ok e.response :=
  e.response.read_indented_newline

/-- Responses are read back from both of their texts, and from what a run in JSON leaves on standard
output. Only a graph can keep such a run from its end. -/
theorem read_response :
    (∀ r : Response,
      Response.read r.document.compact = .ok r ∧ Response.read r.document.indented = .ok r) ∧
      ∀ {σ : Type} (host : Host (StateM σ)), host.Computes →
        ∀ (s : σ) (path : String) (p : Program), ((loadProgram host path).run s).1 = .ok p →
          ∀ (arguments : List String) (o : Options), Options.read arguments = .ok (path, o) →
            o.format = .json →
              let ended := ((execute host ("run" :: arguments)).run s).1
              (o.graphPath? = none → ended.exit = 0) ∧
                (ended.exit = 0 →
                  Response.read ended.out = .ok (p.evaluate o.settings).response) := by
  constructor
  · intro r
    exact ⟨r.read_compact, r.read_indented⟩
  · intro σ host hhost s path p hload arguments o harguments hformat ended
    constructor
    · intro hgraph
      have hended : (execute host ("run" :: arguments)).run s = _ :=
        execute_run_of_undrawn harguments (Prod.ext hload rfl) rfl hgraph
      exact congrArg (fun r => r.1.exit) hended
    · intro hexit
      have hout : ended.out = o.format.shown (p.evaluate o.settings) :=
        out_execute_run hhost hload harguments hexit
      rw [hout, hformat, read_shown_json]

/-- Names with a quote and a backslash in them, the least value, and a variable without a value,
with the graph written on the way. -/
theorem read_response_awkward_names :
    let request := "calc a\"b = -9223372036854775807 - 1\nprint a\"b\nprint \\\n"
    let machine : Machine :=
      ⟨(Disk.empty ["home"]).putRelative "in.txt" (.file request.toUTF8), none⟩
    let p : Program :=
      .ofNodup [.define (Calc.ofTexts "a\"b" "-9223372036854775807" "-" "1"), .print ⟨"a\"b"⟩,
        .print ⟨"\\"⟩] (by decide)
    let arguments := ["--dot=graph.dot", "in.txt", "--threads=3", "--format=json"]
    let o : Options := { settings := { threads := 3 }, format := .json, dot? := some "graph.dot" }
    let ended := ((execute Machine.host ("run" :: arguments)).run machine).1
    Machine.host.Computes ∧
      ((loadProgram Machine.host "in.txt").run machine).1 = .ok p ∧
        Options.read arguments = .ok ("in.txt", o) ∧
          ended.exit = 0 ∧ Response.read ended.out = .ok (p.evaluate o.settings).response := by
  intro request machine p arguments o ended
  have hcomputes : Machine.host.Computes := Machine.computes_host
  have hload : ((loadProgram Machine.host "in.txt").run machine).1 = .ok p := by
    unfold machine p request
    rfl
  have harguments : Options.read arguments = .ok ("in.txt", o) := by decide
  have hexit : ended.exit = 0 := by decide +kernel
  obtain ⟨-, hrun⟩ := read_response
  obtain ⟨-, hread⟩ :=
    hrun Machine.host hcomputes machine "in.txt" p hload arguments o harguments rfl
  exact ⟨hcomputes, hload, harguments, hexit, hread hexit⟩

end Wavefront.Command
