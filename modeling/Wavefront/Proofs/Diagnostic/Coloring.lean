import Wavefront.Diagnostic.Terminal
import Wavefront.Proofs.Diagnostic.Flushing
import Wavefront.Proofs.Text.Escape

set_option autoImplicit false

/-!
# Coloured reports

Colour adds escape sequences to a report and nothing else. None of them can become part of another
sequence, also not of one that a message leaves unfinished, because each stands where a sequence
cannot go on. So a coloured report, once it is stripped, is the stripped report without colour.
-/
namespace Wavefront.Diagnostic

open Text

def texts (d : Diagnostic) : List String :=
  d.message :: (d.subject?.toList.map Name.text ++ d.notes)

/-- A part of a report that is the same with and without colour once it is stripped, whatever comes
behind it. -/
def Colorless (part : Bool → List Char) : Prop :=
  ∀ color rest, strip (part color ++ rest) = strip (part false) ++ strip rest

section
variable {f g : Bool → List Char} {cs : List Char}

theorem Colorless.append (hf : Colorless f) (hg : Colorless g) :
    Colorless fun color => f color ++ g color := by
  intro color rest
  rw [List.append_assoc, hf, hg, hf, List.append_assoc]

theorem colorless_nil : Colorless fun _ => [] := by
  intro color rest
  simp

theorem Colorless.ite (p : Prop) [Decidable p] (hf : Colorless f) (hg : Colorless g) :
    Colorless fun color => if p then f color else g color := by
  by_cases h : p
  · simpa only [h, if_true] using hf
  · simpa only [h, if_false] using hg

theorem Colorless.flatMap {α : Type} {f : Bool → α → List Char} (as : List α)
    (hf : ∀ a, Colorless fun color => f color a) : Colorless fun color => as.flatMap (f color) := by
  induction as with
  | nil => exact colorless_nil
  | cons a as ih => simpa only [List.flatMap_cons] using (hf a).append ih

theorem colorless_of_not_mem (h : escape ∉ cs) : Colorless fun _ => cs :=
  fun _ _ => strip_append (.inl h)

theorem not_continues_newline : ¬ Continues '\n' := by
  unfold Continues
  decide

/-- No sequence goes on behind the end of a line. -/
theorem strip_line (cs rest : List Char) :
    strip (cs ++ '\n' :: rest) = strip cs ++ '\n' :: strip rest := by
  rw [strip_append (apart_cons not_continues_newline cs rest), strip_cons_of_ne (by decide)]

theorem colorless_of_getLast? (h : cs.getLast? = some '\n') : Colorless fun _ => cs := by
  obtain ⟨line, rfl⟩ := List.getLast?_eq_some_iff.1 h
  intro color rest
  simp only [List.append_assoc, strip_line, strip_nil, List.cons_append, List.nil_append]

end

/-! ## Paint -/

theorem isSequence_of_all (parameters : List Char) (h : parameters.all isParameter = true) :
    IsSequence (escape :: '[' :: (parameters ++ ['m'])) :=
  .intro parameters (List.all_eq_true.1 h)

theorem isSequence_sequence (s : Style) : IsSequence s.sequence.toList := by
  rcases s with (_ | _ | _) | _
  · exact isSequence_of_all ['1', ';', '3', '1'] (by decide)
  · exact isSequence_of_all ['1', ';', '3', '3'] (by decide)
  · exact isSequence_of_all ['1', ';', '3', '6'] (by decide)
  · exact isSequence_of_all ['1'] (by decide)

theorem isSequence_plain : IsSequence plain.toList := isSequence_of_all ['0'] (by decide)

/-- What stands around a text that is painted is not taken for a part of what the text leaves
unfinished, nor is what comes behind it if it would not be without paint. -/
theorem strip_paint (s : Style) (color : Bool) {text : String} {rest : List Char}
    (h : Apart text.toList rest) :
    strip ((s.paint color text).toList ++ rest) = strip text.toList ++ strip rest := by
  cases color with
  | false => exact strip_append h
  | true =>
    have hescape : ¬ Continues escape := by
      unfold Continues
      decide
    have hplain : Apart text.toList (plain.toList ++ rest) := apart_cons hescape _ _
    change strip ((s.sequence ++ text ++ plain).toList ++ rest) = _
    rw [String.toList_append, String.toList_append, List.append_assoc, List.append_assoc,
      strip_append_of_isSequence (isSequence_sequence s), strip_append hplain,
      strip_append_of_isSequence isSequence_plain]

theorem colorless_paint (s : Style) {text : String} (h : escape ∉ text.toList) :
    Colorless fun color => (s.paint color text).toList :=
  fun _ _ => strip_paint s _ (.inl h)

theorem colorless_paint_line (s : Style) (text : String) :
    Colorless fun color => (s.paint color text).toList ++ ['\n'] := by
  have hnewline (rest : List Char) : Apart text.toList ('\n' :: rest) :=
    apart_cons not_continues_newline _ _
  intro color rest
  simp only [List.append_assoc, List.singleton_append, strip_paint s _ (hnewline _),
    strip_cons_of_ne (by decide : '\n' ≠ escape), strip_nil]

/-! ## Reports -/

theorem getLast?_toList_append {text text' : String} {c : Char}
    (h : text'.toList.getLast? = some c) : (text ++ text').toList.getLast? = some c := by
  rw [String.toList_append, List.getLast?_append, h, Option.some_or]

theorem colorless_whereText (d : Diagnostic) : Colorless fun _ => d.whereText.toList := by
  unfold whereText
  split
  · exact colorless_of_getLast? (getLast?_toList_append (by decide))
  · exact colorless_of_getLast? (getLast?_toList_append (by decide))
  · exact colorless_of_getLast? (getLast?_toList_append (by decide))
  · exact colorless_nil

theorem colorless_noteText (note : String) :
    Colorless fun color => (noteText color note).toList := by
  have hindent : escape ∉ "  = ".toList := by decide
  have hnote : escape ∉ "note".toList := by decide
  have hrest : (": " ++ note ++ "\n").toList.getLast? = some '\n' :=
    getLast?_toList_append (by decide)
  have hall := (colorless_of_not_mem hindent).append
    ((colorless_paint .bold hnote).append (colorless_of_getLast? hrest))
  simpa only [noteText, String.toList_append, List.append_assoc] using hall

theorem colorless_terminalText (d : Diagnostic) :
    Colorless fun color => (d.terminalText color).toList := by
  have hseverity : escape ∉ d.severity.text.toList := by cases d.severity <;> decide
  have hcode : escape ∉ (s!"[{d.code.text}]: ").toList := by cases d.code <;> decide
  have hnotes := Colorless.flatMap d.notes colorless_noteText
  have hall := (((colorless_paint (.severity d.severity) hseverity).append
    (colorless_of_not_mem hcode)).append (colorless_paint_line .bold d.message)).append
      ((colorless_whereText d).append hnotes)
  simpa [terminalText, List.flatMap_map] using hall

theorem Summary.colorless_terminalText (s : Summary) :
    Colorless fun color => (s.terminalText color).toList := by
  have herror : escape ∉ "error".toList := by decide
  have hwarning : escape ∉ "warning".toList := by decide
  have herrors : Colorless fun _ =>
      (s!": request rejected with {s.errors} error{pluralSuffix s.errors}\n").toList :=
    colorless_of_getLast? (getLast?_toList_append (by decide))
  have hwarnings : Colorless fun _ =>
      (s!": {s.warnings} warning{pluralSuffix s.warnings} emitted\n").toList :=
    colorless_of_getLast? (getLast?_toList_append (by decide))
  have hall := (colorless_nil.ite (s.errors = 0)
    ((colorless_paint (.severity .error) herror).append herrors)).append
      (colorless_nil.ite (s.warnings = 0)
        ((colorless_paint (.severity .warning) hwarning).append hwarnings))
  simpa only [Summary.terminalText, String.toList_append, apply_ite String.toList,
    String.toList_empty] using hall

theorem Instruction.colorless_terminalText (i : Instruction) :
    Colorless fun color => (i.terminalText color).toList := by
  cases i with
  | emit d => exact d.colorless_terminalText
  | emitAll ds =>
    have hds := Colorless.flatMap ds Diagnostic.colorless_terminalText
    simpa [Instruction.terminalText, List.flatMap_map] using
      hds.append (Summary.ofList ds).colorless_terminalText
  | summary s => exact s.colorless_terminalText
  | flush => exact colorless_nil

theorem colorless_terminalReport (instructions : List Instruction) :
    Colorless fun color => (terminalReport color instructions).toList := by
  have hall := Colorless.flatMap instructions Instruction.colorless_terminalText
  simpa [terminalReport, List.flatMap_map] using hall

/-! ## Reports without escape characters -/

theorem escape_not_mem_append {a b : String} (ha : escape ∉ a.toList) (hb : escape ∉ b.toList) :
    escape ∉ (a ++ b).toList := by
  rw [String.toList_append, List.mem_append]
  exact not_or.2 ⟨ha, hb⟩

theorem escape_not_mem_join {as : List String} (h : ∀ a ∈ as, escape ∉ a.toList) :
    escape ∉ (String.join as).toList := by
  rw [String.toList_join, List.mem_flatMap]
  rintro ⟨a, ha, hmem⟩
  exact h a ha hmem

theorem escape_not_mem_toString (n : Nat) : escape ∉ (toString n).toList := by
  intro h
  have hdigit : escape.isDigit = true := isDigit_of_mem_toDigits (by simpa using h)
  exact absurd hdigit (by decide)

theorem escape_not_mem_whereText (d : Diagnostic)
    (h : ∀ n, d.subject? = some n → escape ∉ n.text.toList) : escape ∉ d.whereText.toList := by
  unfold whereText
  split
  · rename_i n i hn hi
    have hvariable := escape_not_mem_append (a := "  --> variable `") (by decide) (h n hn)
    have hoperation := escape_not_mem_append hvariable (b := "`, operation #") (by decide)
    exact escape_not_mem_append (escape_not_mem_append hoperation (escape_not_mem_toString i))
      (by decide)
  · rename_i n hn hi
    have hvariable := escape_not_mem_append (a := "  --> variable `") (by decide) (h n hn)
    exact escape_not_mem_append hvariable (by decide)
  · rename_i i hn hi
    have hoperation := escape_not_mem_append (a := "  --> operation #") (by decide)
      (escape_not_mem_toString i)
    exact escape_not_mem_append hoperation (by decide)
  · decide

theorem escape_not_mem_noteText {note : String} (h : escape ∉ note.toList) :
    escape ∉ (noteText false note).toList :=
  escape_not_mem_append
    (escape_not_mem_append (a := "  = note: ") (by decide) h) (by decide)

theorem escape_not_mem_terminalText (d : Diagnostic) (h : ∀ t ∈ d.texts, escape ∉ t.toList) :
    escape ∉ (d.terminalText false).toList := by
  have hseverity : escape ∉ d.severity.text.toList := by cases d.severity <;> decide
  have hcode : escape ∉ (s!"[{d.code.text}]: ").toList := by cases d.code <;> decide
  have hmessage : escape ∉ d.message.toList := h d.message (by simp [texts])
  have hheadline := escape_not_mem_append
    (escape_not_mem_append (escape_not_mem_append hseverity hcode) hmessage)
    (b := "\n") (by decide)
  have hwhere := escape_not_mem_whereText d fun n hn => h n.text (by simp [texts, hn])
  have hnotes : ∀ t ∈ d.notes.map (noteText false), escape ∉ t.toList := by
    intro t ht
    obtain ⟨note, hnote, rfl⟩ := List.mem_map.1 ht
    exact escape_not_mem_noteText (h note (by simp [texts, hnote]))
  exact escape_not_mem_append (escape_not_mem_append hheadline hwhere) (escape_not_mem_join hnotes)

theorem Summary.escape_not_mem_terminalText (s : Summary) :
    escape ∉ (s.terminalText false).toList := by
  have hplural (n : Nat) : escape ∉ (pluralSuffix n).toList := by
    unfold pluralSuffix
    split <;> decide
  refine escape_not_mem_append ?_ ?_
  · split
    · decide
    · have hcount := escape_not_mem_append (a := ": request rejected with ") (by decide)
        (escape_not_mem_toString s.errors)
      have hnoun := escape_not_mem_append (escape_not_mem_append hcount (b := " error") (by decide))
        (hplural s.errors)
      exact escape_not_mem_append (by decide) (escape_not_mem_append hnoun (by decide))
  · split
    · decide
    · have hcount := escape_not_mem_append (a := ": ") (by decide)
        (escape_not_mem_toString s.warnings)
      have hnoun := escape_not_mem_append
        (escape_not_mem_append hcount (b := " warning") (by decide)) (hplural s.warnings)
      exact escape_not_mem_append (by decide) (escape_not_mem_append hnoun (by decide))

theorem Instruction.escape_not_mem_terminalText (i : Instruction)
    (h : ∀ d ∈ i.diagnostics, ∀ t ∈ d.texts, escape ∉ t.toList) :
    escape ∉ (i.terminalText false).toList := by
  cases i with
  | emit d => exact d.escape_not_mem_terminalText (h d List.mem_cons_self)
  | emitAll ds =>
    have hds : ∀ t ∈ ds.map (Diagnostic.terminalText false), escape ∉ t.toList := by
      intro t ht
      obtain ⟨d, hd, rfl⟩ := List.mem_map.1 ht
      exact d.escape_not_mem_terminalText (h d hd)
    exact escape_not_mem_append (escape_not_mem_join hds)
      (Summary.ofList ds).escape_not_mem_terminalText
  | summary s => exact s.escape_not_mem_terminalText
  | flush => simp [Instruction.terminalText]

/-- Colour changes nothing of a report but the escape sequences in it. If no text of a diagnostic
has an escape character, a report without colour has no escape sequence, and is what is left of the
coloured one. -/
theorem strip_terminalReport (instructions : List Instruction) :
    strip (terminalReport true instructions).toList =
        strip (terminalReport false instructions).toList ∧
      ((∀ d ∈ instructions.flatMap Instruction.diagnostics, ∀ t ∈ d.texts, escape ∉ t.toList) →
        strip (terminalReport true instructions).toList =
          (terminalReport false instructions).toList) := by
  have hsame : strip (terminalReport true instructions).toList =
      strip (terminalReport false instructions).toList := by
    have h := colorless_terminalReport instructions true []
    rwa [List.append_nil, strip_nil, List.append_nil] at h
  refine ⟨hsame, fun h => ?_⟩
  rw [hsame, strip_of_not_mem]
  refine escape_not_mem_join fun t ht => ?_
  obtain ⟨i, hi, rfl⟩ := List.mem_map.1 ht
  exact i.escape_not_mem_terminalText fun d hd => h d (List.mem_flatMap.2 ⟨i, hi, hd⟩)

/-- A name and a note that look like escape sequences but for the escape character. -/
theorem strip_terminalReport_bare_sequences :
    let d : Diagnostic := ⟨.unresolved, .warning, "`[1m` could not be computed", some ⟨"[1m"⟩,
      some 2, ["`\\x1b[0m` has no value", "m"]⟩
    let instructions : List Instruction :=
      [.emitAll [d, { d with severity := .note, subject? := none }], .emit { d with notes := [] },
        .summary ⟨2, 1⟩, .flush]
    (∀ d ∈ instructions.flatMap Instruction.diagnostics, ∀ t ∈ d.texts, escape ∉ t.toList) ∧
      escape ∈ (terminalReport true instructions).toList ∧
        strip (terminalReport true instructions).toList =
          (terminalReport false instructions).toList := by
  intro d instructions
  have hplain : ∀ d ∈ instructions.flatMap Instruction.diagnostics, ∀ t ∈ d.texts,
      escape ∉ t.toList := by decide
  have hsummary : escape ∈ (Summary.terminalText true ⟨2, 1⟩).toList := by decide +kernel
  have hcolored : escape ∈ (terminalReport true instructions).toList := by
    rw [terminalReport, String.toList_join]
    exact List.mem_flatMap.2
      ⟨_, List.mem_map.2 ⟨.summary ⟨2, 1⟩, by simp [instructions], rfl⟩, hsummary⟩
  exact ⟨hplain, hcolored, (strip_terminalReport instructions).2 hplain⟩

end Wavefront.Diagnostic
