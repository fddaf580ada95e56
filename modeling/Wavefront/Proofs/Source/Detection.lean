import Wavefront.Proofs.Json.Tree
import Wavefront.Proofs.Script.Grammar
import Wavefront.Source

set_option autoImplicit false

/-!
# Telling requests and scripts apart

Of a source without a file name, the first character that is not blank decides. A script begins
with a comment or with one of two keywords, and a request with a brace or a bracket, although the
two do not even agree on what is blank. So no source is both, and none that is a script or an object
is taken for the other.
-/
namespace Wavefront

namespace Text

def first? (cs : List Char) : Option Char := (cs.dropWhile isBlank).head?

theorem flatMap_words_lines (cs : List Char) : (lines cs).flatMap words = words cs := by
  obtain ⟨ls, h⟩ := exists_lined cs
  induction h with
  | nil => rfl
  | @last l _ hl => rw [lines, List.splitOn_eq_singleton hl, List.flatMap_singleton]
  | @ended l cs _ hl _ ih =>
    rw [lines_append_newline hl, List.flatMap_cons, ih, words_append_blank (by decide)]

theorem exists_word_of_first? {cs : List Char} {c : Char} (h : first? cs = some c) :
    ∃ w, (words cs).head? = some w ∧ w.head? = some c := by
  obtain ⟨ws, hparted⟩ := exists_parted cs
  rw [hparted.words_eq]
  have hword {w : List Char} (hw : IsWord w) (rest : List Char)
      (hfirst : first? (w ++ rest) = some c) : w.head? = some c := by
    obtain ⟨d, w, rfl⟩ := List.exists_cons_of_ne_nil hw.ne_nil
    simpa [first?, hw.not_blank d List.mem_cons_self] using hfirst
  induction hparted with
  | nil => cases h
  | blank hb _ ih => exact ih (by simpa [first?, hb] using h)
  | last hw => exact ⟨_, rfl, hword hw [] (by simpa using h)⟩
  | word hw _ _ _ => exact ⟨_, rfl, hword hw _ h⟩

theorem isBlank_of_json {c : Char} (h : Json.isBlank c = true) : isBlank c = true := by
  simp only [Json.isBlank, Bool.or_eq_true, decide_eq_true_eq] at h
  rcases h with ((rfl | rfl) | rfl) | rfl <;> decide

end Text

namespace Script

theorem fits_of_ofLines {n : Nat} {lines : List (List Char)} {ops : List Operation}
    (h : ofLines n lines = .ok ops) {line : List Char} (hline : line ∈ lines) :
    Fits (lineWords line) := by
  by_cases hsilent : Silent (lineWords line)
  · exact .inl hsilent
  · have hspoken := (ofLines_eq_ok_iff n lines ops).1 h
    obtain ⟨hfits, -⟩ : (∀ ws ∈ (lines.map lineWords).filter fun ws => ¬ Silent ws, Fits ws) ∧ _ :=
      (List.forall₂_and_left _ ops).1 (hspoken.imp fun ws o hws => ⟨.inr ⟨o, hws⟩, hws⟩)
    have hmem : lineWords line ∈ (lines.map lineWords).filter fun ws => ¬ Silent ws :=
      List.mem_filter.2 ⟨List.mem_map_of_mem hline, by simpa using hsilent⟩
    exact hfits _ hmem

/-- A line that says anything at all begins with a mark of a comment or with a keyword. -/
theorem Fits.head?_mem {word : String} {words : List String} (h : Fits (word :: words)) :
    word.toList.head? ∈ [some '#', some 'c', some 'p'] := by
  rcases h with hsilent | ⟨o, hsays⟩
  · simp [hsilent word rfl]
  · cases hsays <;> decide

theorem first?_of_read {source : String} {ops : List Operation} (h : read source = .ok ops)
    {c : Char} (hc : Text.first? source.toList = some c) : c ∈ ['#', 'c', 'p'] := by
  obtain ⟨w, hw, hwc⟩ := Text.exists_word_of_first? hc
  rw [← Text.flatMap_words_lines, List.head?_flatMap] at hw
  obtain ⟨line, hline, hfirst⟩ := List.exists_of_findSome?_eq_some hw
  obtain ⟨ws, hws⟩ := List.head?_eq_some_iff.1 hfirst
  have hfits := fits_of_ofLines h hline
  rw [lineWords, hws, List.map_cons] at hfits
  simpa [hwc] using hfits.head?_mem

end Script

namespace Json

theorem exists_of_tokens {cs : List Char} {t : Token} {ts : List Token} (h : tokens cs = t :: ts) :
    ∃ rest, cs.dropWhile isBlank = t.source ++ rest := by
  rw [tokens_eq] at h
  split at h
  · cases h
  · rename_i hdrop
    split at h
    · obtain ⟨rfl, -⟩ := List.cons.inj h
      exact ⟨[], by rw [hdrop, Token.source, List.append_nil]⟩
    · rename_i hscan
      obtain ⟨rfl, -⟩ := List.cons.inj h
      exact ⟨_, hdrop.trans (Token.scan?_eq hscan).1⟩

/-- What is blank in JSON is blank everywhere, so a first token of one mark is also found by those
who skip more. -/
theorem first?_of_tokens {cs : List Char} {t : Token} {ts : List Token} (h : tokens cs = t :: ts)
    {c : Char} (ht : t.source = [c]) (hc : Text.isBlank c = false) : Text.first? cs = some c := by
  obtain ⟨rest, hrest⟩ := exists_of_tokens h
  have hblanks : ∀ b ∈ cs.takeWhile isBlank, Text.isBlank b = true := fun b hb =>
    Text.isBlank_of_json (List.all_eq_true.1 List.all_takeWhile b hb)
  rw [← cs.takeWhile_append_dropWhile (p := isBlank), hrest, ht, Text.first?,
    List.dropWhile_append_of_pos hblanks]
  simp [hc]

/-- The text of an object of JSON, whatever its members are. -/
def IsObject (source : String) : Prop :=
  ∃ members, tokens source.toList = (Tree.object members).tokens

theorem IsObject.first? {source : String} (h : IsObject source) :
    Text.first? source.toList = some '\x7b' := by
  obtain ⟨members, htokens⟩ := h
  obtain ⟨ts, hts⟩ : ∃ ts, (Tree.object members).tokens = .openBrace :: ts := by
    cases members <;> exact ⟨_, rfl⟩
  exact first?_of_tokens (htokens.trans hts) rfl (by decide)

theorem Schema.exists_of_run_record {α : Type} {S : Schema α} {ls rest : List Lexeme} {a : α}
    (h : S.record.run ls = .ok (a, rest)) :
    ∃ l ls', ls = l :: ls' ∧ (l.token = .openBrace ∨ l.token = .openBracket) := by
  simp only [record] at h
  split at h
  · exact ⟨_, _, rfl, .inl rfl⟩
  · exact ⟨_, _, rfl, .inl rfl⟩
  · exact ⟨_, _, rfl, .inr rfl⟩
  · cases h

end Json

theorem Request.first?_of_read {source : String} {request : Request}
    (h : read source = .ok request) :
    Text.first? source.toList = some '\x7b' ∨ Text.first? source.toList = some '[' := by
  unfold read Json.Reader.readText at h
  split at h
  case h_1 => cases h
  case h_3 => cases h
  case h_2 hrun =>
    obtain ⟨l, ls, hls, hfirst⟩ := Json.Schema.exists_of_run_record hrun
    have htokens : Json.tokens source.toList = l.token :: ls.map Json.Lexeme.token := by
      rw [Json.tokens, hls, List.map_cons]
    rcases hfirst with hbrace | hbracket
    · exact .inl (Json.first?_of_tokens htokens (by rw [hbrace]; rfl) (by decide))
    · exact .inr (Json.first?_of_tokens htokens (by rw [hbracket]; rfl) (by decide))

namespace Source

theorem kind_none_eq_json_iff (source : String) :
    kind none source = .json ↔ Text.first? source.toList = some '\x7b' := by
  simp [kind, startsWithBrace, Text.first?]

/-- A source that is read as a script is taken for one, an object of JSON is taken for a request
whether or not it is one, and no source is read both as a script and as a request. -/
theorem kind_of_read (source : String) :
    (∀ ops, Script.read source = .ok ops → kind none source = .script) ∧
      (Json.IsObject source → kind none source = .json) ∧
        ¬ ((∃ ops, Script.read source = .ok ops) ∧
          ∃ request, Request.read source = .ok request) := by
  refine ⟨?_, ?_, ?_⟩
  · intro ops hops
    have hnot : kind none source ≠ .json := by
      intro hjson
      have hfirst := Script.first?_of_read hops ((kind_none_eq_json_iff source).1 hjson)
      exact absurd hfirst (by decide)
    cases hkind : kind none source with
    | json => exact absurd hkind hnot
    | script => rfl
  · intro hobject
    exact (kind_none_eq_json_iff source).2 hobject.first?
  · rintro ⟨⟨ops, hops⟩, request, hrequest⟩
    rcases Request.first?_of_read hrequest with hfirst | hfirst
    · exact absurd (Script.first?_of_read hops hfirst) (by decide)
    · exact absurd (Script.first?_of_read hops hfirst) (by decide)

/-- A script that begins with a blank JSON does not know and has braces in a comment and for a
variable, and a request with blanks around everything. -/
theorem kind_of_read_braces :
    let script := "\u00a0\n\r\n # \x7b\ncalc \x7b = 1 + 2\nprint \x7b"
    let ops : List Operation :=
      [.define (Calc.ofTexts "\x7b" "1" "+" "2"), .print ⟨"\x7b"⟩]
    let request := "\n\t\x7b \"operations\" : [ ] \x7d\r\n"
    Script.read script = .ok ops ∧ kind none script = .script ∧ Json.IsObject request ∧
      Request.read request = .ok ⟨[]⟩ ∧ kind none request = .json ∧
        ∀ ops', Script.read request ≠ .ok ops' := by
  intro script ops request
  have hscript : Script.read script = .ok ops := by decide
  have hobject : Json.IsObject request :=
    ⟨[("operations".toList.map Json.Piece.ofChar, .array [])], by decide +kernel⟩
  have hrequest : Request.read request = .ok ⟨[]⟩ := by decide +kernel
  obtain ⟨hread, -, -⟩ := kind_of_read script
  obtain ⟨-, hkind, hnot⟩ := kind_of_read request
  exact ⟨hscript, hread ops hscript, hobject, hrequest, hkind hobject,
    fun ops' hops' => hnot ⟨⟨ops', hops'⟩, ⟨[]⟩, hrequest⟩⟩

end Source

end Wavefront
