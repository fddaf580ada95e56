import Wavefront.Proofs.Operation.Unambiguity
import Wavefront.Proofs.Script.Grammar

set_option autoImplicit false

/-!
# Scripts that are read again

A script is written with one line for each operation. It reads as the same operations exactly when
all their texts are words and say what the operations are, and whatever a script is read from, its
operations are like that. So what is written for a script is a normal form of it, without comments,
empty lines, blanks other than single spaces and integers in unusual spelling.
-/
namespace Wavefront

namespace Operation

def words : Operation → List String
  | define c => ["calc", c.target.text, "=", c.left.text, c.operator.symbol, c.right.text]
  | print n => ["print", n.text]

theorem toList_text (o : Operation) :
    o.text.toList = [' '].intercalate (o.words.map String.toList) := by
  cases o with
  | define c => simp [text, Calc.text, words, toString, List.intercalate_cons_cons]
  | print n => simp [text, words, toString, List.intercalate_cons_cons]

/-- Can be said on a line. -/
structure Writable (o : Operation) : Prop where
  unambiguous : o.Unambiguous
  isWord : ∀ w ∈ o.words, Text.IsWord w.toList

end Operation

theorem Operand.isWord_text_ofText {t : String} (h : Text.IsWord t.toList) :
    Text.IsWord (ofText t).text.toList := by
  unfold ofText
  split
  · exact Text.isWord_repr _
  · exact h

namespace Script

theorem Says.writable {words : List String} {o : Operation} (h : Says words o)
    (hwords : ∀ w ∈ words, Text.IsWord w.toList) : o.Writable := by
  cases h with
  | define target left symbol right =>
    obtain ⟨hcalc, htarget, hequals, hleft, hsymbol, hright, -⟩ := by
      simpa only [List.forall_mem_cons] using hwords
    refine ⟨(Operation.unambiguous_define_iff _).2 ⟨?_, Calc.reread_ofTexts ..⟩, ?_⟩
    · exact fun hempty => htarget.ne_nil (String.toList_eq_nil_iff.2 hempty)
    · simp only [Operation.words, Calc.ofTexts, Operator.symbol_ofSymbol, List.forall_mem_cons]
      exact ⟨hcalc, htarget, hequals, Operand.isWord_text_ofText hleft, hsymbol,
        Operand.isWord_text_ofText hright, by simp⟩
  | print target =>
    refine ⟨(Operation.unambiguous_print_iff _).2 ?_, hwords⟩
    have htarget : Text.IsWord target.toList := hwords target (by simp)
    exact fun hempty => htarget.ne_nil (String.toList_eq_nil_iff.2 hempty)

theorem says_words {o : Operation} (h : o.Unambiguous) : Says o.words o := by
  cases o with
  | define c =>
    have hreread := ((Operation.unambiguous_define_iff c).1 h).2
    have hsays := Says.define c.target.text c.left.text c.operator.symbol c.right.text
    change Says _ (.define c.reread) at hsays
    rwa [hreread] at hsays
  | print n => exact Says.print n.text

theorem ofWords_words_text {o : Operation} (h : o.Writable) :
    ofWords (Text.words o.text.toList) = .ok (some o) := by
  have hwords : ∀ w ∈ o.words.map String.toList, Text.IsWord w := List.forall_mem_map.2 h.isWord
  rw [o.toList_text, Text.words_intercalate hwords]
  exact ofWords_of_says (says_words h.unambiguous)

theorem newline_not_mem_text {o : Operation} (h : o.Writable) : '\n' ∉ o.text.toList := by
  rw [o.toList_text]
  exact Text.newline_not_mem_intercalate (List.forall_mem_map.2 h.isWord)

theorem ofLines_map_text {ops : List Operation} (h : ∀ o ∈ ops, o.Writable) (n : Nat) :
    ofLines n (ops.map fun o => o.text.toList) = .ok ops := by
  induction ops generalizing n with
  | nil => rfl
  | cons o ops ih =>
    obtain ⟨ho, hops⟩ := List.forall_mem_cons.1 h
    rw [List.map_cons, ofLines, ofWords_words_text ho]
    simp only [ih hops]
    rfl

theorem writable_of_read {source : String} {ops : List Operation} (h : read source = .ok ops) :
    ∀ o ∈ ops, o.Writable := by
  intro o ho
  obtain ⟨line, -, hsays⟩ := exists_says_of_mem h ho
  refine hsays.writable (List.forall_mem_map.2 fun w hw => ?_)
  rw [String.toList_ofList]
  exact Text.isWord_of_mem_words hw

def write (ops : List Operation) : String := String.join (ops.map fun o => o.text ++ "\n")

theorem toList_write (ops : List Operation) :
    (write ops).toList = ['\n'].intercalate (ops.map (fun o => o.text.toList) ++ [[]]) := by
  induction ops with
  | nil => rfl
  | cons o ops ih =>
    have hcons : (write (o :: ops)).toList = o.text.toList ++ '\n' :: (write ops).toList := by
      simp [write]
    rw [hcons, ih]
    cases ops with
    | nil => rfl
    | cons o' ops => simp [List.intercalate_cons_cons]

theorem read_write {ops : List Operation} (h : ∀ o ∈ ops, o.Writable) :
    read (write ops) = .ok ops := by
  have hlines : ∀ l ∈ ops.map (fun o => o.text.toList) ++ [[]], '\n' ∉ l := by
    simp only [List.forall_mem_append, List.forall_mem_map]
    exact ⟨fun o ho => newline_not_mem_text (h o ho), by simp⟩
  rw [read, Text.lines, toList_write, List.splitOn_intercalate '\n' hlines (by simp),
    ofLines_append_empty, ofLines_map_text h]

theorem read_intercalate {ops : List Operation} (h : ∀ o ∈ ops, o.Writable) :
    read ("\n".intercalate (ops.map Operation.text)) = .ok ops := by
  cases ops with
  | nil => rfl
  | cons o ops =>
    have hlines : ∀ l ∈ (o :: ops).map (fun o => o.text.toList), '\n' ∉ l :=
      List.forall_mem_map.2 fun o ho => newline_not_mem_text (h o ho)
    have htexts : ("\n".intercalate ((o :: ops).map Operation.text)).toList =
        ['\n'].intercalate ((o :: ops).map fun o => o.text.toList) := by
      rw [String.toList_intercalate, List.map_map]
      rfl
    rw [read, Text.lines, htexts, List.splitOn_intercalate '\n' hlines (by simp),
      ofLines_map_text h]

/-- Whatever a script is read from, it is read again from what is written for it, and two scripts
are written alike only if they say the same. -/
theorem read_write_of_read {source : String} {ops : List Operation} (h : read source = .ok ops) :
    read (write ops) = .ok ops ∧ read ("\n".intercalate (ops.map Operation.text)) = .ok ops ∧
      ∀ source' ops', read source' = .ok ops' → (write ops' = write ops ↔ ops' = ops) := by
  have hwritable := writable_of_read h
  refine ⟨read_write hwritable, read_intercalate hwritable, ?_⟩
  intro source' ops' h'
  constructor
  · intro heq
    have hread' := read_write (writable_of_read h')
    rw [heq, read_write hwritable] at hread'
    exact (Except.ok.inj hread').symm
  · rintro rfl
    rfl

/-- A comment, lines that end in two ways, other blanks than spaces, integers in unusual spelling,
and words that mean something else elsewhere. -/
theorem read_write_of_read_unusual_spelling :
    let source := "# note\r\n\u00a0calc  x\t=  +7 ^ 007\n\ncalc = = -0 calc 1e3\r\nprint #x"
    let ops : List Operation :=
      [.define (Calc.ofTexts "x" "7" "^" "7"), .define (Calc.ofTexts "=" "0" "calc" "1e3"),
        .print ⟨"#x"⟩]
    read source = .ok ops ∧ write ops = "calc x = 7 ^ 7\ncalc = = 0 calc 1e3\nprint #x\n" ∧
      read (write ops) = .ok ops := by
  intro source ops
  have hread : read source = .ok ops := by decide
  exact ⟨hread, rfl, (read_write_of_read hread).1⟩

end Script

end Wavefront
