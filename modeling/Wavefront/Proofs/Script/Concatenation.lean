import Wavefront.Proofs.Script.Grammar

set_option autoImplicit false

/-!
# Scripts one after the other

A script is read line by line, so two scripts with a line feed between them are read as one and then
the other. What goes wrong in the second is reported under the number its line has in the whole.
Carriage returns in front of line feeds change nothing.
-/
namespace Wavefront

namespace Text

def withReturns (cs : List Char) : List Char :=
  cs.flatMap fun c => if c = '\n' then ['\r', '\n'] else [c]

theorem length_lines (cs : List Char) : (lines cs).length = cs.count '\n' + 1 := by
  obtain ⟨ls, h⟩ := exists_lined cs
  induction h with
  | nil => rfl
  | @last l _ hl =>
    rw [lines, List.splitOn_eq_singleton hl, List.count_eq_zero.2 hl, List.length_singleton]
  | @ended l cs _ hl _ ih =>
    rw [lines_append_newline hl, List.length_cons, ih, List.count_append, List.count_cons_self,
      List.count_eq_zero.2 hl, Nat.zero_add]

theorem withReturns_of_newline_not_mem {l : List Char} (hl : '\n' ∉ l) : withReturns l = l := by
  have hsame : ∀ c ∈ l, (if c = '\n' then ['\r', '\n'] else [c]) = [c] := by
    intro c hc
    refine if_neg ?_
    rintro rfl
    exact hl hc
  rw [withReturns, List.flatMap_congr hsame, List.flatMap_singleton']

theorem map_words_lines_withReturns (cs : List Char) :
    (lines (withReturns cs)).map words = (lines cs).map words := by
  obtain ⟨ls, h⟩ := exists_lined cs
  induction h with
  | nil => rfl
  | last _ hl => rw [withReturns_of_newline_not_mem hl]
  | @ended l cs _ hl _ ih =>
    have hreturns : withReturns (l ++ '\n' :: cs) = (l ++ ['\r']) ++ '\n' :: withReturns cs := by
      have hl := withReturns_of_newline_not_mem hl
      simp only [withReturns, List.flatMap_append, List.flatMap_cons, if_true] at hl ⊢
      rw [hl, List.append_assoc]
      rfl
    have hwords : words (l ++ ['\r']) = words l := by
      rw [words_append_blank (by decide)]
      exact List.append_nil _
    rw [hreturns, lines_append_newline (by simp [hl]), lines_append_newline hl, List.map_cons,
      List.map_cons, hwords, ih]

end Text

namespace Script

def Error.later (k : Nat) (e : Error) : Error := { e with line := e.line + k }

theorem ofLines_add (n k : Nat) (lines : List (List Char)) :
    ofLines (n + k) lines = (ofLines n lines).mapError (Error.later k) := by
  induction lines generalizing n with
  | nil => rfl
  | cons line rest ih =>
    have hnext : n + k + 1 = n + 1 + k := by omega
    rw [ofLines, ofLines, hnext]
    rcases ofWords (Text.words line) with fault | (_ | o)
    · rfl
    · exact ih (n + 1)
    · simp only [ih]
      cases ofLines (n + 1) rest <;> rfl

theorem ofLines_congr {lines lines' : List (List Char)}
    (h : lines.map Text.words = lines'.map Text.words) (n : Nat) :
    ofLines n lines = ofLines n lines' := by
  induction lines generalizing n lines' with
  | nil => rw [List.map_eq_nil_iff.1 h.symm]
  | cons line rest ih =>
    obtain ⟨line', rest', rfl, hwords, hrest⟩ := List.map_eq_cons_iff.1 h.symm
    rw [ofLines, ofLines, hwords]
    simp only [ih hrest.symm]

/-- Two sources with a line feed between them are read as the one and then the other, and a fault of
the second is found as many lines later as the first has. With a carriage return in front of every
line feed a source is read as before, faults and their lines included. -/
theorem read_append_newline :
    (∀ a b : String, read (a ++ "\n" ++ b) =
      match read a, read b with
      | .error e, _ => .error e
      | .ok _, .error e => .error (e.later (a.toList.count '\n' + 1))
      | .ok ops, .ok ops' => .ok (ops ++ ops')) ∧
      ∀ source : String, read (String.ofList (Text.withReturns source.toList)) = read source := by
  constructor
  · intro a b
    have hlines : Text.lines (a ++ "\n" ++ b).toList =
        Text.lines a.toList ++ Text.lines b.toList := by
      have hchars : (a ++ "\n" ++ b).toList = a.toList ++ '\n' :: b.toList := by simp
      rw [hchars]
      exact List.splitOn_append_cons_self _ _
    have hrest : ofLines (1 + (Text.lines a.toList).length) (Text.lines b.toList) =
        (read b).mapError (Error.later (a.toList.count '\n' + 1)) := by
      rw [Text.length_lines, ofLines_add, read]
    rw [read, hlines, ofLines_append, hrest, ← read]
    cases read a with
    | error e => rfl
    | ok ops => cases read b <;> rfl
  · intro source
    rw [read, read, String.toList_ofList]
    exact ofLines_congr (Text.map_words_lines_withReturns source.toList) 1

/-- The carriage return at the end of the first source becomes part of its last line's end. -/
example : read ("print x\n\r" ++ "\n" ++ "# y\nprit z") = .error ⟨4, .unknownKeyword "prit"⟩ := by
  decide

end Script

end Wavefront
