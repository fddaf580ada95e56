import Wavefront.Proofs.Text.Words

set_option autoImplicit false

/-!
# Lines and words as they stand in a text

`Lined` and `Parted` say what the lines and the words of a text are without saying how they are
found. Every text has its lines and its words, and only those.
-/
namespace Wavefront.Text

/-- The words of a text, one after the other: each goes on to a blank or to the end. -/
inductive Parted : List Char → List (List Char) → Prop
  | nil : Parted [] []
  | blank {b : Char} {cs : List Char} {ws : List (List Char)} (hb : isBlank b = true)
      (h : Parted cs ws) : Parted (b :: cs) ws
  | last {w : List Char} (hw : IsWord w) : Parted w [w]
  | word {w cs : List Char} {b : Char} {ws : List (List Char)} (hw : IsWord w)
      (hb : isBlank b = true) (h : Parted cs ws) : Parted (w ++ b :: cs) (w :: ws)

theorem Parted.words_eq {cs : List Char} {ws : List (List Char)} (h : Parted cs ws) :
    words cs = ws := by
  induction h with
  | nil => rfl
  | @blank b cs ws hb _ ih =>
    have hnone : words [] = [] := rfl
    rw [← List.nil_append (b :: cs), words_append_blank hb, hnone, List.nil_append, ih]
  | last hw => exact hw.words_eq
  | word hw hb _ ih => rw [words_append_blank hb, hw.words_eq, ih, List.singleton_append]

theorem IsWord.cons {c : Char} (hc : isBlank c = false) {w : List Char}
    (hw : ∀ c ∈ w, isBlank c = false) : IsWord (c :: w) :=
  ⟨List.cons_ne_nil c w, List.forall_mem_cons.2 ⟨hc, hw⟩⟩

theorem exists_parted (cs : List Char) : ∃ ws, Parted cs ws := by
  induction cs with
  | nil => exact ⟨[], .nil⟩
  | cons c cs ih =>
    obtain ⟨ws, h⟩ := ih
    by_cases hc : isBlank c = true
    · exact ⟨ws, .blank hc h⟩
    · -- the character begins a word, or goes in front of one that begins after it
      have hc : isBlank c = false := Bool.eq_false_iff.2 hc
      cases h with
      | nil => exact ⟨_, .last (.cons hc (by simp))⟩
      | blank hb h => exact ⟨_, .word (w := [c]) (.cons hc (by simp)) hb h⟩
      | last hw => exact ⟨_, .last (.cons hc hw.not_blank)⟩
      | word hw hb h => exact ⟨_, .word (.cons hc hw.not_blank) hb h⟩

theorem parted_iff (cs : List Char) (ws : List (List Char)) : Parted cs ws ↔ words cs = ws := by
  constructor
  · exact Parted.words_eq
  · rintro rfl
    obtain ⟨ws, h⟩ := exists_parted cs
    rwa [h.words_eq]

/-- The lines of a text, one after the other: each goes on to a line feed or to the end, and nothing
at all behind the last line feed is no line. -/
inductive Lined : List Char → List (List Char) → Prop
  | nil : Lined [] []
  | last {l : List Char} (hne : l ≠ []) (hl : '\n' ∉ l) : Lined l [l]
  | ended {l cs : List Char} {ls : List (List Char)} (hl : '\n' ∉ l) (h : Lined cs ls) :
      Lined (l ++ '\n' :: cs) (l :: ls)

theorem lines_append_newline {l : List Char} (hl : '\n' ∉ l) (cs : List Char) :
    lines (l ++ '\n' :: cs) = l :: lines cs :=
  List.splitOn_append_cons_self_of_not_mem hl cs

/-- A split finds the lines, and one more piece when nothing stands behind the last line feed. -/
theorem Lined.lines_eq {cs : List Char} {ls : List (List Char)} (h : Lined cs ls) :
    lines cs = ls ++ [[]] ∨ lines cs = ls ∧ ls.getLast? ≠ some [] := by
  induction h with
  | nil => exact .inl rfl
  | @last l hne hl => exact .inr ⟨List.splitOn_eq_singleton hl, by simpa using hne⟩
  | @ended l cs ls hl _ ih =>
    rw [lines_append_newline hl]
    rcases ih with heq | ⟨heq, hlast⟩
    · exact .inl (by rw [heq, List.cons_append])
    · obtain ⟨l', ls, rfl⟩ : ∃ l' ls', ls = l' :: ls' :=
        List.exists_cons_of_ne_nil (heq ▸ List.splitOn_ne_nil '\n' cs)
      exact .inr ⟨by rw [heq], by simpa using hlast⟩

theorem Lined.unique {cs : List Char} {ls ls' : List (List Char)} (h : Lined cs ls)
    (h' : Lined cs ls') : ls = ls' := by
  rcases h.lines_eq with heq | ⟨heq, hlast⟩ <;> rcases h'.lines_eq with heq' | ⟨heq', hlast'⟩
  · exact List.append_cancel_right (heq.symm.trans heq')
  · exact absurd (by simp [← heq', heq]) hlast'
  · exact absurd (by simp [← heq, heq']) hlast
  · exact heq.symm.trans heq'

theorem exists_lined (cs : List Char) : ∃ ls, Lined cs ls := by
  induction cs with
  | nil => exact ⟨[], .nil⟩
  | cons c cs ih =>
    obtain ⟨ls, h⟩ := ih
    by_cases hc : c = '\n'
    · exact ⟨[] :: ls, hc ▸ .ended List.not_mem_nil h⟩
    · cases h with
      | nil => exact ⟨_, .last (List.cons_ne_nil c []) (by simpa using Ne.symm hc)⟩
      | last _ hl => exact ⟨_, .last (List.cons_ne_nil c _) (by simp [Ne.symm hc, hl])⟩
      | ended hl h => exact ⟨_, .ended (l := c :: _) (by simp [Ne.symm hc, hl]) h⟩

end Wavefront.Text
