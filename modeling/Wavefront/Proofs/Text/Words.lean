import Wavefront.Text.Blank
import Wavefront.Text.Integer

set_option autoImplicit false

/-!
# Words that are found again

Words are not empty and have no blank in them, and a text that is put together from words with a
space between them falls apart into the same words. So does a text of lines into its lines.
-/
namespace Wavefront.Text

structure IsWord (w : List Char) : Prop where
  ne_nil : w ≠ []
  not_blank : ∀ c ∈ w, isBlank c = false

theorem words_append_blank {b : Char} (hb : isBlank b = true) (cs rest : List Char) :
    words (cs ++ b :: rest) = words cs ++ words rest := by
  unfold words
  rw [List.splitOnP_append_cons cs rest hb, List.filter_append]

theorem IsWord.words_eq {w : List Char} (hw : IsWord w) : words w = [w] := by
  unfold words
  rw [List.splitOnP_eq_singleton hw.not_blank]
  simp [hw.ne_nil]

theorem words_intercalate {ws : List (List Char)} (h : ∀ w ∈ ws, IsWord w) :
    words ([' '].intercalate ws) = ws := by
  induction ws with
  | nil => rfl
  | cons w ws ih =>
    obtain ⟨hw, hws⟩ := List.forall_mem_cons.1 h
    cases ws with
    | nil => rw [List.intercalate_singleton, hw.words_eq]
    | cons w' ws =>
      rw [List.intercalate_cons_cons, List.append_assoc, List.singleton_append,
        words_append_blank (by decide), hw.words_eq, ih hws]
      rfl

theorem not_of_mem_splitOnP {p : Char → Bool} {cs w : List Char} (h : w ∈ cs.splitOnP p) :
    ∀ c ∈ w, p c = false := by
  induction cs generalizing w with
  | nil =>
    obtain rfl := List.mem_singleton.1 (List.splitOnP_nil ▸ h)
    simp
  | cons x cs ih =>
    rw [List.splitOnP_cons_eq_if_modifyHead] at h
    obtain ⟨piece, pieces, hsplit⟩ := List.exists_cons_of_ne_nil (List.splitOnP_ne_nil p cs)
    rw [hsplit] at h ih
    split at h
    · rcases List.mem_cons.1 h with rfl | h
      · simp
      · exact ih h
    · rename_i hx
      rcases List.mem_cons.1 h with rfl | h
      · exact List.forall_mem_cons.2 ⟨Bool.not_eq_true _ ▸ hx, ih List.mem_cons_self⟩
      · exact ih (List.mem_cons_of_mem piece h)

theorem isWord_of_mem_words {w cs : List Char} (h : w ∈ words cs) : IsWord w := by
  obtain ⟨hw, hne⟩ := List.mem_filter.1 h
  exact ⟨by simpa using hne, not_of_mem_splitOnP hw⟩

theorem IsWord.newline_not_mem {w : List Char} (hw : IsWord w) : '\n' ∉ w :=
  fun h => absurd (hw.not_blank '\n' h) (by decide)

theorem newline_not_mem_intercalate {ws : List (List Char)} (h : ∀ w ∈ ws, IsWord w) :
    '\n' ∉ [' '].intercalate ws := by
  induction ws with
  | nil => simp
  | cons w ws ih =>
    obtain ⟨hw, hws⟩ := List.forall_mem_cons.1 h
    cases ws with
    | nil =>
      rw [List.intercalate_singleton]
      exact hw.newline_not_mem
    | cons w' ws =>
      rw [List.intercalate_cons_cons]
      simp [hw.newline_not_mem, ih hws]

theorem not_blank_of_isDigit {c : Char} (h : c.isDigit = true) : isBlank c = false := by
  simp only [Char.isDigit, Bool.and_eq_true, decide_eq_true_eq] at h
  have hlow : 48 ≤ c.toNat := h.1
  have hhigh : c.toNat ≤ 57 := h.2
  simp [isBlank, blankRanges]
  omega

theorem isWord_repr (n : Int) : IsWord n.repr.toList := by
  have hdigits (k : Nat) : ∀ c ∈ Nat.toDigits 10 k, isBlank c = false := fun c hc =>
    not_blank_of_isDigit (isDigit_of_mem_toDigits hc)
  cases n with
  | ofNat k =>
    rw [toList_repr_ofNat]
    exact ⟨Nat.toDigits_ne_nil, hdigits k⟩
  | negSucc k =>
    rw [toList_repr_negSucc]
    exact ⟨by simp, List.forall_mem_cons.2 ⟨by decide, hdigits (k + 1)⟩⟩

end Wavefront.Text
