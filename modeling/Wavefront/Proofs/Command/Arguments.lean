import Wavefront.Command.Options
import Wavefront.Proofs.Text.Integer

set_option autoImplicit false

/-!
# The grammar of arguments

An argument of a run is an option or a path, and never both, since options begin with a minus sign
and paths do not. What is wrong with an argument that is neither goes by the option it begins with.
-/
namespace Wavefront.Command

def IsPath (text : String) : Prop := text.toList.head? ≠ some '-'

instance (text : String) : Decidable (IsPath text) :=
  inferInstanceAs (Decidable (text.toList.head? ≠ some '-'))

namespace Argument

def starts : List String := ["--threads=", "--format=", "--dot=", "--png="]

inductive Spells : String → Argument → Prop
  | sequential : Spells "--no-parallel" .sequential
  | threads {text : String} {n : Nat} (h : Text.SpellsCount text.toList n) (hn : n < 2 ^ 64) :
      Spells ("--threads=" ++ text) (.threads n)
  | text : Spells "--format=text" (.format .text)
  | json : Spells "--format=json" (.format .json)
  | dot (path : String) : Spells ("--dot=" ++ path) (.dot path)
  | png (path : String) : Spells ("--png=" ++ path) (.png path)
  | request {text : String} (h : IsPath text) : Spells text (.request text)

inductive Blames : String → UsageError → Prop
  | threads {text : String} (h : ∀ n < 2 ^ 64, ¬ Text.SpellsCount text.toList n) :
      Blames ("--threads=" ++ text) (.invalidThreads text)
  | format {text : String} (htext : text ≠ "text") (hjson : text ≠ "json") :
      Blames ("--format=" ++ text) (.unknownFormat text)
  | option {text : String} (hpath : ¬ IsPath text) (hsequential : text ≠ "--no-parallel")
      (hstarts : ∀ start ∈ starts, ∀ rest, text ≠ start ++ rest) : Blames text (.unknownOption text)

end Argument

section
variable {start text : String}

theorem after?_eq_none (h : ∀ rest, text ≠ start ++ rest) : after? start text = none := by
  refine if_neg fun hbegins => ?_
  obtain ⟨rest, hrest⟩ := List.isPrefixOf_iff_prefix.1 hbegins
  refine h (String.ofList rest) (String.toList_inj.1 ?_)
  rw [String.toList_append, String.toList_ofList, hrest]

theorem IsPath.after?_eq_none (htext : IsPath text) :
    ∀ start ∈ Argument.starts, after? start text = none := by
  intro start hstart
  have hminus : ∀ start ∈ Argument.starts, start.toList.head? = some '-' := by decide
  obtain ⟨cs, hcs⟩ := List.head?_eq_some_iff.1 (hminus start hstart)
  refine Command.after?_eq_none fun rest hrest => htext ?_
  simp [hrest, hcs]

end

theorem threadCount?_eq_some_iff (text : String) (n : Nat) :
    threadCount? text = some n ↔ Text.SpellsCount text.toList n ∧ n < 2 ^ 64 := by
  rw [threadCount?, Option.filter_eq_some_iff, Text.count?_eq_some_iff, decide_eq_true_iff]
  rfl

namespace Argument

section
variable {text : String}

theorem ofText_of_isPath (htext : IsPath text) : ofText text = .ok (.request text) := by
  have hsequential : text ≠ "--no-parallel" := by
    rintro rfl
    exact htext rfl
  have hnone := htext.after?_eq_none
  have hminus : text.toList.head? ≠ some '-' := htext
  simp only [starts, List.forall_mem_cons] at hnone
  simp [ofText, hsequential, hnone, hminus]

theorem ofText_of_spells {a : Argument} (h : Spells text a) : ofText text = .ok a := by
  cases h with
  | sequential | text | json => rfl
  | threads h hn =>
    have hcount := (threadCount?_eq_some_iff _ _).2 ⟨h, hn⟩
    simp [ofText, after?, ← String.toList_inj, hcount]
  | dot path | png path => simp [ofText, after?, ← String.toList_inj]
  | request h => exact ofText_of_isPath h

theorem ofText_of_blames {e : UsageError} (h : Blames text e) : ofText text = .error e := by
  cases h with
  | threads h =>
    have hcount := Option.eq_none_iff_forall_ne_some.2 fun n hn =>
      have ⟨hspells, hlt⟩ := (threadCount?_eq_some_iff _ n).1 hn
      h n hlt hspells
    simp [ofText, after?, ← String.toList_inj, hcount]
  | @format text htext hjson =>
    have hformat : Format.ofText? text = none := by
      unfold Format.ofText?
      split <;> first | contradiction | rfl
    simp [ofText, after?, ← String.toList_inj, hformat]
  | option hpath hsequential hstarts =>
    have hnone : ∀ start ∈ starts, after? start text = none :=
      fun start hstart => after?_eq_none (hstarts start hstart)
    have hminus : text.toList.head? = some '-' := not_not.1 hpath
    simp only [starts, List.forall_mem_cons] at hnone
    simp [ofText, hsequential, hnone, hminus]

/-- Nothing is left over: an argument is right or something is wrong with it. -/
theorem exists_spells_or_blames (text : String) : (∃ a, Spells text a) ∨ ∃ e, Blames text e := by
  by_cases hpath : IsPath text
  · exact .inl ⟨_, .request hpath⟩
  by_cases hsequential : text = "--no-parallel"
  · subst hsequential
    exact .inl ⟨_, .sequential⟩
  by_cases hstarts : ∃ start ∈ starts, ∃ rest, text = start ++ rest
  · obtain ⟨start, hstart, rest, rfl⟩ := hstarts
    simp only [starts, List.mem_cons, List.not_mem_nil, or_false] at hstart
    obtain rfl | rfl | rfl | rfl := hstart
    · by_cases h : ∃ n < 2 ^ 64, Text.SpellsCount rest.toList n
      · obtain ⟨n, hn, hspells⟩ := h
        exact .inl ⟨_, .threads hspells hn⟩
      · exact .inr ⟨_, .threads fun n hn hspells => h ⟨n, hn, hspells⟩⟩
    · by_cases htext : rest = "text"
      · subst htext
        exact .inl ⟨_, .text⟩
      by_cases hjson : rest = "json"
      · subst hjson
        exact .inl ⟨_, .json⟩
      · exact .inr ⟨_, .format htext hjson⟩
    · exact .inl ⟨_, .dot rest⟩
    · exact .inl ⟨_, .png rest⟩
  · refine .inr ⟨_, .option hpath hsequential fun start hstart rest heq => ?_⟩
    exact hstarts ⟨start, hstart, rest, heq⟩

theorem ofText_eq_ok_iff (a : Argument) : ofText text = .ok a ↔ Spells text a := by
  refine ⟨fun h => ?_, ofText_of_spells⟩
  obtain ⟨a', ha'⟩ | ⟨e, he⟩ := exists_spells_or_blames text
  · rw [ofText_of_spells ha'] at h
    exact Except.ok.inj h ▸ ha'
  · rw [ofText_of_blames he] at h
    cases h

theorem ofText_eq_error_iff (e : UsageError) : ofText text = .error e ↔ Blames text e := by
  refine ⟨fun h => ?_, ofText_of_blames⟩
  obtain ⟨a, ha⟩ | ⟨e', he'⟩ := exists_spells_or_blames text
  · rw [ofText_of_spells ha] at h
    cases h
  · rw [ofText_of_blames he'] at h
    exact Except.error.inj h ▸ he'

theorem Spells.isPath_of_request {path : String} (h : Spells text (.request path)) :
    path = text ∧ IsPath text := by
  cases h with
  | request h => exact ⟨rfl, h⟩

theorem Spells.unique {a a' : Argument} (h : Spells text a) (h' : Spells text a') : a = a' :=
  Except.ok.inj ((ofText_of_spells h).symm.trans (ofText_of_spells h'))

theorem Blames.unique {e e' : UsageError} (h : Blames text e) (h' : Blames text e') : e = e' :=
  Except.error.inj ((ofText_of_blames h).symm.trans (ofText_of_blames h'))

theorem Blames.not_spells {e : UsageError} (h : Blames text e) (a : Argument) : ¬ Spells text a :=
  fun ha => by simpa [ofText_of_spells ha] using ofText_of_blames h

end

end Argument

end Wavefront.Command
