import Mathlib.Data.List.Forall2
import Wavefront.Proofs.Text.Words
import Wavefront.Script

set_option autoImplicit false

/-!
# What the lines of a script say

A line says an operation by its words alone, and a script says what its lines say, in their order.
-/
namespace Wavefront.Script

inductive Says : List String → Operation → Prop
  | define (target left symbol right : String) :
    Says ["calc", target, "=", left, symbol, right]
      (.define (Calc.ofTexts target left symbol right))
  | print (target : String) : Says ["print", target] (.print ⟨target⟩)

theorem says_of_ofWords {words : List (List Char)} {o : Operation}
    (h : ofWords words = .ok (some o)) : Says (words.map String.ofList) o := by
  unfold ofWords at h
  split at h
  · simp at h
  · split at h
    · simp at h
    · split at h
      case h_1 hcalc harguments =>
        obtain rfl := Option.some.inj (Except.ok.inj h)
        rw [List.map_cons, hcalc, harguments]
        exact .define ..
      case h_3 hprint harguments =>
        obtain rfl := Option.some.inj (Except.ok.inj h)
        rw [List.map_cons, hprint, harguments]
        exact .print _
      all_goals simp at h

theorem ofWords_of_says {words : List String} {o : Operation} (h : Says words o) :
    ofWords (words.map String.toList) = .ok (some o) := by
  cases h with
  | define target left symbol right => simp [ofWords, isComment]
  | print target => simp [ofWords, isComment]

theorem exists_says_of_mem {n : Nat} {lines : List (List Char)} {ops : List Operation}
    (h : ofLines n lines = .ok ops) {o : Operation} (ho : o ∈ ops) :
    ∃ line ∈ lines, Says ((Text.words line).map String.ofList) o := by
  induction lines generalizing n ops with
  | nil =>
    obtain rfl := Except.ok.inj h
    simp at ho
  | cons line rest ih =>
    unfold ofLines at h
    split at h
    case h_1 => simp at h
    case h_2 =>
      obtain ⟨line', hmem, hsays⟩ := ih h ho
      exact ⟨line', List.mem_cons_of_mem line hmem, hsays⟩
    case h_3 o' hwords =>
      cases hrest : ofLines (n + 1) rest with
      | error e => simp [hrest, Except.map] at h
      | ok ops' =>
        simp only [hrest, Except.map, Except.ok.injEq] at h
        subst h
        rcases List.mem_cons.1 ho with rfl | ho
        · exact ⟨line, List.mem_cons_self, says_of_ofWords hwords⟩
        · obtain ⟨line', hmem, hsays⟩ := ih hrest ho
          exact ⟨line', List.mem_cons_of_mem line hmem, hsays⟩

end Wavefront.Script
