import Mathlib.Data.List.TakeWhile

set_option autoImplicit false

/-!
# Texts without escape sequences

An escape sequence sets the style of what comes behind it: an escape character, a bracket, digits
and semicolons, and an `m`. A text is stripped of them in one pass from left to right. Where a text
may end in the middle of a sequence, what is put behind it can change what is stripped, but only if
it begins with a character that a sequence could go on with.
-/
namespace Wavefront.Text

def escape : Char := '\x1b'

def isParameter (c : Char) : Bool := c.isDigit || c = ';'

inductive IsSequence : List Char → Prop
  | intro (parameters : List Char) (h : ∀ c ∈ parameters, isParameter c = true) :
      IsSequence (escape :: '[' :: (parameters ++ ['m']))

def behindSequence? : List Char → Option (List Char)
  | c :: '[' :: rest =>
    if c = escape then
      match rest.dropWhile isParameter with
      | 'm' :: rest => some rest
      | _ => none
    else none
  | _ => none

theorem behindSequence?_eq_some_iff (cs rest : List Char) :
    behindSequence? cs = some rest ↔ ∃ s, IsSequence s ∧ cs = s ++ rest := by
  constructor
  · intro h
    unfold behindSequence? at h
    split at h
    case h_1 c cs =>
      split at h
      case isTrue hc =>
        split at h
        case h_1 rest' hdrop =>
          obtain rfl := Option.some.inj h
          refine ⟨_, .intro (cs.takeWhile isParameter) fun c hc => List.mem_takeWhile_imp hc, ?_⟩
          have hsplit := List.takeWhile_append_dropWhile (p := isParameter) (l := cs)
          rw [hdrop] at hsplit
          simp [hc, hsplit]
        case h_2 => cases h
      case isFalse => cases h
    case h_2 => cases h
  · rintro ⟨_, ⟨parameters, h⟩, rfl⟩
    have hm : isParameter 'm' = false := by decide
    simp [behindSequence?, List.dropWhile_append_of_pos h, hm]

theorem length_lt_of_behindSequence? {cs rest : List Char} (h : behindSequence? cs = some rest) :
    rest.length < cs.length := by
  obtain ⟨s, ⟨parameters, -⟩, rfl⟩ := (behindSequence?_eq_some_iff cs rest).1 h
  simp only [List.cons_append, List.length_cons, List.length_append]
  omega

/-- What is left of a text is not looked at again, also where it has become a sequence. -/
def strip (cs : List Char) : List Char :=
  match _h : behindSequence? cs with
  | some rest => strip rest
  | none =>
    match cs with
    | [] => []
    | c :: cs => c :: strip cs
termination_by cs.length
decreasing_by
  · exact length_lt_of_behindSequence? _h
  · exact Nat.lt_succ_self _

@[simp] theorem strip_nil : strip [] = [] := by
  rw [strip]
  rfl

theorem strip_append_of_isSequence {s : List Char} (h : IsSequence s) (rest : List Char) :
    strip (s ++ rest) = strip rest := by
  have hbehind := (behindSequence?_eq_some_iff (s ++ rest) rest).2 ⟨s, h, rfl⟩
  rw [strip]
  split
  · rename_i rest' hrest
    obtain rfl := Option.some.inj (hbehind.symm.trans hrest)
    rfl
  · rename_i hnone
    simp [hbehind] at hnone

theorem strip_cons_of_forall_not {c : Char} {cs : List Char}
    (h : ∀ s, IsSequence s → ¬ s <+: c :: cs) : strip (c :: cs) = c :: strip cs := by
  rw [strip]
  split
  · rename_i rest hrest
    obtain ⟨s, hs, heq⟩ := (behindSequence?_eq_some_iff _ _).1 hrest
    exact absurd ⟨rest, heq.symm⟩ (h s hs)
  · rfl

theorem strip_cons_of_ne {c : Char} (hc : c ≠ escape) (cs : List Char) :
    strip (c :: cs) = c :: strip cs := by
  refine strip_cons_of_forall_not ?_
  rintro _ ⟨parameters, -⟩ ⟨t, ht⟩
  exact hc (List.cons.inj ht).1.symm

theorem strip_of_not_mem {cs : List Char} (h : escape ∉ cs) : strip cs = cs := by
  induction cs with
  | nil => exact strip_nil
  | cons c cs ih =>
    obtain ⟨hc, hcs⟩ := not_or.1 (mt List.mem_cons.2 h)
    rw [strip_cons_of_ne (Ne.symm hc), ih hcs]

def Continues (c : Char) : Prop := c = '[' ∨ isParameter c = true ∨ c = 'm'

theorem IsSequence.exists_tail {s : List Char} (h : IsSequence s) :
    ∃ tail, s = escape :: tail ∧ ∀ c ∈ tail, Continues c := by
  obtain ⟨parameters, h⟩ := h
  refine ⟨_, rfl, fun c hc => ?_⟩
  rcases List.mem_cons.1 hc with rfl | hc
  · exact .inl rfl
  · rcases List.mem_append.1 hc with hc | hc
    · exact .inr (.inl (h c hc))
    · exact .inr (.inr (List.mem_singleton.1 hc))

/-- No sequence goes from the first text into the second: either there is no escape character that
it could begin with, or the second text begins with something else. -/
def Apart (cs rest : List Char) : Prop := escape ∉ cs ∨ ∀ c ∈ rest.head?, ¬ Continues c

theorem apart_cons {c : Char} (hc : ¬ Continues c) (cs rest : List Char) : Apart cs (c :: rest) :=
  .inr fun _ hd => Option.mem_some_iff.1 hd ▸ hc

theorem Apart.of_append (before : List Char) {cs rest : List Char}
    (h : Apart (before ++ cs) rest) : Apart cs rest :=
  h.imp_left fun hmem hcs => hmem (List.mem_append_right before hcs)

theorem Apart.isPrefix {s : List Char} (hs : IsSequence s) {c : Char} {cs rest : List Char}
    (h : Apart (c :: cs) rest) (hstart : s <+: c :: cs ++ rest) : s <+: c :: cs := by
  obtain ⟨tail, rfl, htail⟩ := hs.exists_tail
  obtain ⟨t, ht⟩ := hstart
  rcases List.append_eq_append_iff.1 ht with ⟨more, hmore, -⟩ | ⟨more, hmore, hrest⟩
  · exact ⟨more, hmore.symm⟩
  · rcases more with _ | ⟨d, more⟩
    · rw [List.append_nil] at hmore
      exact hmore ▸ List.prefix_refl _
    · obtain ⟨rfl, rfl⟩ := List.cons.inj hmore
      rcases h with hescape | hhead
      · exact absurd List.mem_cons_self hescape
      · exact absurd (htail d (by simp)) (hhead d (by simp [hrest]))

/-- A text that another one is put behind is stripped as it would be without it. -/
theorem strip_append {cs rest : List Char} (h : Apart cs rest) :
    strip (cs ++ rest) = strip cs ++ strip rest := by
  induction cs using strip.induct with
  | case1 cs behind hbehind ih =>
    obtain ⟨s, hs, rfl⟩ := (behindSequence?_eq_some_iff cs behind).1 hbehind
    rw [List.append_assoc, strip_append_of_isSequence hs, strip_append_of_isSequence hs,
      ih (h.of_append s)]
  | case2 => simp
  | case3 c cs hbehind ih =>
    have hnone : ∀ s, IsSequence s → ¬ s <+: c :: cs := by
      rintro s hs ⟨t, ht⟩
      simp [(behindSequence?_eq_some_iff _ t).2 ⟨s, hs, ht.symm⟩] at hbehind
    have hnone' : ∀ s, IsSequence s → ¬ s <+: c :: (cs ++ rest) :=
      fun s hs hstart => hnone s hs (h.isPrefix hs hstart)
    rw [List.cons_append, strip_cons_of_forall_not hnone', strip_cons_of_forall_not hnone,
      ih (h.of_append [c]), List.cons_append]

end Wavefront.Text
