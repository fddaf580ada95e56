import Wavefront.Proofs.Script.Lines
import Wavefront.Proofs.Text.Lines

set_option autoImplicit false

/-!
# The grammar of scripts

A line says nothing, says an operation, or is to blame for a fault, and never two of these. So a
script is read exactly when each of its lines says nothing or an operation, and otherwise the first
other line is reported, with its number and its fault.
-/
namespace Wavefront.Script

def Silent (words : List String) : Prop := ∀ w ∈ words.head?, w.toList.head? = some '#'

instance (words : List String) : Decidable (Silent words) :=
  inferInstanceAs (Decidable (∀ w ∈ words.head?, w.toList.head? = some '#'))

def Fits (words : List String) : Prop := Silent words ∨ ∃ o, Says words o

inductive Blames : List String → Fault → Prop
  | calc (arguments : List String) : Blames ("calc" :: arguments) .malformedCalc
  | print (arguments : List String) : Blames ("print" :: arguments) .malformedPrint
  | keyword {word : String} (arguments : List String) (hcalc : word ≠ "calc")
      (hprint : word ≠ "print") : Blames (word :: arguments) (.unknownKeyword word)

/-- The first line that does not fit is to blame, where lines are numbered from `n` on. -/
inductive Faulty (n : Nat) : List (List String) → Error → Prop
  | first (before : List (List String)) (words : List String) (after : List (List String))
      (fault : Fault) (hbefore : ∀ ws ∈ before, Fits ws) (hfits : ¬ Fits words)
      (h : Blames words fault) : Faulty n (before ++ words :: after) ⟨n + before.length, fault⟩

theorem Says.not_silent {words : List String} {o : Operation} (h : Says words o) :
    ¬ Silent words := by
  cases h with
  | define => exact fun hsilent => absurd (hsilent _ rfl) (by decide)
  | print => exact fun hsilent => absurd (hsilent _ rfl) (by decide)

theorem Says.unique {words : List String} {o o' : Operation} (h : Says words o)
    (h' : Says words o') : o = o' := by
  have hwords := ofWords_of_says h
  have hwords' := ofWords_of_says h'
  exact Option.some.inj (Except.ok.inj (hwords.symm.trans hwords'))

theorem Blames.unique {words : List String} {fault fault' : Fault} (h : Blames words fault)
    (h' : Blames words fault') : fault = fault' := by
  generalize hwords : words = words' at h'
  cases h <;> cases h' <;> simp_all

section
variable (words : List (List Char))

theorem ofWords_eq_none_iff : ofWords words = .ok none ↔ Silent (words.map String.ofList) := by
  cases words with
  | nil => simp [ofWords, Silent]
  | cons keyword arguments =>
    have hsilent :
        Silent ((keyword :: arguments).map String.ofList) ↔ isComment keyword = true := by
      simp [Silent, isComment]
    rw [hsilent, ofWords]
    split
    · simp [*]
    · refine iff_of_false ?_ (by assumption)
      split <;> simp

theorem ofWords_eq_some_iff (o : Operation) :
    ofWords words = .ok (some o) ↔ Says (words.map String.ofList) o := by
  constructor
  · exact says_of_ofWords
  · intro h
    simpa [List.map_map, Function.comp_def] using ofWords_of_says h

theorem blames_of_ofWords {fault : Fault} (h : ofWords words = .error fault) :
    Blames (words.map String.ofList) fault := by
  unfold ofWords at h
  split at h
  · cases h
  · split at h
    · cases h
    · split at h
      case h_2 hcalc _ =>
        cases h
        rw [List.map_cons, hcalc]
        exact .calc _
      case h_4 hprint _ =>
        cases h
        rw [List.map_cons, hprint]
        exact .print _
      case h_5 hcalc hprint _ _ =>
        cases h
        exact .keyword _ hcalc hprint
      all_goals cases h

theorem ofWords_eq_error_iff (fault : Fault) :
    ofWords words = .error fault ↔
      ¬ Fits (words.map String.ofList) ∧ Blames (words.map String.ofList) fault := by
  constructor
  · intro h
    refine ⟨?_, blames_of_ofWords words h⟩
    rintro (hsilent | ⟨o, hsays⟩)
    · rw [(ofWords_eq_none_iff words).2 hsilent] at h
      cases h
    · rw [(ofWords_eq_some_iff words o).2 hsays] at h
      cases h
  · rintro ⟨hfits, hblames⟩
    match h : ofWords words with
    | .error fault' => rw [(blames_of_ofWords words h).unique hblames]
    | .ok none => exact absurd (.inl ((ofWords_eq_none_iff words).1 h)) hfits
    | .ok (some o) => exact absurd (.inr ⟨o, (ofWords_eq_some_iff words o).1 h⟩) hfits

end

def lineWords (line : List Char) : List String := (Text.words line).map String.ofList

section
variable {words : List String} (o : Operation) (rest : Except Error (List Operation))

theorem map_cons_eq_ok_iff (ops : List Operation) :
    rest.map (o :: ·) = .ok ops ↔ ∃ ops', rest = .ok ops' ∧ ops = o :: ops' := by
  cases rest <;> simp [Except.map, eq_comm]

theorem map_cons_eq_error_iff (e : Error) : rest.map (o :: ·) = .error e ↔ rest = .error e := by
  cases rest <;> simp [Except.map]

end

theorem ofLines_eq_ok_iff (n : Nat) (lines : List (List Char)) (ops : List Operation) :
    ofLines n lines = .ok ops ↔
      List.Forall₂ Says ((lines.map lineWords).filter fun ws => ¬ Silent ws) ops := by
  induction lines generalizing n ops with
  | nil => simp [ofLines, eq_comm]
  | cons line rest ih =>
    rw [ofLines, List.map_cons]
    match h : ofWords (Text.words line) with
    | .error fault =>
      obtain ⟨hfits, -⟩ := (ofWords_eq_error_iff _ fault).1 h
      have hsilent : ¬ Silent (lineWords line) := fun hs => hfits (.inl hs)
      rw [List.filter_cons_of_pos (by simpa using hsilent), List.forall₂_cons_left_iff]
      refine iff_of_false (by simp) ?_
      rintro ⟨o, _, hsays, -⟩
      exact hfits (.inr ⟨o, hsays⟩)
    | .ok none =>
      have hsilent : Silent (lineWords line) := (ofWords_eq_none_iff _).1 h
      rw [List.filter_cons_of_neg (by simpa using hsilent)]
      exact ih (n + 1) ops
    | .ok (some o) =>
      have hsays : Says (lineWords line) o := (ofWords_eq_some_iff _ o).1 h
      rw [List.filter_cons_of_pos (by simpa using hsays.not_silent), List.forall₂_cons_left_iff]
      simp only [map_cons_eq_ok_iff, ih]
      constructor
      · rintro ⟨ops', hrest, rfl⟩
        exact ⟨o, ops', hsays, hrest, rfl⟩
      · rintro ⟨o', ops', hsays', hrest, rfl⟩
        obtain rfl := hsays.unique hsays'
        exact ⟨ops', hrest, rfl⟩

section
variable {n : Nat} {words : List String} (lines : List (List String)) (e : Error)

theorem faulty_cons_of_fits (hfits : Fits words) :
    Faulty n (words :: lines) e ↔ Faulty (n + 1) lines e := by
  have hcount (k : Nat) : n + 1 + k = n + (k + 1) := by omega
  constructor
  · intro h
    generalize hlines : words :: lines = lines' at h
    obtain ⟨before, words', after, fault, hbefore, hfits', hblames⟩ := h
    cases before with
    | nil =>
      obtain ⟨rfl, -⟩ := List.cons.inj hlines
      exact absurd hfits hfits'
    | cons _ before =>
      obtain ⟨-, rfl⟩ := List.cons.inj hlines
      rw [List.length_cons, ← hcount before.length]
      exact .first before words' after fault (fun ws hws => hbefore ws (.tail _ hws)) hfits' hblames
  · rintro ⟨before, words', after, fault, hbefore, hfits', hblames⟩
    rw [hcount before.length]
    exact .first (words :: before) words' after fault (List.forall_mem_cons.2 ⟨hfits, hbefore⟩)
      hfits' hblames

theorem faulty_cons_of_not_fits (hfits : ¬ Fits words) :
    Faulty n (words :: lines) e ↔ e.line = n ∧ Blames words e.fault := by
  constructor
  · intro h
    generalize hlines : words :: lines = lines' at h
    obtain ⟨before, words', after, fault, hbefore, -, hblames⟩ := h
    cases before with
    | nil =>
      obtain ⟨rfl, -⟩ := List.cons.inj hlines
      exact ⟨rfl, hblames⟩
    | cons _ before =>
      obtain ⟨rfl, -⟩ := List.cons.inj hlines
      exact absurd (hbefore words List.mem_cons_self) hfits
  · obtain ⟨line, fault⟩ := e
    rintro ⟨rfl, hblames⟩
    exact .first [] words lines fault (by simp) hfits hblames

end

theorem ofLines_eq_error_iff (n : Nat) (lines : List (List Char)) (e : Error) :
    ofLines n lines = .error e ↔ Faulty n (lines.map lineWords) e := by
  induction lines generalizing n with
  | nil =>
    refine iff_of_false (by simp [ofLines]) fun h => ?_
    generalize hlines : [].map lineWords = lines' at h
    obtain ⟨before, words, after⟩ := h
    simp at hlines
  | cons line rest ih =>
    rw [ofLines, List.map_cons]
    match h : ofWords (Text.words line) with
    | .error fault =>
      obtain ⟨hfits, hblames⟩ : ¬ Fits (lineWords line) ∧ Blames (lineWords line) fault :=
        (ofWords_eq_error_iff _ fault).1 h
      rw [faulty_cons_of_not_fits _ _ hfits]
      constructor
      · intro herror
        obtain rfl := Except.error.inj herror
        exact ⟨rfl, hblames⟩
      · obtain ⟨number, fault'⟩ := e
        rintro ⟨rfl, hblames'⟩
        rw [hblames.unique hblames']
    | .ok none =>
      have hsilent : Silent (lineWords line) := (ofWords_eq_none_iff _).1 h
      rw [faulty_cons_of_fits _ _ (.inl hsilent)]
      exact ih (n + 1)
    | .ok (some o) =>
      have hsays : Says (lineWords line) o := (ofWords_eq_some_iff _ o).1 h
      rw [faulty_cons_of_fits _ _ (.inr ⟨o, hsays⟩), map_cons_eq_error_iff]
      exact ih (n + 1)

def Written (source : String) (lines : List (List String)) : Prop :=
  ∃ ls, Text.Lined source.toList ls ∧
    List.Forall₂ (fun l ws => Text.Parted l (ws.map String.toList)) ls lines

theorem written_iff {source : String} {ls : List (List Char)} (h : Text.Lined source.toList ls)
    (lines : List (List String)) : Written source lines ↔ lines = ls.map lineWords := by
  have hparted (l : List Char) (ws : List String) :
      Text.Parted l (ws.map String.toList) ↔ lineWords l = ws := by
    rw [Text.parted_iff, lineWords]
    constructor
    · intro heq
      simp [heq, List.map_map, Function.comp_def]
    · rintro rfl
      simp [List.map_map, Function.comp_def]
  constructor
  · rintro ⟨ls', h', hall⟩
    obtain rfl := h.unique h'
    simp only [hparted] at hall
    rwa [← List.forall₂_map_left_iff, List.forall₂_eq_eq_eq, eq_comm] at hall
  · rintro rfl
    refine ⟨ls, h, ?_⟩
    rw [List.forall₂_map_right_iff, List.forall₂_same]
    exact fun l _ => (hparted l _).2 rfl

theorem ofLines_append (n : Nat) (before after : List (List Char)) :
    ofLines n (before ++ after) =
      (ofLines n before).bind fun ops => (ofLines (n + before.length) after).map (ops ++ ·) := by
  induction before generalizing n with
  | nil => cases h : ofLines n after <;> simp [ofLines, Except.bind, Except.map, h]
  | cons line before ih =>
    have hlength : n + (line :: before).length = n + 1 + before.length := by
      simp only [List.length_cons]
      omega
    rw [List.cons_append, ofLines, ofLines, hlength]
    rcases ofWords (Text.words line) with fault | (_ | o)
    · rfl
    · exact ih (n + 1)
    · simp only [ih]
      cases ofLines (n + 1) before with
      | error e => rfl
      | ok ops => cases h : ofLines (n + 1 + before.length) after <;> rfl

theorem ofLines_append_empty (n : Nat) (lines : List (List Char)) :
    ofLines n (lines ++ [[]]) = ofLines n lines := by
  have hempty : ofLines (n + lines.length) [[]] = .ok [] := rfl
  rw [ofLines_append, hempty]
  cases ofLines n lines <;> simp [Except.bind, Except.map]

theorem read_eq_ofLines {source : String} {ls : List (List Char)}
    (h : Text.Lined source.toList ls) : read source = ofLines 1 ls := by
  rcases h.lines_eq with heq | ⟨heq, -⟩
  · rw [read, heq, ofLines_append_empty]
  · rw [read, heq]

/-- A script is read exactly when each of its lines says nothing or an operation, as those
operations in their order. Otherwise the first other line is to blame. -/
theorem read_grammar (source : String) :
    ∃ lines, (∀ lines', Written source lines' ↔ lines' = lines) ∧
      (∀ ops, read source = .ok ops ↔ List.Forall₂ Says (lines.filter fun ws => ¬ Silent ws) ops) ∧
        ∀ e, read source = .error e ↔ Faulty 1 lines e := by
  obtain ⟨ls, h⟩ := Text.exists_lined source.toList
  refine ⟨ls.map lineWords, written_iff h, ?_, ?_⟩
  · intro ops
    rw [read_eq_ofLines h, ofLines_eq_ok_iff]
  · intro e
    rw [read_eq_ofLines h, ofLines_eq_error_iff]

end Wavefront.Script
