import Mathlib.Data.List.Forall2
import Mathlib.Data.List.Induction
import Mathlib.Order.Bounds.Basic
import Wavefront.Proofs.Command.Arguments

set_option autoImplicit false

/-!
# Reading the arguments of a run

While arguments are read, what has been read is one path at most and, for every option, the value it
was given last. So it does not matter where an option stands, only which of its own kind comes last.
An argument that does not fit ends the reading, and all before it fit.
-/
namespace Wavefront.Command

namespace Argument

def threads? : Argument → Option Nat
  | threads n => some n
  | _ => none

def format? : Argument → Option Format
  | format f => some f
  | _ => none

def dot? : Argument → Option String
  | dot path => some path
  | _ => none

def png? : Argument → Option String
  | png path => some path
  | _ => none

def request? : Argument → Option String
  | request path => some path
  | _ => none

end Argument

open Argument

/-- The argument with number `i` is neither an option nor a path, or a path behind another one. -/
def Offends (texts : List String) (i : Nat) : Prop :=
  ∃ text, texts[i]? = some text ∧
    ((∀ a, ¬ Spells text a) ∨ IsPath text ∧ ∃ t ∈ texts.take i, IsPath t)

inductive UsageError.Reports (text : String) : UsageError → Prop
  | blames {e : UsageError} (h : Blames text e) : Reports text e
  | second (h : IsPath text) : Reports text (.unexpectedArgument text)

/-- What is reported of arguments that do not fit: the leftmost that offends, or else that there is
no path. -/
inductive UsageError.Leftmost (texts : List String) : UsageError → Prop
  | offends {i : Nat} {text : String} {e : UsageError} (hleast : IsLeast {i | Offends texts i} i)
      (htext : texts[i]? = some text) (h : e.Reports text) : Leftmost texts e
  | missing (hoffends : ∀ i, ¬ Offends texts i) (hpath : ∀ t ∈ texts, ¬ IsPath t) :
      Leftmost texts .missingRequest

namespace Options

def values (start : String) (texts : List String) : List String := texts.filterMap (after? start)

/-- The same arguments in another order, in which the values of each option have kept theirs. -/
structure Reordered (texts texts' : List String) : Prop where
  perm : texts.Perm texts'
  values_eq : ∀ start ∈ starts, values start texts = values start texts'

def lastOf (as : List Argument) : Options where
  settings :=
    { parallel := .sequential ∉ as
      threads := (as.filterMap threads?).getLast?.getD 0 }
  format := (as.filterMap format?).getLast?.getD .text
  dot? := (as.filterMap Argument.dot?).getLast?
  png? := (as.filterMap Argument.png?).getLast?

theorem lastOf_append_singleton (as : List Argument) (a : Argument) :
    lastOf (as ++ [a]) = (lastOf as).set a := by
  cases a <;>
    simp [lastOf, set, List.filterMap_append, threads?, format?, Argument.dot?, Argument.png?]

def Gathers (texts : List String) (request? : Option String) (o : Options) : Prop :=
  ∃ as, List.Forall₂ Spells texts as ∧ as.filterMap Argument.request? = request?.toList ∧
    o = lastOf as

theorem gathers_nil : Gathers [] none {} := ⟨[], .nil, rfl, rfl⟩

section
variable {texts : List String} {text : String} {request? request?' : Option String} {o : Options}

theorem Gathers.snoc (h : Gathers texts request? o) {a : Argument} (ha : Spells text a)
    (hrequest' : request?.toList ++ a.request?.toList = request?'.toList) :
    Gathers (texts ++ [text]) request?' (o.set a) := by
  obtain ⟨as, hall, hrequest, rfl⟩ := h
  refine ⟨as ++ [a], List.rel_append hall (.cons ha .nil), ?_, (lastOf_append_singleton as a).symm⟩
  rw [List.filterMap_append, hrequest, ← hrequest']
  cases h : a.request? <;> simp [h]

end

section
variable {texts : List String} {as : List Argument}

theorem filterMap_eq_of_forall₂ (hall : List.Forall₂ Spells texts as) {β : Type}
    {f : String → Option β} {g : Argument → Option β} (h : ∀ t a, Spells t a → f t = g a) :
    as.filterMap g = texts.filterMap f := by
  induction hall with
  | nil => rfl
  | cons ha _ ih => simp only [List.filterMap_cons, h _ _ ha, ih]

theorem filterMap_request? (hall : List.Forall₂ Spells texts as) :
    as.filterMap Argument.request? = texts.filter (IsPath ·) := by
  rw [← List.filterMap_eq_filter]
  refine filterMap_eq_of_forall₂ hall fun t a ha => ?_
  cases ha with
  | request h => simp [Option.guard, h, Argument.request?]
  | _ => simp [Option.guard, IsPath, Argument.request?]

theorem values_of_spells {text : String} {a : Argument} (h : Spells text a) :
    (after? "--threads=" text).bind threadCount? = a.threads? ∧
      (after? "--format=" text).bind Format.ofText? = a.format? ∧
        after? "--dot=" text = a.dot? ∧ after? "--png=" text = a.png? := by
  cases h with
  | request hpath =>
    have hnone := hpath.after?_eq_none
    simp only [starts, List.forall_mem_cons] at hnone
    simp [hnone, threads?, format?, Argument.dot?, Argument.png?]
  | threads h hn =>
    simp [after?, (threadCount?_eq_some_iff _ _).2 ⟨h, hn⟩, threads?, format?, Argument.dot?,
      Argument.png?]
  | _ => simp [after?, Format.ofText?, threads?, format?, Argument.dot?, Argument.png?]

theorem mem_sequential_iff (hall : List.Forall₂ Spells texts as) :
    .sequential ∈ as ↔ "--no-parallel" ∈ texts := by
  have hone {text : String} {a : Argument} (h : Spells text a) :
      .sequential = a ↔ "--no-parallel" = text := by
    cases h with
    | request hpath =>
      refine iff_of_false (by simp) ?_
      rintro rfl
      exact hpath rfl
    | _ => simp [← String.toList_inj]
  induction hall with
  | nil => simp
  | cons ha _ ih =>
    simp only [List.mem_cons]
    exact or_congr (hone ha) ih

theorem lastOf_eq (hall : List.Forall₂ Spells texts as) :
    lastOf as =
      { settings :=
          { parallel := "--no-parallel" ∉ texts
            threads := ((values "--threads=" texts).filterMap threadCount?).getLast?.getD 0 }
        format := ((values "--format=" texts).filterMap Format.ofText?).getLast?.getD .text
        dot? := (values "--dot=" texts).getLast?
        png? := (values "--png=" texts).getLast? } := by
  simp only [lastOf, values, List.filterMap_filterMap, mem_sequential_iff hall,
    filterMap_eq_of_forall₂ hall fun _ _ h => (values_of_spells h).1,
    filterMap_eq_of_forall₂ hall fun _ _ h => (values_of_spells h).2.1,
    filterMap_eq_of_forall₂ hall fun _ _ h => (values_of_spells h).2.2.1,
    filterMap_eq_of_forall₂ hall fun _ _ h => (values_of_spells h).2.2.2]

end

section
variable {texts : List String} {request? : Option String} {o : Options}

theorem Gathers.filter_isPath (h : Gathers texts request? o) :
    texts.filter (IsPath ·) = request?.toList := by
  obtain ⟨as, hall, hrequest, -⟩ := h
  rw [← filterMap_request? hall, hrequest]

theorem Gathers.exists_spells (h : Gathers texts request? o) : ∀ t ∈ texts, ∃ a, Spells t a := by
  obtain ⟨as, hall, -⟩ := h
  induction hall with
  | nil => simp
  | cons ha _ ih => exact List.forall_mem_cons.2 ⟨⟨_, ha⟩, ih⟩

theorem exists_forall₂_spells (h : ∀ t ∈ texts, ∃ a, Spells t a) :
    ∃ as, List.Forall₂ Spells texts as := by
  induction texts with
  | nil => exact ⟨[], .nil⟩
  | cons t texts ih =>
    obtain ⟨⟨a, ha⟩, hrest⟩ := List.forall_mem_cons.1 h
    obtain ⟨as, hall⟩ := ih hrest
    exact ⟨a :: as, .cons ha hall⟩

theorem Gathers.not_offends (h : Gathers texts request? o) (rest : List String) {i : Nat}
    (hi : i < texts.length) : ¬ Offends (texts ++ rest) i := by
  rintro ⟨text, htext, hoffends⟩
  rw [List.getElem?_append_left hi] at htext
  rw [List.take_append_of_le_length (by omega)] at hoffends
  rcases hoffends with hspells | ⟨hpath, t, ht, hpath'⟩
  · obtain ⟨a, ha⟩ := h.exists_spells text (List.mem_of_getElem? htext)
    exact hspells a ha
  -- A path before this one would be the second that has been gathered.
  · have hbefore : t ∈ (texts.take i).filter (IsPath ·) := List.mem_filter.2 ⟨ht, by simpa⟩
    have hbehind : text ∈ (texts.drop i).filter (IsPath ·) := by
      refine List.mem_filter.2 ⟨List.mem_of_mem_head? ?_, by simpa⟩
      rw [List.head?_drop, htext]
      rfl
    have hcount := congrArg List.length h.filter_isPath
    rw [← List.take_append_drop i texts, List.filter_append, List.length_append] at hcount
    have hone : request?.toList.length ≤ 1 := by cases request? <;> simp
    have hpos := List.length_pos_of_mem hbefore
    have hpos' := List.length_pos_of_mem hbehind
    omega

theorem Gathers.isLeast (h : Gathers texts request? o) {rest : List String}
    (hoffends : Offends (texts ++ rest) texts.length) :
    IsLeast {i | Offends (texts ++ rest) i} texts.length :=
  ⟨hoffends, fun _ hi => Nat.le_of_not_lt fun hlt => h.not_offends rest hlt hi⟩

theorem Gathers.forall_not_offends (h : Gathers texts request? o) (i : Nat) :
    ¬ Offends texts i := by
  by_cases hi : i < texts.length
  · simpa using h.not_offends [] hi
  · rintro ⟨text, htext, -⟩
    rw [List.getElem?_eq_none (Nat.le_of_not_lt hi)] at htext
    cases htext

def Ends (texts : List String) : Except UsageError (String × Options) → Prop
  | .ok (path, o) => Gathers texts (some path) o
  | .error e => e.Leftmost texts

theorem Gathers.ends_readFrom (h : Gathers texts request? o) (rest : List String) :
    Ends (texts ++ rest) (readFrom request? o rest) := by
  induction rest generalizing texts request? o with
  | nil =>
    rw [List.append_nil]
    cases request? with
    | none => exact .missing h.forall_not_offends (by simpa using h.filter_isPath)
    | some path => exact h
  | cons text rest ih =>
    -- The argument offends, or else it is gathered and the reading goes on behind it.
    have happend : texts ++ text :: rest = (texts ++ [text]) ++ rest := by simp
    have htext : (texts ++ text :: rest)[texts.length]? = some text := by simp
    cases ha : ofText text with
    | error e =>
      have hblames := (ofText_eq_error_iff e).1 ha
      have hleast := h.isLeast ⟨text, htext, .inl hblames.not_spells⟩
      simp only [readFrom, ha]
      exact .offends hleast htext (.blames hblames)
    | ok a =>
      have hspells := (ofText_eq_ok_iff a).1 ha
      rw [happend]
      cases a with
      | request path =>
        cases request? with
        | none =>
          simp only [readFrom, ha]
          exact ih (h.snoc hspells rfl)
        | some other =>
          obtain ⟨rfl, hpath⟩ := hspells.isPath_of_request
          have hother : other ∈ texts.filter (IsPath ·) := by simp [h.filter_isPath]
          obtain ⟨hmem, hpath'⟩ := List.mem_filter.1 hother
          have hoffends : Offends (texts ++ path :: rest) texts.length :=
            ⟨path, htext, .inr ⟨hpath, other, by simpa using hmem, of_decide_eq_true hpath'⟩⟩
          rw [← happend]
          simp only [readFrom, ha]
          exact .offends (h.isLeast hoffends) htext (.second hpath)
      | _ =>
        simp only [readFrom, ha]
        exact ih (h.snoc hspells (List.append_nil _))

end

theorem Gathers.unique {texts : List String} {request? request?' : Option String} {o o' : Options}
    (h : Gathers texts request? o) (h' : Gathers texts request?' o') :
    request? = request?' ∧ o = o' := by
  obtain ⟨as, hall, hrequest, rfl⟩ := h
  obtain ⟨as', hall', hrequest', rfl⟩ := h'
  have hunique : Relator.RightUnique Spells := fun _ _ _ ha ha' => ha.unique ha'
  obtain rfl : as = as' := List.right_unique_forall₂' hunique hall hall'
  have hsame : request?.toList = request?'.toList := hrequest.symm.trans hrequest'
  refine ⟨?_, rfl⟩
  rw [← Option.head?_toList (o := request?), hsame, Option.head?_toList]

theorem Gathers.not_leftmost {texts : List String} {path : String} {o : Options}
    (h : Gathers texts (some path) o) (e : UsageError) : ¬ e.Leftmost texts := by
  rintro (⟨hleast, -, -⟩ | ⟨-, hpath⟩)
  · exact h.forall_not_offends _ hleast.1
  · have hmem : path ∈ texts.filter (IsPath ·) := by simp [h.filter_isPath]
    obtain ⟨hmem, hpath'⟩ := List.mem_filter.1 hmem
    exact hpath path hmem (by simpa using hpath')

end Options

theorem UsageError.Reports.unique {text : String} {e e' : UsageError} (h : e.Reports text)
    (h' : e'.Reports text) : e = e' := by
  cases h with
  | blames h =>
    cases h' with
    | blames h' => exact h.unique h'
    | second hpath => exact absurd (.request hpath) (h.not_spells _)
  | second hpath =>
    cases h' with
    | blames h' => exact absurd (.request hpath) (h'.not_spells _)
    | second => rfl

theorem UsageError.Leftmost.unique {texts : List String} {e e' : UsageError}
    (h : e.Leftmost texts) (h' : e'.Leftmost texts) : e = e' := by
  cases h with
  | offends hleast htext h =>
    cases h' with
    | offends hleast' htext' h' =>
      obtain rfl := hleast.unique hleast'
      obtain rfl := Option.some.inj (htext.symm.trans htext')
      exact h.unique h'
    | missing hoffends => exact absurd hleast.1 (hoffends _)
  | missing hoffends =>
    cases h' with
    | offends hleast => exact absurd hleast.1 (hoffends _)
    | missing => rfl

namespace Options

theorem ends_read (texts : List String) : Ends texts (read texts) :=
  gathers_nil.ends_readFrom texts

theorem read_eq_ok_iff (texts : List String) (path : String) (o : Options) :
    read texts = .ok (path, o) ↔ Gathers texts (some path) o := by
  have hends := ends_read texts
  cases hread : read texts with
  | ok result =>
    obtain ⟨path', o'⟩ := result
    rw [hread] at hends
    refine ⟨fun h => ?_, fun h => ?_⟩
    · cases h
      exact hends
    · obtain ⟨hpath, rfl⟩ := Gathers.unique hends h
      rw [Option.some.inj hpath]
  | error e =>
    rw [hread] at hends
    exact iff_of_false (by simp) fun h => h.not_leftmost e hends

theorem read_eq_error_iff (texts : List String) (e : UsageError) :
    read texts = .error e ↔ e.Leftmost texts := by
  have hends := ends_read texts
  cases hread : read texts with
  | ok result =>
    rw [hread] at hends
    exact iff_of_false (by simp) (Gathers.not_leftmost hends e)
  | error e' =>
    rw [hread] at hends
    refine ⟨fun h => ?_, fun h => ?_⟩
    · exact Except.error.inj h ▸ hends
    · rw [UsageError.Leftmost.unique hends h]

theorem Gathers.of_reordered {texts texts' : List String} {path : String} {o : Options}
    (h : Gathers texts (some path) o) (hreordered : Reordered texts texts') :
    Gathers texts' (some path) o := by
  -- What each text spells does not depend on its place, and the options see the values only.
  obtain ⟨as', hall'⟩ := exists_forall₂_spells fun t ht =>
    h.exists_spells t (hreordered.perm.mem_iff.2 ht)
  have hpaths := hreordered.perm.filter (IsPath ·)
  rw [h.filter_isPath] at hpaths
  obtain ⟨as, hall, -, rfl⟩ := h
  refine ⟨as', hall', ?_, ?_⟩
  · rw [filterMap_request? hall']
    exact (List.singleton_perm.1 hpaths).symm
  · have hvalues := hreordered.values_eq
    simp only [starts, List.forall_mem_cons] at hvalues
    rw [lastOf_eq hall, lastOf_eq hall']
    simp [hvalues, hreordered.perm.mem_iff]

/-- Arguments are read exactly if all of them fit and one of them is a path, whatever order they are
in. Each option has the value it is given last. Otherwise the leftmost argument that offends is
reported, or else that there is no path. -/
theorem read_verdict (texts : List String) :
    ((∃ result, read texts = .ok result) ↔
        (∀ t ∈ texts, ∃ a, Spells t a) ∧ (texts.filter (IsPath ·)).length = 1) ∧
      (∀ path o, read texts = .ok (path, o) ↔
        ∃ as, List.Forall₂ Spells texts as ∧ as.filterMap Argument.request? = [path] ∧
          o = lastOf as) ∧
        (∀ texts', Reordered texts texts' →
          ∀ result, read texts = .ok result → read texts' = .ok result) ∧
          ∀ e, read texts = .error e ↔ e.Leftmost texts := by
  refine ⟨⟨?_, ?_⟩, read_eq_ok_iff texts, ?_, read_eq_error_iff texts⟩
  · rintro ⟨⟨path, o⟩, hread⟩
    have h := (read_eq_ok_iff texts path o).1 hread
    exact ⟨h.exists_spells, by rw [h.filter_isPath]; rfl⟩
  · rintro ⟨hspells, hone⟩
    obtain ⟨as, hall⟩ := exists_forall₂_spells hspells
    obtain ⟨path, hpath⟩ := List.length_eq_one_iff.1 hone
    exact ⟨(path, lastOf as), (read_eq_ok_iff texts path _).2
      ⟨as, hall, (filterMap_request? hall).trans hpath, rfl⟩⟩
  · rintro texts' hreordered ⟨path, o⟩ hread
    have h := (read_eq_ok_iff texts path o).1 hread
    exact (read_eq_ok_iff texts' path o).2 (h.of_reordered hreordered)

/-- A path may stand between two options of one kind as well as behind them. -/
theorem read_verdict_of_reordered :
    Reordered ["--dot=a", "p", "--dot=b"] ["--dot=a", "--dot=b", "p"] ∧
      read ["--dot=a", "--dot=b", "p"] = .ok ("p", { dot? := some "b" }) := by
  have hreordered : Reordered ["--dot=a", "p", "--dot=b"] ["--dot=a", "--dot=b", "p"] :=
    ⟨by decide, by decide⟩
  exact ⟨hreordered, (read_verdict _).2.2.1 _ hreordered _ rfl⟩

end Options

end Wavefront.Command
