import Wavefront.Json.Extent
import Wavefront.Value

set_option autoImplicit false

/-!
# Reading values out of JSON

A `Reader` takes one value off the front of the lexemes, or says what is wrong with it: the
text is no JSON up to there, or it is but does not fit. Readers go from left to right and stop
at the first fault, and each takes at least one lexeme, which is why lists of values can be
read by recursion.
-/
namespace Wavefront.Json

/-- A value of a kind that was not asked for. -/
inductive Found
  | null
  | boolean (b : Bool)
  | number (m : Numeral.Magnitude)
  | string (text : String)
  | sequence
  | map
deriving DecidableEq

inductive Misfit
  | wrongType (found : Found) (expected : String)
  | tooLarge (n : Int)
  | missing (field : String)
  | repeated (field : String)
  | tooShort (length : Nat) (expected : String)
  | operand (source : String)
  | surrogate (fault : SurrogateFault)
deriving DecidableEq

inductive Fault
  | malformed
  | misfit (m : Misfit)
deriving DecidableEq

/-- Nothing for a token no value begins with, and for a literal or a number without a meaning. -/
def Token.found? : Token → Option Found
  | null => some .null
  | boolean b => some (.boolean b)
  | number n => n.magnitude?.map .number
  | string pieces => (Piece.decode pieces).toOption.map .string
  | openBracket => some .sequence
  | openBrace => some .map
  | _ => none

def wrongType (expected : String) : List Lexeme → Fault
  | [] => .malformed
  | l :: _ =>
    match l.token.found? with
    | none => .malformed
    | some found => .misfit (.wrongType found expected)

structure Reader (α : Type) where
  run : List Lexeme → Except Fault (α × List Lexeme)
  shrinks : ∀ ls a rest, run ls = .ok (a, rest) → rest.length < ls.length

namespace Reader

def map {α β : Type} (f : α → β) (r : Reader α) : Reader β where
  run ls := (r.run ls).map fun (a, rest) => (f a, rest)
  shrinks ls b rest h := by
    cases hr : r.run ls with
    | error e => simp [hr, Except.map] at h
    | ok p =>
      simp only [hr, Except.map, Except.ok.injEq, Prod.mk.injEq] at h
      exact h.2 ▸ r.shrinks ls p.1 p.2 hr

/-- Any value at all. -/
def ignored : Reader Unit where
  run ls :=
    match takeValue? ls with
    | none => .error .malformed
    | some (_, rest) => .ok ((), rest)
  shrinks ls a rest h := by
    split at h
    · simp at h
    · rename_i value rest' hv
      simp only [Except.ok.injEq, Prod.mk.injEq] at h
      exact h.2 ▸ (takeValue?_eq hv).2

def string : Reader String where
  run ls :=
    match ls with
    | ⟨_, .string pieces⟩ :: rest =>
      match Piece.decode pieces with
      | .error _ => .error .malformed
      | .ok text => .ok (text, rest)
    | ls => .error (wrongType "a string" ls)
  shrinks ls a rest h := by
    split at h
    · split at h <;> simp_all
    · simp at h

/-- Null stands for nothing. -/
def optional {α : Type} (r : Reader α) : Reader (Option α) where
  run ls :=
    match ls with
    | ⟨_, .null⟩ :: rest => .ok (none, rest)
    | ls => (r.map some).run ls
  shrinks ls a rest h := by
    split at h
    · simp_all
    · exact (r.map some).shrinks _ _ _ h

def value : Reader Value where
  run ls :=
    match ls with
    | ⟨_, .number n⟩ :: rest =>
      match n.magnitude? with
      | some (.integer i) =>
        match Value.ofInt? i with
        | some v => .ok (v, rest)
        | none => .error (.misfit (.tooLarge i))
      | _ => .error (wrongType "i64" ls)
    | ls => .error (wrongType "i64" ls)
  shrinks ls a rest h := by
    split at h
    · split at h
      · split at h <;> simp_all
      · simp at h
    · simp at h

/-- A string gives its text and a number its source, so that `10` and `"10"` are one. -/
def operand : Reader (Option String) where
  run ls :=
    match ls with
    | ⟨_, .null⟩ :: rest => .ok (none, rest)
    | ⟨_, .number n⟩ :: rest => .ok (some (String.ofList n.text), rest)
    | ⟨_, .string pieces⟩ :: rest =>
      match Piece.decode pieces with
      | .error fault => .error (.misfit (.surrogate fault))
      | .ok text => .ok (some text, rest)
    | ls =>
      match takeValue? ls with
      | none => .error .malformed
      | some (taken, _) => .error (.misfit (.operand (sourceOf taken)))
  shrinks ls a rest h := by
    split at h
    · simp_all
    · simp_all
    · split at h <;> simp_all
    · split at h <;> simp at h

/-- The items of an array that is open and not yet closed; at least one follows. -/
def items {α : Type} (r : Reader α) (ls : List Lexeme) :
    Except Fault (List α × List Lexeme) :=
  match _h : r.run ls with
  | .error fault => .error fault
  | .ok (a, ⟨_, .closeBracket⟩ :: rest) => .ok ([a], rest)
  | .ok (a, ⟨_, .comma⟩ :: rest) => (items r rest).map fun (as, rest) => (a :: as, rest)
  | .ok _ => .error .malformed
termination_by ls.length
decreasing_by
  have := r.shrinks _ _ _ _h
  simp only [List.length_cons] at this
  omega

theorem items_length_lt {α : Type} (r : Reader α) {ls rest : List Lexeme} {as : List α}
    (h : items r ls = .ok (as, rest)) : rest.length < ls.length := by
  fun_induction items r ls generalizing as rest with
  | case1 => simp at h
  | case2 ls a blanks rest' hr =>
    simp only [Except.ok.injEq, Prod.mk.injEq] at h
    have := r.shrinks _ _ _ hr
    simp only [List.length_cons] at this
    obtain ⟨-, rfl⟩ := h
    omega
  | case3 ls a blanks rest' hr ih =>
    have := r.shrinks _ _ _ hr
    cases hi : items r rest' with
    | error e => simp [hi, Except.map] at h
    | ok p =>
      simp only [hi, Except.map, Except.ok.injEq, Prod.mk.injEq] at h
      have := ih hi
      simp only [List.length_cons] at *
      obtain ⟨-, rfl⟩ := h
      omega
  | case4 => simp at h

def list {α : Type} (r : Reader α) : Reader (List α) where
  run ls :=
    match ls with
    | ⟨_, .openBracket⟩ :: ⟨_, .closeBracket⟩ :: rest => .ok ([], rest)
    | ⟨_, .openBracket⟩ :: rest => items r rest
    | ls => .error (wrongType "a sequence" ls)
  shrinks ls a rest h := by
    split at h
    · simp only [Except.ok.injEq, Prod.mk.injEq] at h
      obtain ⟨-, rfl⟩ := h
      simp only [List.length_cons]
      omega
    · have := items_length_lt r h
      simp only [List.length_cons]
      omega
    · simp at h

/-- The reader's value and nothing but blanks after it. -/
def readText {α : Type} (r : Reader α) (source : String) : Except Fault α :=
  match r.run (lexemes source.toList) with
  | .error fault => .error fault
  | .ok (a, []) => .ok a
  | .ok (_, _ :: _) => .error .malformed

end Reader

end Wavefront.Json
