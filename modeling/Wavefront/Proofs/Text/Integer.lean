import Mathlib.Data.Nat.Digits.Defs
import Wavefront.Text.Integer

set_option autoImplicit false

/-!
# The grammar of decimal integers

What spells an integer, said without a reader: digits by the weight of their places, and at most
one sign in front of them. A text is read as an integer exactly if it spells that integer.
-/
namespace Wavefront.Text

def IsDigits (ds : List Char) : Prop := ds ≠ [] ∧ ∀ c ∈ ds, c.isDigit = true

def placeValue (ds : List Char) : Nat :=
  Nat.ofDigits 10 (ds.map fun c => c.toNat - '0'.toNat).reverse

/-- The texts of an integer. Zeros in front change nothing, and there may be any number of them. -/
inductive Spells : List Char → Int → Prop
  | unsigned {ds : List Char} (h : IsDigits ds) : Spells ds (placeValue ds)
  | plus {ds : List Char} (h : IsDigits ds) : Spells ('+' :: ds) (placeValue ds)
  | minus {ds : List Char} (h : IsDigits ds) : Spells ('-' :: ds) (-placeValue ds)

inductive SpellsCount : List Char → Nat → Prop
  | unsigned {ds : List Char} (h : IsDigits ds) : SpellsCount ds (placeValue ds)
  | plus {ds : List Char} (h : IsDigits ds) : SpellsCount ('+' :: ds) (placeValue ds)

theorem ofDigitChars_eq_placeValue (ds : List Char) : Nat.ofDigitChars 10 ds 0 = placeValue ds := by
  rw [placeValue, Nat.ofDigits_eq_foldr, List.foldr_reverse, List.foldl_map,
    Nat.ofDigitChars_eq_foldl]
  simp only [Nat.cast_id, Nat.add_comm]

theorem digits?_eq_some_iff (ds : List Char) (n : Nat) :
    digits? ds = some n ↔ IsDigits ds ∧ n = placeValue ds := by
  have hdigits : (!ds.isEmpty && ds.all Char.isDigit) = true ↔ IsDigits ds := by
    simp [IsDigits]
  rw [digits?, ofDigitChars_eq_placeValue, Option.ite_none_right_eq_some, hdigits,
    Option.some.injEq, eq_comm (a := n)]

theorem IsDigits.not_sign {ds : List Char} {s : Char} (hs : s.isDigit = false) :
    ¬ IsDigits (s :: ds) := by
  intro h
  rw [h.2 s List.mem_cons_self] at hs
  contradiction

theorem integer?_eq_some_iff (cs : List Char) (n : Int) : integer? cs = some n ↔ Spells cs n := by
  constructor
  · intro h
    unfold integer? at h
    split at h
    all_goals
      obtain ⟨m, hm, rfl⟩ := Option.map_eq_some_iff.1 h
      obtain ⟨hdigits, rfl⟩ := (digits?_eq_some_iff _ m).1 hm
    · exact .plus hdigits
    · exact .minus hdigits
    · exact .unsigned hdigits
  · intro h
    cases h with
    | plus h | minus h => simp [integer?, (digits?_eq_some_iff _ _).2 ⟨h, rfl⟩]
    | unsigned h =>
      unfold integer?
      split
      · exact absurd h (IsDigits.not_sign rfl)
      · exact absurd h (IsDigits.not_sign rfl)
      · simp [(digits?_eq_some_iff _ _).2 ⟨h, rfl⟩]

theorem count?_eq_some_iff (cs : List Char) (n : Nat) : count? cs = some n ↔ SpellsCount cs n := by
  constructor
  · intro h
    unfold count? at h
    split at h
    all_goals obtain ⟨hdigits, rfl⟩ := (digits?_eq_some_iff _ n).1 h
    · exact .plus hdigits
    · exact .unsigned hdigits
  · intro h
    cases h with
    | plus h => exact (digits?_eq_some_iff _ _).2 ⟨h, rfl⟩
    | unsigned h =>
      unfold count?
      split
      · exact absurd h (IsDigits.not_sign rfl)
      · exact (digits?_eq_some_iff _ _).2 ⟨h, rfl⟩

theorem Spells.unique {cs : List Char} {m n : Int} (hm : Spells cs m) (hn : Spells cs n) :
    m = n := by
  rw [← integer?_eq_some_iff] at hm hn
  exact Option.some.inj (hm.symm.trans hn)

theorem Spells.isDigit_or_sign {cs : List Char} {n : Int} (h : Spells cs n) {c : Char}
    (hc : c ∈ cs) : c.isDigit = true ∨ c = '+' ∨ c = '-' := by
  cases h with
  | unsigned h => exact .inl (h.2 c hc)
  | plus h =>
    rcases List.mem_cons.1 hc with rfl | hc
    · exact .inr (.inl rfl)
    · exact .inl (h.2 c hc)
  | minus h =>
    rcases List.mem_cons.1 hc with rfl | hc
    · exact .inr (.inr rfl)
    · exact .inl (h.2 c hc)

end Wavefront.Text
