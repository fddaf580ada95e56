import Mathlib.Data.List.Basic
import Wavefront.Json.Numeral
import Wavefront.Proofs.Text.Integer

set_option autoImplicit false

/-!
# Numbers that are read back

A number of the grammar is scanned as that number wherever it stands in front of something that
cannot be a part of it. An integer is written as a number without fraction and exponent, and if it
fits into 64 bits, the number is taken for that integer again.
-/
namespace Wavefront.Json

/-- A text that cannot go on with a number that stands in front of it. -/
def EndsNumeral (cs : List Char) : Prop :=
  ∀ c ∈ cs.head?, c.isDigit = false ∧ c ≠ '.' ∧ c ≠ 'e' ∧ c ≠ 'E'

theorem endsNumeral_nil : EndsNumeral [] := by
  simp [EndsNumeral]

theorem scanDigits?_append {ds rest : List Char} (hds : Text.IsDigits ds)
    (hrest : ∀ c ∈ rest.head?, c.isDigit = false) : scanDigits? (ds ++ rest) = some (ds, rest) := by
  have hends : rest.takeWhile Char.isDigit = [] ∧ rest.dropWhile Char.isDigit = rest := by
    cases rest with
    | nil => exact ⟨rfl, rfl⟩
    | cons c rest => simp [hrest c rfl]
  unfold scanDigits?
  rw [List.takeWhile_append_of_pos hds.2, List.dropWhile_append_of_pos hds.2, hends.1, hends.2,
    List.append_nil, if_neg hds.1]

theorem scanWhole?_append {ds rest : List Char} (hds : Text.IsDigits ds)
    (hzero : ds.head? = some '0' → ds = ['0']) (hrest : ∀ c ∈ rest.head?, c.isDigit = false) :
    scanWhole? (ds ++ rest) = some (ds, rest) := by
  rw [scanWhole?, scanDigits?_append hds hrest]
  by_cases hhead : ds.head? = some '0'
  · simp [Option.filter, hzero hhead]
  · simp [Option.filter, hhead]

theorem scanFraction?_append {fraction : Option (List Char)}
    (h : ∀ ds ∈ fraction, Text.IsDigits ds) {rest : List Char}
    (hrest : ∀ c ∈ rest.head?, c.isDigit = false ∧ c ≠ '.') :
    scanFraction? (fractionText fraction ++ rest) = some (fraction, rest) := by
  cases fraction with
  | none => exact if_neg fun hdot => (hrest '.' hdot).2 rfl
  | some ds =>
    have hscan := scanDigits?_append (h ds rfl) fun c hc => (hrest c hc).1
    simp [fractionText, scanFraction?, hscan]

structure Exponent.Valid (e : Exponent) : Prop where
  mark : e.mark = 'e' ∨ e.mark = 'E'
  sign : ∀ s ∈ e.sign, s = '+' ∨ s = '-'
  digits : Text.IsDigits e.digits

theorem Exponent.Valid.scanSign {e : Exponent} (h : e.Valid) (rest : List Char) :
    scanSign (e.sign.toList ++ (e.digits ++ rest)) = (e.sign, e.digits ++ rest) := by
  unfold Json.scanSign
  cases hsign : e.sign with
  | none =>
    obtain ⟨hne, hdigits⟩ := h.digits
    obtain ⟨c, cs, hcs⟩ := List.exists_cons_of_ne_nil hne
    have hc : c.isDigit = true := hdigits c (hcs ▸ List.mem_cons_self)
    have hplus : c ≠ '+' := ne_of_apply_ne Char.isDigit (by simp [hc])
    have hminus : c ≠ '-' := ne_of_apply_ne Char.isDigit (by simp [hc])
    simp [hcs, hplus, hminus]
  | some s =>
    rcases h.sign s hsign with rfl | rfl <;> simp

theorem scanExponent?_append {exponent : Option Exponent} (h : ∀ e ∈ exponent, e.Valid)
    {rest : List Char} (hrest : EndsNumeral rest) :
    scanExponent? (exponentText exponent ++ rest) = some (exponent, rest) := by
  cases exponent with
  | none =>
    cases rest with
    | nil => rfl
    | cons c rest =>
      obtain ⟨-, -, he, hE⟩ := hrest c rfl
      simp [exponentText, scanExponent?, he, hE]
  | some e =>
    obtain ⟨mark, sign, digits⟩ := e
    have hvalid := h _ rfl
    have hscan := scanDigits?_append hvalid.digits fun c hc => (hrest c hc).1
    have hsign := hvalid.scanSign rest
    have hmark := hvalid.mark
    simp only at hscan hsign hmark
    simp [exponentText, Exponent.text, scanExponent?, hmark, hsign, hscan]

namespace Numeral

/-- The grammar of numbers: digits in every part that is there, and no zero in front of others. -/
structure Valid (n : Numeral) : Prop where
  whole : Text.IsDigits n.whole
  noLeadingZero : n.whole.head? = some '0' → n.whole = ['0']
  fraction : ∀ ds ∈ n.fraction, Text.IsDigits ds
  exponent : ∀ e ∈ n.exponent, e.Valid

theorem Valid.head?_exponentText {n : Numeral} (h : n.Valid) {rest : List Char}
    (hrest : EndsNumeral rest) :
    ∀ c ∈ (exponentText n.exponent ++ rest).head?, c.isDigit = false ∧ c ≠ '.' := by
  cases hexponent : n.exponent with
  | none => exact fun c hc => ⟨(hrest c hc).1, (hrest c hc).2.1⟩
  | some e =>
    rintro c ⟨⟩
    rcases (h.exponent e hexponent).mark with hmark | hmark <;> simp [hmark]

theorem Valid.head?_fractionText {n : Numeral} (h : n.Valid) {rest : List Char}
    (hrest : EndsNumeral rest) :
    ∀ c ∈ (fractionText n.fraction ++ (exponentText n.exponent ++ rest)).head?,
      c.isDigit = false := by
  cases hfraction : n.fraction with
  | none => exact fun c hc => (h.head?_exponentText hrest c hc).1
  | some ds =>
    rintro c ⟨⟩
    rfl

theorem Valid.scanUnsigned? {n : Numeral} (h : n.Valid) {rest : List Char}
    (hrest : EndsNumeral rest) :
    scanUnsigned? n.negative
        (n.whole ++ (fractionText n.fraction ++ (exponentText n.exponent ++ rest))) =
      some (n, rest) := by
  simp [Numeral.scanUnsigned?,
    scanWhole?_append h.whole h.noLeadingZero (h.head?_fractionText hrest),
    scanFraction?_append h.fraction (h.head?_exponentText hrest),
    scanExponent?_append h.exponent hrest]

theorem Valid.scan? {n : Numeral} (h : n.Valid) {rest : List Char} (hrest : EndsNumeral rest) :
    scan? (n.text ++ rest) = some (n, rest) := by
  have hscan := h.scanUnsigned? hrest
  simp only [text, List.append_assoc]
  cases hnegative : n.negative with
  | true => simpa [Numeral.scan?, hnegative] using hscan
  | false =>
    have hminus : (n.whole ++
        (fractionText n.fraction ++ (exponentText n.exponent ++ rest))).head? ≠ some '-' := by
      rw [List.head?_append_of_ne_nil _ h.whole.1]
      intro hhead
      exact absurd (h.whole.2 '-' (List.mem_of_head? hhead)) (by decide)
    rw [hnegative] at hscan
    simp only [Bool.false_eq_true, if_false, List.nil_append]
    rw [Numeral.scan?, if_neg hminus]
    exact hscan

theorem Valid.isDigit_or_mark {n : Numeral} (h : n.Valid) {c : Char} (hc : c ∈ n.text) :
    c.isDigit = true ∨ c ∈ ['-', '.', 'e', 'E', '+'] := by
  have hdigits {ds : List Char} (hds : Text.IsDigits ds) (hc : c ∈ ds) : c.isDigit = true :=
    hds.2 c hc
  simp only [text, List.mem_append, or_assoc] at hc
  rcases hc with hc | hc | hc | hc
  · have hminus : c = '-' := by
      cases hnegative : n.negative <;> simp_all
    exact .inr (by simp [hminus])
  · exact .inl (hdigits h.whole hc)
  · cases hfraction : n.fraction with
    | none => simp [fractionText, hfraction] at hc
    | some ds =>
      rw [hfraction] at hc
      rcases List.mem_cons.1 hc with rfl | hc
      · exact .inr (by simp)
      · exact .inl (hdigits (h.fraction ds hfraction) hc)
  · cases hexponent : n.exponent with
    | none => simp [exponentText, hexponent] at hc
    | some e =>
      obtain ⟨hmark, hsign, hvalid⟩ := h.exponent e hexponent
      rw [hexponent] at hc
      rcases List.mem_append.1 hc with hc | hc
      · rcases List.mem_cons.1 hc with rfl | hc
        · rcases hmark with hmark | hmark <;> simp [hmark]
        · rcases hsign c (Option.mem_toList.1 hc) with rfl | rfl <;> simp
      · exact .inl (hdigits hvalid hc)

def integer? (n : Numeral) : Option Int :=
  if n.isPlain then
    some (if n.negative then -Text.placeValue n.whole else Text.placeValue n.whole)
  else none

/-- A number that is no integer has a point or an exponent in its text, and no integer has. -/
theorem Valid.not_spells {n : Numeral} (h : n.Valid) (hplain : n.isPlain = false) (m : Int) :
    ¬ Text.Spells n.text m := by
  intro hspells
  have hforeign : ∃ c ∈ n.text, c.isDigit = false ∧ c ≠ '+' ∧ c ≠ '-' := by
    cases hfraction : n.fraction with
    | some ds => exact ⟨'.', by simp [text, hfraction, fractionText], by decide⟩
    | none =>
      cases hexponent : n.exponent with
      | none => simp [isPlain, hfraction, hexponent] at hplain
      | some e =>
        refine ⟨e.mark, by simp [text, hexponent, exponentText, Exponent.text], ?_⟩
        rcases (h.exponent e hexponent).mark with hmark | hmark <;> rw [hmark] <;> decide
  obtain ⟨c, hc, hdigit, hplus, hminus⟩ := hforeign
  rcases hspells.isDigit_or_sign hc with hyes | hyes | hyes
  · simp [hdigit] at hyes
  · exact hplus hyes
  · exact hminus hyes

theorem Valid.spells_iff {n : Numeral} (h : n.Valid) (m : Int) :
    Text.Spells n.text m ↔ n.integer? = some m := by
  cases hplain : n.isPlain with
  | false => simp [h.not_spells hplain, integer?, hplain]
  | true =>
    have hspells : ∃ k, n.integer? = some k ∧ Text.Spells n.text k := by
      obtain ⟨hfraction, hexponent⟩ : n.fraction = none ∧ n.exponent = none := by
        simpa [isPlain] using hplain
      cases hnegative : n.negative with
      | true =>
        refine ⟨-Text.placeValue n.whole, by simp [integer?, hplain, hnegative], ?_⟩
        simpa [text, hnegative, hfraction, hexponent, fractionText, exponentText] using
          Text.Spells.minus h.whole
      | false =>
        refine ⟨Text.placeValue n.whole, by simp [integer?, hplain, hnegative], ?_⟩
        simpa [text, hnegative, hfraction, hexponent, fractionText, exponentText] using
          Text.Spells.unsigned h.whole
    obtain ⟨k, hk, hspells⟩ := hspells
    rw [hk, Option.some.injEq]
    constructor
    · exact hspells.unique
    · rintro rfl
      exact hspells

def ofInt (n : Int) : Numeral := ⟨n < 0, Nat.toDigits 10 n.natAbs, none, none⟩

theorem text_ofInt (n : Int) : (ofInt n).text = n.repr.toList := by
  cases n with
  | ofNat n =>
    rw [Text.toList_repr_ofNat]
    simp [ofInt, text, fractionText, exponentText]
  | negSucc n => simp [ofInt, text, fractionText, exponentText, Text.toList_repr_negSucc]

/-- Only zero is written with a zero in front. -/
theorem head?_toDigits_ne {n : Nat} (hn : n ≠ 0) : (Nat.toDigits 10 n).head? ≠ some '0' := by
  induction n using Nat.strongRecOn with
  | ind n ih =>
    by_cases hlt : n < 10
    · rw [Nat.toDigits_of_lt_base hlt]
      simpa [Nat.digitChar_eq_zero] using hn
    · rw [Nat.toDigits_of_base_le (by decide) (by omega),
        List.head?_append_of_ne_nil _ Nat.toDigits_ne_nil]
      exact ih (n / 10) (by omega) (by omega)

theorem valid_ofInt (n : Int) : (ofInt n).Valid where
  whole := ⟨Nat.toDigits_ne_nil, fun _ => Text.isDigit_of_mem_toDigits⟩
  noLeadingZero := by
    intro hhead
    have hn : n.natAbs = 0 := by
      by_contra hne
      exact head?_toDigits_ne hne hhead
    simp [ofInt, hn]
  fraction := by simp [ofInt]
  exponent := by simp [ofInt]

theorem scan?_repr (n : Int) {rest : List Char} (hrest : EndsNumeral rest) :
    scan? (n.repr.toList ++ rest) = some (ofInt n, rest) := by
  rw [← text_ofInt]
  exact (valid_ofInt n).scan? hrest

theorem magnitude?_ofInt {n : Int} (hmin : -9223372036854775808 ≤ n)
    (hmax : n ≤ 9223372036854775807) : (ofInt n).magnitude? = some (.integer n) := by
  have hwhole : Nat.ofDigitChars 10 (ofInt n).whole 0 = n.natAbs := by
    simp [ofInt, Nat.ofDigitChars_toDigits]
  have hplain : (ofInt n).isPlain = true := rfl
  have hword : n.natAbs < wordLimit := by
    unfold wordLimit
    omega
  simp only [magnitude?, hwhole, hplain, hword, decide_true, Bool.and_self, if_true]
  by_cases hneg : n < 0
  · have hpos : 0 < n.natAbs ∧ 2 * n.natAbs ≤ wordLimit := by
      unfold wordLimit
      omega
    have habs : -(n.natAbs : Int) = n := by omega
    simp only [ofInt, hneg, decide_true, hpos, habs]
    rfl
  · have habs : (n.natAbs : Int) = n := by omega
    simp [ofInt, hneg, habs]

end Numeral

end Wavefront.Json
