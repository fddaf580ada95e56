import Wavefront.Binary64.Decimal

set_option autoImplicit false

/-!
# Numbers of JSON

`Numeral.scan?` takes the longest number in the sense of the JSON grammar off a text and
keeps its parts as they were written. `Numeral.magnitude?` is what a reader of values makes
of it: an integer if there is neither fraction nor exponent and it fits into 64 bits (unsigned,
or signed after a minus), and otherwise a floating point number, which has to be finite.
-/
namespace Wavefront.Json

structure Exponent where
  mark : Char
  sign : Option Char
  digits : List Char
deriving DecidableEq

structure Numeral where
  negative : Bool
  whole : List Char
  fraction : Option (List Char)
  exponent : Option Exponent
deriving DecidableEq

def Exponent.text (e : Exponent) : List Char := e.mark :: e.sign.toList ++ e.digits

def fractionText : Option (List Char) → List Char
  | none => []
  | some ds => '.' :: ds

def exponentText : Option Exponent → List Char
  | none => []
  | some e => e.text

/-- At least one digit. -/
def scanDigits? (cs : List Char) : Option (List Char × List Char) :=
  if cs.takeWhile Char.isDigit = [] then none
  else some (cs.takeWhile Char.isDigit, cs.dropWhile Char.isDigit)

theorem scanDigits?_eq {cs ds rest : List Char} (h : scanDigits? cs = some (ds, rest)) :
    cs = ds ++ rest ∧ ds ≠ [] := by
  unfold scanDigits? at h
  split at h
  · simp at h
  · simp only [Option.some.injEq, Prod.mk.injEq] at h
    obtain ⟨rfl, rfl⟩ := h
    exact ⟨List.takeWhile_append_dropWhile.symm, by assumption⟩

/-- No zero in front of other digits. -/
def scanWhole? (cs : List Char) : Option (List Char × List Char) :=
  (scanDigits? cs).filter fun (ds, _) => ds.head? != some '0' || ds.length == 1

theorem scanWhole?_eq {cs ds rest : List Char} (h : scanWhole? cs = some (ds, rest)) :
    cs = ds ++ rest ∧ ds ≠ [] :=
  scanDigits?_eq (Option.filter_eq_some_iff.1 h).1

def scanFraction? (cs : List Char) : Option (Option (List Char) × List Char) :=
  if cs.head? = some '.' then (scanDigits? cs.tail).map fun (ds, rest) => (some ds, rest)
  else some (none, cs)

theorem scanFraction?_eq {cs rest : List Char} {ds : Option (List Char)}
    (h : scanFraction? cs = some (ds, rest)) : cs = fractionText ds ++ rest := by
  unfold scanFraction? at h
  split at h
  · rename_i hdot
    obtain ⟨⟨ds', rest'⟩, hd, h⟩ := Option.map_eq_some_iff.1 h
    simp only [Prod.mk.injEq] at h
    obtain ⟨rfl, rfl⟩ := h
    have := (scanDigits?_eq hd).1
    cases cs <;> simp_all [fractionText]
  · obtain ⟨rfl, rfl⟩ := Prod.mk.inj (Option.some.inj h)
    rfl

def scanSign (cs : List Char) : Option Char × List Char :=
  if cs.head? = some '+' || cs.head? = some '-' then (cs.head?, cs.tail) else (none, cs)

theorem scanSign_eq (cs : List Char) : (scanSign cs).1.toList ++ (scanSign cs).2 = cs := by
  unfold scanSign
  split
  · cases cs <;> simp_all
  · simp

def scanExponent? (cs : List Char) : Option (Option Exponent × List Char) :=
  match cs.head? with
  | none => some (none, cs)
  | some mark =>
    if mark = 'e' || mark = 'E' then
      (scanDigits? (scanSign cs.tail).2).map fun (ds, rest) =>
        (some ⟨mark, (scanSign cs.tail).1, ds⟩, rest)
    else some (none, cs)

theorem scanExponent?_eq {cs rest : List Char} {e : Option Exponent}
    (h : scanExponent? cs = some (e, rest)) : cs = exponentText e ++ rest := by
  unfold scanExponent? at h
  split at h
  · obtain ⟨rfl, rfl⟩ := Prod.mk.inj (Option.some.inj h)
    rfl
  · rename_i mark hmark
    split at h
    · obtain ⟨⟨ds, rest'⟩, hd, h⟩ := Option.map_eq_some_iff.1 h
      simp only [Prod.mk.injEq] at h
      obtain ⟨rfl, rfl⟩ := h
      have hs := scanSign_eq cs.tail
      rw [(scanDigits?_eq hd).1] at hs
      cases cs <;> simp_all [exponentText, Exponent.text]
    · obtain ⟨rfl, rfl⟩ := Prod.mk.inj (Option.some.inj h)
      rfl

namespace Numeral

def text (n : Numeral) : List Char :=
  (if n.negative then ['-'] else []) ++ n.whole ++ fractionText n.fraction ++
    exponentText n.exponent

def scanUnsigned? (negative : Bool) (cs : List Char) : Option (Numeral × List Char) :=
  (scanWhole? cs).bind fun (whole, cs) =>
    (scanFraction? cs).bind fun (fraction, cs) =>
      (scanExponent? cs).map fun (exponent, cs) => (⟨negative, whole, fraction, exponent⟩, cs)

theorem scanUnsigned?_eq {negative : Bool} {cs rest : List Char} {n : Numeral}
    (h : scanUnsigned? negative cs = some (n, rest)) :
    (if negative then ['-'] else []) ++ cs = n.text ++ rest ∧ n.whole ≠ [] := by
  obtain ⟨⟨whole, cs₁⟩, hw, h⟩ := Option.bind_eq_some_iff.1 h
  obtain ⟨⟨fraction, cs₂⟩, hf, h⟩ := Option.bind_eq_some_iff.1 h
  obtain ⟨⟨exponent, cs₃⟩, he, h⟩ := Option.map_eq_some_iff.1 h
  simp only [Prod.mk.injEq] at h
  obtain ⟨rfl, rfl⟩ := h
  obtain ⟨rfl, hne⟩ := scanWhole?_eq hw
  rw [scanFraction?_eq hf, scanExponent?_eq he]
  exact ⟨by simp [text], hne⟩

def scan? (cs : List Char) : Option (Numeral × List Char) :=
  if cs.head? = some '-' then scanUnsigned? true cs.tail else scanUnsigned? false cs

theorem scan?_eq {cs rest : List Char} {n : Numeral} (h : scan? cs = some (n, rest)) :
    cs = n.text ++ rest ∧ n.whole ≠ [] := by
  unfold scan? at h
  split at h
  · have := scanUnsigned?_eq h
    cases cs <;> simp_all
  · simpa using scanUnsigned?_eq h

/-- A number as a reader of values sees it. -/
inductive Magnitude
  | integer (n : Int)
  | floating (negative : Bool) (x : Binary64)
deriving DecidableEq

def Exponent.value (e : Exponent) : Int :=
  let n := Nat.ofDigitChars 10 e.digits 0
  if e.sign = some '-' then -n else n

/-- The first number that needs more than 64 bits. -/
def wordLimit : Nat := 18446744073709551616

/-- Reads digits into `n` as long as it stays below the word limit; also the digits left. -/
def takeWord (n : Nat) : List Char → Nat × List Char
  | [] => (n, [])
  | c :: cs =>
    let next := 10 * n + (c.toNat - '0'.toNat)
    if next < wordLimit then takeWord next cs else (n, c :: cs)

/-- The leading digits that fit into a word, and the power of ten they are to be multiplied by.
Digits that do not fit count as zeros. -/
def significand (n : Numeral) : Nat × Int :=
  let (s, left) := takeWord 0 n.whole
  let digits := n.fraction.getD []
  let (s, left') := takeWord s digits
  let shift := (left.length : Int) - (digits.length - left'.length : Nat)
  (s, shift + (n.exponent.map Exponent.value).getD 0)

/-- Divides by `10 ^ 308` until the rest of the power is in reach, or nothing is left. -/
def shrink (x : Binary64) (power : Nat) : Binary64 :=
  if 308 < power && !x.isZero then
    shrink (x.div (Binary64.ofNat (Nat.pow 10 308))) (power - 308)
  else x.div (Binary64.ofNat (Nat.pow 10 (min power 308)))
termination_by power
decreasing_by simp_all; omega

/-- The word times the power of ten in floating point arithmetic, each step rounded. -/
def scaled? (word : Nat) (power : Int) : Option Binary64 :=
  let x := Binary64.ofNat word
  if x.isZero then some x
  else if power < 0 then some (shrink x (-power).toNat)
  else if 308 < power then none
  else
    let y := x.mul (Binary64.ofNat (Nat.pow 10 power.toNat))
    if y.isFinite then some y else none

def isPlain (n : Numeral) : Bool := n.fraction.isNone && n.exponent.isNone

/-- Nothing if the number is too large for floating point. -/
def magnitude? (n : Numeral) : Option Magnitude :=
  let whole := Nat.ofDigitChars 10 n.whole 0
  if n.isPlain && whole < wordLimit then
    if !n.negative then some (.integer whole)
    else if 0 < whole && 2 * whole ≤ wordLimit then some (.integer (-whole))
    else some (.floating true (Binary64.ofNat whole))
  else
    let (word, power) := n.significand
    (scaled? word power).map (.floating n.negative)

end Numeral

end Wavefront.Json
