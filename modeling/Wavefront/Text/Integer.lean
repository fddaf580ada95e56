set_option autoImplicit false

/-!
# Decimal integers in text

An integer is written as an optional single sign and at least one ASCII digit, with any
number of leading zeros and nothing around it. A count is the same without the minus sign.
-/
namespace Wavefront.Text

/-- Refuses the empty text and any text with something else than an ASCII digit in it. -/
def digits? (cs : List Char) : Option Nat :=
  if !cs.isEmpty && cs.all Char.isDigit then some (Nat.ofDigitChars 10 cs 0) else none

def count? : List Char → Option Nat
  | '+' :: cs => digits? cs
  | cs => digits? cs

def integer? : List Char → Option Int
  | '+' :: cs => (digits? cs).map Int.ofNat
  | '-' :: cs => (digits? cs).map fun n => -Int.ofNat n
  | cs => (digits? cs).map Int.ofNat

theorem isDigit_of_mem_toDigits {n : Nat} {c : Char} (h : c ∈ Nat.toDigits 10 n) :
    c.isDigit = true :=
  Nat.isDigit_of_mem_toDigits (by decide) (by decide) h

theorem toList_repr_ofNat (n : Nat) : (Int.ofNat n).repr.toList = Nat.toDigits 10 n := by
  simp [Int.repr, Nat.repr]

theorem toList_repr_negSucc (n : Nat) :
    (Int.negSucc n).repr.toList = '-' :: Nat.toDigits 10 (n + 1) := by
  simp [Int.repr, Nat.repr]

theorem digits?_toDigits (n : Nat) : digits? (Nat.toDigits 10 n) = some n := by
  have hd : ∀ c ∈ Nat.toDigits 10 n, c.isDigit = true := fun _ => isDigit_of_mem_toDigits
  simpa [digits?, Nat.toDigits_ne_nil, Nat.ofDigitChars_toDigits] using hd

theorem integer?_repr (n : Int) : integer? n.repr.toList = some n := by
  cases n with
  | ofNat n =>
    have hd := digits?_toDigits n
    rw [toList_repr_ofNat]
    cases hs : Nat.toDigits 10 n with
    | nil => exact absurd hs Nat.toDigits_ne_nil
    | cons c cs =>
      have hc : c.isDigit = true := isDigit_of_mem_toDigits (hs ▸ List.mem_cons_self)
      rw [hs] at hd
      unfold integer?
      split
      · rename_i h; cases h; simp at hc
      · rename_i h; cases h; simp at hc
      · simp [hd]
  | negSucc n =>
    rw [toList_repr_negSucc]
    simp [integer?, digits?_toDigits, Int.negSucc_eq]

end Wavefront.Text
