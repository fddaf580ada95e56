import Mathlib.Algebra.Group.Nat.Defs
import Mathlib.Tactic.ByContra
import Mathlib.Tactic.SplitIfs
import Wavefront.Name

set_option autoImplicit false

/-!
# Names as bytes

Names are ordered by code point, and their UTF-8 bytes are in the same order. Characters with
equally many bytes are numbers written to the base 64, the most significant digit first; a
character that needs more bytes than another begins with a greater one.
-/
namespace Wavefront

namespace Text

def continuations (v : Nat) : Nat :=
  if v ≤ 127 then 0 else if v ≤ 2047 then 1 else if v ≤ 65535 then 2 else 3

def lead : Nat → Nat
  | 0 => 0
  | 1 => 192
  | 2 => 224
  | _ => 240

def leads : Nat → Nat
  | 0 => 128
  | 1 => 32
  | 2 => 16
  | _ => 8

def leading (k v : Nat) : UInt8 := UInt8.ofNat (v % leads k + lead k)

/-- A number to the base 64: the last `k` digits have a byte each, and all above them is in the
first byte. -/
def digits (first : Nat → UInt8) : Nat → Nat → List UInt8
  | 0, v => [first v]
  | k + 1, v => digits first k (v / 64) ++ [UInt8.ofNat (v % 64 + 128)]

theorem utf8EncodeChar_eq (c : Char) :
    String.utf8EncodeChar c =
      digits (leading (continuations c.toNat)) (continuations c.toNat) c.toNat := by
  simp only [String.utf8EncodeChar, Char.toNat_val]
  fun_cases continuations c.toNat with
  | case1 h =>
    have hmod : c.toNat % 128 = c.toNat := Nat.mod_eq_of_lt (by omega)
    simp [h, digits, leading, leads, lead, hmod]
  | case2 h h' => simp [h, h', digits, leading, leads, lead]
  | case3 h h' h'' => simp [h, h', h'', digits, leading, leads, lead, Nat.div_div_eq_div_mul]
  | case4 h h' h'' => simp [h, h', h'', digits, leading, leads, lead, Nat.div_div_eq_div_mul]

theorem toNat_leading (k v : Nat) : (leading k v).toNat = v % leads k + lead k := by
  rw [leading, UInt8.toNat_ofNat']
  refine Nat.mod_eq_of_lt ?_
  rcases k with _ | _ | _ | k <;> simp only [leads, lead] <;> omega

theorem leading_lt {k v w : Nat} (h : v < w) (hw : w < leads k) : leading k v < leading k w := by
  rw [UInt8.lt_iff_toNat_lt, toNat_leading, toNat_leading, Nat.mod_eq_of_lt hw,
    Nat.mod_eq_of_lt (Nat.lt_trans h hw)]
  exact Nat.add_lt_add_right h _

/-- A first byte tells how many bytes follow it. -/
theorem leading_lt_leading {m n : Nat} (h : continuations m < continuations n) (v w : Nat) :
    leading (continuations m) v < leading (continuations n) w := by
  have hleads : v % leads (continuations m) < leads (continuations m) := by
    refine Nat.mod_lt v ?_
    fun_cases continuations m <;> decide
  have hlead : lead (continuations m) + leads (continuations m) ≤ lead (continuations n) := by
    unfold continuations at h ⊢
    split_ifs at h ⊢ <;> simp_all [lead, leads]
  rw [UInt8.lt_iff_toNat_lt, toNat_leading, toNat_leading]
  omega

theorem exists_digits_eq_cons (first : Nat → UInt8) (k v : Nat) :
    ∃ w rest, digits first k v = first w :: rest := by
  induction k generalizing v with
  | zero => exact ⟨v, [], rfl⟩
  | succ k ih =>
    obtain ⟨w, rest, heq⟩ := ih (v / 64)
    exact ⟨w, rest ++ [UInt8.ofNat (v % 64 + 128)], by rw [digits, heq, List.cons_append]⟩

theorem digits_append_lt {first : Nat → UInt8} {bound : Nat}
    (hfirst : ∀ v w, v < w → w < bound → first v < first w) (k : Nat) {v w : Nat} (h : v < w)
    (hw : w < bound * 64 ^ k) (s t : List UInt8) :
    digits first k v ++ s < digits first k w ++ t := by
  induction k generalizing v w s t with
  | zero => exact List.Lex.rel (hfirst v w h (by simpa using hw))
  | succ k ih =>
    have hdiv : w / 64 < bound * 64 ^ k := by
      rw [Nat.div_lt_iff_lt_mul (by decide), Nat.mul_assoc, ← pow_succ]
      exact hw
    rw [digits, digits, List.append_assoc, List.append_assoc]
    -- Either the digits before the last one differ already, or only the last one does.
    rcases Nat.lt_or_eq_of_le (Nat.div_le_div_right (c := 64) (Nat.le_of_lt h)) with hlt | heq
    · exact ih hlt hdiv _ _
    · rw [heq]
      refine List.append_left_lt (List.Lex.rel ?_)
      rw [UInt8.lt_iff_toNat_lt, UInt8.toNat_ofNat', UInt8.toNat_ofNat']
      omega

theorem toNat_lt (c : Char) : c.toNat < 1114112 := by
  rcases c.valid with h | ⟨-, h⟩
  · exact Nat.lt_trans h (by decide)
  · exact h

theorem lt_leads_mul {v : Nat} (h : v < 1114112) :
    v < leads (continuations v) * 64 ^ continuations v := by
  fun_cases continuations v <;> simp only [leads] <;> omega

theorem continuations_le {v w : Nat} (h : v ≤ w) : continuations v ≤ continuations w := by
  unfold continuations
  split_ifs <;> omega

theorem utf8EncodeChar_append_lt {c d : Char} (h : c < d) (s t : List UInt8) :
    String.utf8EncodeChar c ++ s < String.utf8EncodeChar d ++ t := by
  have hlt : c.toNat < d.toNat := h
  rw [utf8EncodeChar_eq, utf8EncodeChar_eq]
  rcases Nat.lt_or_eq_of_le (continuations_le (Nat.le_of_lt hlt)) with hfewer | hsame
  · obtain ⟨v, rest, hc⟩ := exists_digits_eq_cons (leading (continuations c.toNat)) _ c.toNat
    obtain ⟨w, rest', hd⟩ := exists_digits_eq_cons (leading (continuations d.toNat)) _ d.toNat
    rw [hc, hd]
    exact List.Lex.rel (leading_lt_leading hfewer v w)
  · rw [hsame]
    exact digits_append_lt (fun v w => leading_lt) _ hlt (lt_leads_mul (toNat_lt d)) s t

theorem flatMap_utf8EncodeChar_lt {l m : List Char} (h : l < m) :
    l.flatMap String.utf8EncodeChar < m.flatMap String.utf8EncodeChar := by
  induction h with
  | @nil c m =>
    obtain ⟨v, rest, hc⟩ := exists_digits_eq_cons (leading (continuations c.toNat)) _ c.toNat
    rw [List.flatMap_nil, List.flatMap_cons, utf8EncodeChar_eq, hc]
    exact List.Lex.nil
  | cons _ ih =>
    rw [List.flatMap_cons, List.flatMap_cons]
    exact List.append_left_lt ih
  | rel hlt =>
    rw [List.flatMap_cons, List.flatMap_cons]
    exact utf8EncodeChar_append_lt hlt _ _

end Text

namespace Name

def bytes (n : Name) : List UInt8 := n.text.toUTF8.data.toList

theorem bytes_eq (n : Name) : n.bytes = n.text.toList.flatMap String.utf8EncodeChar := by
  have h : n.text.toByteArray = n.text.toList.utf8Encode := by
    rw [← String.toByteArray_ofList, String.ofList_toList]
  rw [bytes, String.toUTF8_eq_toByteArray, h, List.utf8Encode, List.toList_data_toByteArray]

theorem compare_eq_lt_iff (a b : Name) : compare a b = .lt ↔ a.bytes < b.bytes := by
  have hlt : compare a.text b.text = .lt ↔ a.text.toList < b.text.toList :=
    compareOfLessAndEq_eq_lt
  rw [compare_eq, hlt, bytes_eq, bytes_eq]
  refine ⟨Text.flatMap_utf8EncodeChar_lt, fun h => ?_⟩
  by_contra hnot
  rcases List.le_iff_lt_or_eq.1 (List.not_lt.1 hnot) with hgt | heq
  · exact List.lt_asymm h (Text.flatMap_utf8EncodeChar_lt hgt)
  · rw [heq] at h
    exact List.lt_irrefl _ h

end Name

end Wavefront
