import Mathlib.Data.List.Basic
import Wavefront.Json.Literal

set_option autoImplicit false

/-!
# Literals that are read back

Every character is written as a piece that is scanned as one and decoded to that character, so a
quoted text is read back as it was, whatever characters are in it.
-/
namespace Wavefront.Json.Piece

/-- What a character is written as: a letter behind a backslash, a unit with two zeros in front if
it is a control character, or itself. -/
theorem ofChar_cases (c : Char) :
    (∃ e, ofChar c = short e ∧ isShort e = true ∧ shortValue e = c) ∨
      (ofChar c = unit '0' '0' (hexDigit (c.toNat / 16)) (hexDigit (c.toNat % 16)) ∧
        c.toNat < 0x20) ∨
      (ofChar c = plain c ∧ isControl c = false ∧ c ≠ '"' ∧ c ≠ '\\') := by
  unfold ofChar
  split
  case h_8 hquote hbackslash _ _ _ _ _ =>
    by_cases hc : isControl c = true
    · exact .inr (.inl ⟨if_pos hc, of_decide_eq_true hc⟩)
    · exact .inr (.inr ⟨if_neg hc, Bool.eq_false_iff.2 hc, hquote, hbackslash⟩)
  all_goals exact .inl ⟨_, rfl, rfl, rfl⟩

theorem ofChar_of_isDigit {c : Char} (h : c.isDigit = true) : ofChar c = plain c := by
  obtain ⟨e, -, hshort, rfl⟩ | ⟨-, hc⟩ | ⟨hplain, -⟩ := ofChar_cases c
  · have hletters : ∀ e ∈ ['"', '\\', '/', 'b', 'f', 'n', 'r', 't'],
        (shortValue e).isDigit = false := by
      simp only [List.forall_mem_cons]
      exact ⟨rfl, rfl, rfl, rfl, rfl, rfl, rfl, rfl, by simp⟩
    rw [hletters e (of_decide_eq_true hshort)] at h
    contradiction
  · have hdigit : '0' ≤ c := (Bool.and_eq_true_iff.1 h).1 |> of_decide_eq_true
    have hle : 48 ≤ c.toNat := hdigit
    omega
  · exact hplain

theorem unit_control : ∀ n < 0x20,
    ['0', '0', hexDigit (n / 16), hexDigit (n % 16)].all isHex = true ∧
      unitValue '0' '0' (hexDigit (n / 16)) (hexDigit (n % 16)) = n := by
  decide

theorem scanOnto_short (found : List Piece) {e : Char} (h : isShort e = true) (rest : List Char) :
    scanOnto found ('\\' :: e :: rest) = scanOnto (short e :: found) rest := by
  have hu : e ≠ 'u' := by
    rintro rfl
    exact absurd h (by decide)
  rw [scanOnto.eq_4 _ _ _ fun _ _ _ _ _ heq => absurd heq hu, if_pos h]

theorem scanOnto_unit (found : List Piece) {a b c d : Char} (h : [a, b, c, d].all isHex = true)
    (rest : List Char) :
    scanOnto found ('\\' :: 'u' :: a :: b :: c :: d :: rest) =
      scanOnto (unit a b c d :: found) rest := by
  rw [scanOnto, if_pos h]

theorem scanOnto_plain (found : List Piece) {c : Char} (hcontrol : isControl c = false)
    (hquote : c ≠ '"') (hbackslash : c ≠ '\\') (rest : List Char) :
    scanOnto found (c :: rest) = scanOnto (plain c :: found) rest := by
  rw [scanOnto.eq_5 _ _ _ hquote (fun _ _ _ _ _ h _ => hbackslash h) (fun _ _ h _ => hbackslash h)]
  simp [hcontrol, hbackslash]

theorem scanOnto_source_ofChar (found : List Piece) (c : Char) (rest : List Char) :
    scanOnto found ((ofChar c).source ++ rest) = scanOnto (ofChar c :: found) rest := by
  obtain ⟨e, he, hshort, -⟩ | ⟨hunit, hc⟩ | ⟨hplain, hcontrol, hquote, hbackslash⟩ := ofChar_cases c
  · rw [he]
    exact scanOnto_short found hshort rest
  · rw [hunit]
    exact scanOnto_unit found (unit_control c.toNat hc).1 rest
  · rw [hplain]
    exact scanOnto_plain found hcontrol hquote hbackslash rest

theorem scan?_quoted (text : List Char) (rest : List Char) :
    scan? (text.flatMap (fun c => (ofChar c).source) ++ '"' :: rest) =
      some (text.map ofChar, rest) := by
  suffices h : ∀ found, scanOnto found (text.flatMap (fun c => (ofChar c).source) ++ '"' :: rest) =
      some (found.reverse ++ text.map ofChar, rest) from h []
  induction text with
  | nil => intro found; simp [scanOnto]
  | cons c text ih =>
    intro found
    rw [List.flatMap_cons, List.append_assoc, scanOnto_source_ofChar, ih]
    simp

theorem decodeOnto_control (text : List Char) {c : Char} (hc : c.toNat < 0x20)
    (rest : List Piece) :
    decodeOnto text (unit '0' '0' (hexDigit (c.toNat / 16)) (hexDigit (c.toNat % 16)) :: rest) =
      decodeOnto (c :: text) rest := by
  have hlow : isLowSurrogate c.toNat = false := by
    simp only [isLowSurrogate, Bool.and_eq_false_iff, decide_eq_false_iff_not]
    omega
  have hhigh : isHighSurrogate c.toNat = false := by
    simp only [isHighSurrogate, Bool.and_eq_false_iff, decide_eq_false_iff_not]
    omega
  conv_lhs => unfold decodeOnto
  simp [(unit_control c.toNat hc).2, hlow, hhigh, Char.ofNat_toNat]

theorem decodeOnto_ofChar (text : List Char) (c : Char) (rest : List Piece) :
    decodeOnto text (ofChar c :: rest) = decodeOnto (c :: text) rest := by
  obtain ⟨e, he, -, hvalue⟩ | ⟨hunit, hc⟩ | ⟨hplain, -⟩ := ofChar_cases c
  · rw [he, decodeOnto, hvalue]
  · rw [hunit]
    exact decodeOnto_control text hc rest
  · rw [hplain, decodeOnto]

theorem decode_map_ofChar (text : String) : decode (text.toList.map ofChar) = .ok text := by
  have h : ∀ cs text', decodeOnto text' (cs.map ofChar) = .ok (text'.reverse ++ cs) := by
    intro cs
    induction cs with
    | nil => intro text'; simp [decodeOnto]
    | cons c cs ih =>
      intro text'
      rw [List.map_cons, decodeOnto_ofChar, ih]
      simp
  rw [decode, h]
  simp [Except.map]

end Wavefront.Json.Piece
