import Mathlib.Data.List.Basic
import Wavefront.Json.Document
import Wavefront.Json.Lexeme
import Wavefront.Proofs.Json.Literal
import Wavefront.Proofs.Json.Numeral

set_option autoImplicit false

/-!
# The tokens of a written document

The lexemes of a text are found one after the other, and the blanks between them do not matter to
their tokens. So a document has the same tokens in every layout, and `tokens_render` finds them in
its text.
-/
namespace Wavefront.Json

def tokens (cs : List Char) : List Token := (lexemes cs).map Lexeme.token

/-- Lexemes found before stay in front and have no part in what is found later. -/
theorem lexemesOnto_append (found found' : List Lexeme) (cs : List Char) :
    lexemesOnto (found ++ found') cs = found'.reverse ++ lexemesOnto found cs := by
  fun_induction lexemesOnto found cs with
  | case1 found cs h =>
    rw [lexemesOnto.eq_def]
    split
    · simp
    · simp_all
  | case2 found cs c after h hscan =>
    rw [lexemesOnto.eq_def]
    split
    · simp_all
    · split <;> simp_all
  | case3 found cs c after h t rest hscan ih =>
    rw [lexemesOnto.eq_def]
    split
    · simp_all
    · split <;> simp_all

theorem Token.scan?_blank {c : Char} (hc : isBlank c = true) (cs : List Char) :
    Token.scan? (c :: cs) = none := by
  simp only [isBlank, Bool.or_eq_true, decide_eq_true_eq] at hc
  rcases hc with ((rfl | rfl) | rfl) | rfl <;> rfl

theorem Token.dropWhile_of_scan? {cs rest : List Char} {t : Token}
    (h : Token.scan? cs = some (t, rest)) : cs.dropWhile isBlank = cs := by
  cases cs with
  | nil => rfl
  | cons c cs =>
    have hc : isBlank c = false := by
      by_contra hblank
      simp [Token.scan?_blank (Bool.not_eq_false _ ▸ hblank)] at h
    simp [hc]

theorem tokens_eq (cs : List Char) :
    tokens cs =
      match cs.dropWhile isBlank with
      | [] => []
      | c :: after =>
        match Token.scan? (c :: after) with
        | none => [.junk (c :: after)]
        | some (t, rest) => t :: tokens rest := by
  rw [tokens, lexemes, lexemesOnto.eq_def]
  split
  case h_1 h => simp [h]
  case h_2 c after h =>
    rw [h]
    split
    case h_1 hscan => simp [hscan]
    case h_2 t rest hscan =>
      have hrest := lexemesOnto_append [] [⟨cs.takeWhile isBlank, t⟩] rest
      simp only [List.nil_append] at hrest
      simp [hscan, hrest, tokens, lexemes]

theorem tokens_nil : tokens [] = [] := by
  rw [tokens_eq]
  rfl

theorem tokens_append_of_blank {blanks : List Char} (h : ∀ c ∈ blanks, isBlank c = true)
    (cs : List Char) : tokens (blanks ++ cs) = tokens cs := by
  rw [tokens_eq, List.dropWhile_append_of_pos h, ← tokens_eq]

theorem tokens_of_scan? {cs rest : List Char} {t : Token} (h : Token.scan? cs = some (t, rest)) :
    tokens cs = t :: tokens rest := by
  rw [tokens_eq, Token.dropWhile_of_scan? h]
  cases cs with
  | nil => exact absurd (Token.scan?_eq h).1 (by simp [(Token.scan?_eq h).2])
  | cons c cs => simp [h]

section Marks

variable (rest : List Char)

theorem tokens_openBrace : tokens ('{' :: rest) = .openBrace :: tokens rest := tokens_of_scan? rfl

theorem tokens_closeBrace : tokens ('}' :: rest) = .closeBrace :: tokens rest := tokens_of_scan? rfl

theorem tokens_openBracket : tokens ('[' :: rest) = .openBracket :: tokens rest :=
  tokens_of_scan? rfl

theorem tokens_closeBracket : tokens (']' :: rest) = .closeBracket :: tokens rest :=
  tokens_of_scan? rfl

theorem tokens_colon : tokens (':' :: rest) = .colon :: tokens rest := tokens_of_scan? rfl

theorem tokens_comma : tokens (',' :: rest) = .comma :: tokens rest := tokens_of_scan? rfl

end Marks

theorem tokens_quote (text : String) (rest : List Char) :
    tokens (quote text ++ rest) = .string (text.toList.map Piece.ofChar) :: tokens rest :=
  tokens_of_scan? (by simp [quote, Token.scan?, Piece.scan?_quoted])

theorem Token.scan?_of_numeral {cs rest : List Char} {n : Numeral}
    (h : Numeral.scan? cs = some (n, rest)) : Token.scan? cs = some (number n, rest) := by
  unfold Token.scan?
  split
  case h_11 => simp [h]
  all_goals simp [Numeral.scan?, Numeral.scanUnsigned?, scanWhole?, scanDigits?] at h

theorem Numeral.Valid.tokens_text {n : Numeral} (h : n.Valid) {rest : List Char}
    (hrest : EndsNumeral rest) : tokens (n.text ++ rest) = .number n :: tokens rest :=
  tokens_of_scan? (Token.scan?_of_numeral (h.scan? hrest))

theorem Numeral.Valid.quote_text {n : Numeral} (h : n.Valid) :
    quote (String.ofList n.text) = '"' :: n.text ++ ['"'] := by
  have hmarks : ∀ c ∈ ['-', '.', 'e', 'E', '+'], (Piece.ofChar c).source = [c] := by
    simp only [List.forall_mem_cons]
    exact ⟨rfl, rfl, rfl, rfl, rfl, by simp⟩
  have hplain : ∀ c ∈ n.text, (Piece.ofChar c).source = [c] := by
    intro c hc
    rcases h.isDigit_or_mark hc with hdigit | hmark
    · rw [Piece.ofChar_of_isDigit hdigit]
      rfl
    · exact hmarks c hmark
  rw [quote, String.toList_ofList, List.flatMap_congr hplain]
  simp

theorem tokens_repr (n : Int) {rest : List Char} (h : EndsNumeral rest) :
    tokens (n.repr.toList ++ rest) = .number (.ofInt n) :: tokens rest :=
  tokens_of_scan? (Token.scan?_of_numeral (Numeral.scan?_repr n h))

structure Layout.IsBlank (l : Layout) : Prop where
  lineBreak : ∀ depth, ∀ c ∈ l.lineBreak depth, isBlank c = true
  afterColon : ∀ c ∈ l.afterColon, isBlank c = true

theorem Layout.isBlank_compact : Layout.compact.IsBlank :=
  ⟨by simp [compact], by simp [compact]⟩

theorem Layout.isBlank_indented : Layout.indented.IsBlank :=
  ⟨by simp [indented, isBlank], by simp [indented, isBlank]⟩

theorem endsNumeral_append_of_blank {blanks rest : List Char}
    (hblanks : ∀ c ∈ blanks, isBlank c = true) (h : EndsNumeral rest) :
    EndsNumeral (blanks ++ rest) := by
  cases blanks with
  | nil => exact h
  | cons b bs =>
    have hb := hblanks b List.mem_cons_self
    simp only [isBlank, Bool.or_eq_true, decide_eq_true_eq] at hb
    rcases hb with ((rfl | rfl) | rfl) | rfl <;> simp [EndsNumeral]

namespace Document

mutual

def tokens : Document → List Token
  | null => [.null]
  | integer n => [.number (.ofInt n)]
  | string text => [.string (text.toList.map Piece.ofChar)]
  | array [] => [.openBracket, .closeBracket]
  | array (d :: ds) => .openBracket :: (tokens d ++ itemTokens ds ++ [.closeBracket])
  | object [] => [.openBrace, .closeBrace]
  | object ((k, d) :: ms) =>
    .openBrace :: .string (k.toList.map Piece.ofChar) :: .colon ::
      (tokens d ++ memberTokens ms ++ [.closeBrace])

def itemTokens : List Document → List Token
  | [] => []
  | d :: ds => .comma :: (tokens d ++ itemTokens ds)

def memberTokens : List (String × Document) → List Token
  | [] => []
  | (k, d) :: ms =>
    .comma :: .string (k.toList.map Piece.ofChar) :: .colon :: (tokens d ++ memberTokens ms)

end

theorem endsNumeral_renderItems (l : Layout) (depth : Nat) (ds : List Document) {rest : List Char}
    (h : EndsNumeral rest) : EndsNumeral (renderItems l depth ds ++ rest) := by
  cases ds with
  | nil => exact h
  | cons d ds => simp [renderItems, EndsNumeral]

theorem endsNumeral_renderMembers (l : Layout) (depth : Nat) (ms : List (String × Document))
    {rest : List Char} (h : EndsNumeral rest) :
    EndsNumeral (renderMembers l depth ms ++ rest) := by
  cases ms with
  | nil => exact h
  | cons m ms => simp [renderMembers, EndsNumeral]

mutual

/-- A document is written with its tokens in every layout. -/
theorem tokens_render {l : Layout} (hl : l.IsBlank) (depth : Nat) (d : Document)
    {rest : List Char} (h : EndsNumeral rest) :
    Json.tokens (render l depth d ++ rest) = d.tokens ++ Json.tokens rest := by
  match d with
  | null => exact tokens_of_scan? rfl
  | integer n => exact tokens_repr n h
  | string text => exact tokens_quote text rest
  | array [] => simp [render, tokens, tokens_openBracket, tokens_closeBracket]
  | array (d :: ds) =>
    -- a number as an item is followed by a comma, a blank or the closing bracket
    have hclose : EndsNumeral (l.lineBreak depth ++ ']' :: rest) :=
      endsNumeral_append_of_blank (hl.lineBreak depth) (by simp [EndsNumeral])
    have hd := tokens_render hl (depth + 1) d (endsNumeral_renderItems l (depth + 1) ds hclose)
    have hds := tokens_renderItems hl (depth + 1) ds hclose
    simp [render, tokens, tokens_openBracket, tokens_closeBracket,
      tokens_append_of_blank (hl.lineBreak _), hd, hds]
  | object [] => simp [render, tokens, tokens_openBrace, tokens_closeBrace]
  | object ((k, d) :: ms) =>
    have hclose : EndsNumeral (l.lineBreak depth ++ '}' :: rest) :=
      endsNumeral_append_of_blank (hl.lineBreak depth) (by simp [EndsNumeral])
    have hd := tokens_render hl (depth + 1) d (endsNumeral_renderMembers l (depth + 1) ms hclose)
    have hms := tokens_renderMembers hl (depth + 1) ms hclose
    simp [render, tokens, tokens_openBrace, tokens_closeBrace, tokens_quote, tokens_colon,
      tokens_append_of_blank (hl.lineBreak _), tokens_append_of_blank hl.afterColon, hd, hms]

theorem tokens_renderItems {l : Layout} (hl : l.IsBlank) (depth : Nat) (ds : List Document)
    {rest : List Char} (h : EndsNumeral rest) :
    Json.tokens (renderItems l depth ds ++ rest) = itemTokens ds ++ Json.tokens rest := by
  match ds with
  | [] => rfl
  | d :: ds =>
    have hd := tokens_render hl depth d (endsNumeral_renderItems l depth ds h)
    have hds := tokens_renderItems hl depth ds h
    simp [renderItems, itemTokens, tokens_comma, tokens_append_of_blank (hl.lineBreak _), hd, hds]

theorem tokens_renderMembers {l : Layout} (hl : l.IsBlank) (depth : Nat)
    (ms : List (String × Document)) {rest : List Char} (h : EndsNumeral rest) :
    Json.tokens (renderMembers l depth ms ++ rest) = memberTokens ms ++ Json.tokens rest := by
  match ms with
  | [] => rfl
  | (k, d) :: ms =>
    have hd := tokens_render hl depth d (endsNumeral_renderMembers l depth ms h)
    have hms := tokens_renderMembers hl depth ms h
    simp [renderMembers, memberTokens, tokens_comma, tokens_quote, tokens_colon,
      tokens_append_of_blank (hl.lineBreak _), tokens_append_of_blank hl.afterColon, hd, hms]

end

end Document

end Wavefront.Json
