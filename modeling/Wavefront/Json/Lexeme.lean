import Wavefront.Json.Literal
import Wavefront.Json.Numeral

set_option autoImplicit false

/-!
# Lexemes of JSON

A text is cut into lexemes, each a token with the blanks in front of it. Where no token
begins, the last lexeme is junk and holds the whole rest. No reader accepts junk, so what
stands before it is still read and judged first. Nothing is lost: `flatMap_source_lexemes`
puts the text together again, up to blanks at its end.
-/
namespace Wavefront.Json

inductive Token
  | openBrace
  | closeBrace
  | openBracket
  | closeBracket
  | colon
  | comma
  | null
  | boolean (b : Bool)
  | number (n : Numeral)
  | string (pieces : List Piece)
  | junk (rest : List Char)
deriving DecidableEq

def Token.source : Token → List Char
  | openBrace => ['{']
  | closeBrace => ['}']
  | openBracket => ['[']
  | closeBracket => [']']
  | colon => [':']
  | comma => [',']
  | null => ['n', 'u', 'l', 'l']
  | boolean true => ['t', 'r', 'u', 'e']
  | boolean false => ['f', 'a', 'l', 's', 'e']
  | number n => n.text
  | string pieces => '"' :: pieces.flatMap Piece.source ++ ['"']
  | junk rest => rest

structure Lexeme where
  blanks : List Char
  token : Token
deriving DecidableEq

def Lexeme.source (l : Lexeme) : List Char := l.blanks ++ l.token.source

def isBlank (c : Char) : Bool := c = ' ' || c = '\t' || c = '\n' || c = '\r'

/-- The token at the start of a text, and what follows it. -/
def Token.scan? : List Char → Option (Token × List Char)
  | '{' :: rest => some (openBrace, rest)
  | '}' :: rest => some (closeBrace, rest)
  | '[' :: rest => some (openBracket, rest)
  | ']' :: rest => some (closeBracket, rest)
  | ':' :: rest => some (colon, rest)
  | ',' :: rest => some (comma, rest)
  | 'n' :: 'u' :: 'l' :: 'l' :: rest => some (null, rest)
  | 't' :: 'r' :: 'u' :: 'e' :: rest => some (boolean true, rest)
  | 'f' :: 'a' :: 'l' :: 's' :: 'e' :: rest => some (boolean false, rest)
  | '"' :: rest => (Piece.scan? rest).map fun (pieces, rest) => (string pieces, rest)
  | cs => (Numeral.scan? cs).map fun (n, rest) => (number n, rest)

theorem Token.scan?_eq {t : Token} {cs rest : List Char} (h : scan? cs = some (t, rest)) :
    cs = t.source ++ rest ∧ t.source ≠ [] := by
  unfold scan? at h
  split at h
  case h_10 =>
    obtain ⟨⟨pieces, rest'⟩, hp, h⟩ := Option.map_eq_some_iff.1 h
    simp only [Prod.mk.injEq] at h
    obtain ⟨rfl, rfl⟩ := h
    simp [source, Piece.scan?_eq hp]
  case h_11 =>
    obtain ⟨⟨n, rest'⟩, hn, h⟩ := Option.map_eq_some_iff.1 h
    simp only [Prod.mk.injEq] at h
    obtain ⟨rfl, rfl⟩ := h
    obtain ⟨rfl, hne⟩ := Numeral.scan?_eq hn
    simp [source, Numeral.text, hne]
  all_goals
    simp only [Option.some.injEq, Prod.mk.injEq] at h
    obtain ⟨rfl, rfl⟩ := h
    simp [source]

/-- The lexemes of a text after those already found. -/
def lexemesOnto (found : List Lexeme) (cs : List Char) : List Lexeme :=
  match _hcs : cs.dropWhile isBlank with
  | [] => found.reverse
  | c :: after =>
    match _h : Token.scan? (c :: after) with
    | none => (⟨cs.takeWhile isBlank, .junk (c :: after)⟩ :: found).reverse
    | some (t, rest) => lexemesOnto (⟨cs.takeWhile isBlank, t⟩ :: found) rest
termination_by cs.length
decreasing_by
  have hdrop := congrArg List.length (cs.takeWhile_append_dropWhile (p := isBlank))
  obtain ⟨heq, hne⟩ := Token.scan?_eq _h
  have := congrArg List.length heq
  have := List.length_pos_iff.2 hne
  simp only [List.length_append, _hcs] at *
  omega

def lexemes (cs : List Char) : List Lexeme := lexemesOnto [] cs

theorem flatMap_source_lexemesOnto (found : List Lexeme) (cs : List Char) :
    ∃ blanks, blanks.all isBlank ∧
      (lexemesOnto found cs).flatMap Lexeme.source ++ blanks =
        found.reverse.flatMap Lexeme.source ++ cs := by
  fun_induction lexemesOnto found cs with
  | case1 found cs h =>
    have hsplit := cs.takeWhile_append_dropWhile (p := isBlank)
    rw [h, List.append_nil] at hsplit
    exact ⟨cs, hsplit ▸ List.all_takeWhile, rfl⟩
  | case2 found cs c after h hscan =>
    refine ⟨[], rfl, ?_⟩
    have hsplit := cs.takeWhile_append_dropWhile (p := isBlank)
    rw [h] at hsplit
    simp [Lexeme.source, Token.source, hsplit]
  | case3 found cs c after h t rest hscan ih =>
    obtain ⟨blanks, hb, ih⟩ := ih
    refine ⟨blanks, hb, ?_⟩
    have hsplit := cs.takeWhile_append_dropWhile (p := isBlank)
    rw [h, (Token.scan?_eq hscan).1] at hsplit
    simp [ih, Lexeme.source, hsplit]

theorem flatMap_source_lexemes (cs : List Char) :
    ∃ blanks, blanks.all isBlank ∧ (lexemes cs).flatMap Lexeme.source ++ blanks = cs := by
  simpa [lexemes] using flatMap_source_lexemesOnto [] cs

end Wavefront.Json
