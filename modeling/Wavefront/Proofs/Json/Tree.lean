import Wavefront.Json.Extent
import Wavefront.Proofs.Json.Tokens

set_option autoImplicit false

/-!
# Values as they are spelled

A tree is any value of JSON, with its numbers, its literals and the order of its members as they
stand in a text. Its tokens are all that a reader has of it. A value that is taken off a list of
lexemes, however deep it nests, is the tree the lexemes begin with.
-/
namespace Wavefront.Json

def separated (tss : List (List Token)) : List Token := tss.flatMap (.comma :: ·)

def enclosed (left right : Token) : List (List Token) → List Token
  | [] => [left, right]
  | ts :: tss => left :: (ts ++ separated tss ++ [right])

def labelled (m : List Piece × List Token) : List Token := .string m.1 :: .colon :: m.2

def Opens (ts : List Token) : Prop := ∃ u us, ts = u :: us ∧ u ≠ .closeBracket

inductive Tree
  | null
  | boolean (b : Bool)
  | number (n : Numeral)
  | string (pieces : List Piece)
  | array (items : List Tree)
  | object (members : List (List Piece × Tree))

namespace Tree

mutual

def tokens : Tree → List Token
  | null => [.null]
  | boolean b => [.boolean b]
  | number n => [.number n]
  | string pieces => [.string pieces]
  | array [] => [.openBracket, .closeBracket]
  | array (t :: ts) => .openBracket :: (tokens t ++ itemTokens ts ++ [.closeBracket])
  | object [] => [.openBrace, .closeBrace]
  | object ((name, t) :: ms) =>
    .openBrace :: .string name :: .colon :: (tokens t ++ memberTokens ms ++ [.closeBrace])

def itemTokens : List Tree → List Token
  | [] => []
  | t :: ts => .comma :: (tokens t ++ itemTokens ts)

def memberTokens : List (List Piece × Tree) → List Token
  | [] => []
  | (name, t) :: ms => .comma :: .string name :: .colon :: (tokens t ++ memberTokens ms)

end

theorem opens_tokens (t : Tree) : Opens t.tokens := by
  match t with
  | null | boolean _ | number _ | string _ | array [] | array (_ :: _) | object []
  | object (_ :: _) => exact ⟨_, _, rfl, by simp⟩

theorem itemTokens_eq (ts : List Tree) : itemTokens ts = separated (ts.map tokens) := by
  induction ts with
  | nil => rfl
  | cons t ts ih => simp [itemTokens, separated, ih]

def memberToken (m : List Piece × Tree) : List Piece × List Token := (m.1, m.2.tokens)

theorem memberTokens_eq (ms : List (List Piece × Tree)) :
    memberTokens ms = separated ((ms.map memberToken).map labelled) := by
  induction ms with
  | nil => rfl
  | cons m ms ih => simp [memberTokens, separated, labelled, memberToken, ih]

theorem tokens_array (ts : List Tree) :
    (array ts).tokens = enclosed .openBracket .closeBracket (ts.map tokens) := by
  cases ts with
  | nil => rfl
  | cons t ts => simp [tokens, enclosed, itemTokens_eq]

theorem tokens_object (ms : List (List Piece × Tree)) :
    (object ms).tokens =
      enclosed .openBrace .closeBrace ((ms.map memberToken).map labelled) := by
  cases ms with
  | nil => rfl
  | cons m ms => simp [tokens, enclosed, labelled, memberToken, memberTokens_eq]

end Tree

def resume (taken : List Lexeme) (rest : List Lexeme) :
    List Bracket → Option (List Lexeme × List Lexeme)
  | [] => some (taken.reverse, rest)
  | b :: opened => takeValueOnto taken .separator (b :: opened) rest

section

variable {taken rest : List Lexeme} {l : Lexeme} {e : Expected} {opened opened' : List Bracket}

theorem takeValueOnto_of_complete (h : e.step? l.token opened = some (.separator, opened')) :
    takeValueOnto taken e opened (l :: rest) = resume (l :: taken) rest opened' := by
  rw [takeValueOnto, h]
  cases opened' <;> rfl

theorem takeValueOnto_of_step {e' : Expected} (h : e.step? l.token opened = some (e', opened'))
    (he : e' ≠ .separator) :
    takeValueOnto taken e opened (l :: rest) = takeValueOnto (l :: taken) e' opened' rest := by
  rw [takeValueOnto, h]
  cases e' <;> first | rfl | contradiction

theorem takeValueOnto_firstItem_append (t : Tree) {value : List Lexeme}
    (h : value.map Lexeme.token = t.tokens) :
    takeValueOnto taken .firstItem opened (value ++ rest) =
      takeValueOnto taken .value opened (value ++ rest) := by
  obtain ⟨u, us, ht, hu⟩ := t.opens_tokens
  obtain ⟨l, ls, rfl, hl, -⟩ := List.map_eq_cons_iff.1 (h.trans ht)
  have hstep : Expected.firstItem.step? l.token opened = Expected.value.step? l.token opened :=
    if_neg (hl ▸ hu)
  rw [List.cons_append, takeValueOnto, takeValueOnto, hstep]

theorem takeValueOnto_name {l' : Lexeme} {name : List Piece} (he : e = .firstKey ∨ e = .key)
    (hl : l.token = .string name) (hl' : l'.token = .colon) :
    takeValueOnto taken e opened (l :: l' :: rest) =
      takeValueOnto (l' :: l :: taken) .value opened rest := by
  have hname : e.step? l.token opened = some (.colon, opened) := by
    rcases he with rfl | rfl <;> rw [hl] <;> rfl
  have hcolon : Expected.colon.step? l'.token opened = some (.value, opened) := by
    rw [hl']; rfl
  rw [takeValueOnto_of_step hname (by simp), takeValueOnto_of_step hcolon (by simp)]

end

mutual

/-- A tree is taken as a whole, and the brackets that were open before it are open after it. -/
theorem takeValueOnto_tree (t : Tree) {value : List Lexeme} (h : value.map Lexeme.token = t.tokens)
    (taken rest : List Lexeme) (opened : List Bracket) :
    takeValueOnto taken .value opened (value ++ rest) =
      resume (value.reverse ++ taken) rest opened := by
  match t with
  | .null | .boolean _ | .number _ | .string _ =>
    obtain ⟨l, ls, rfl, hl, hls⟩ := List.map_eq_cons_iff.1 h
    obtain rfl := List.map_eq_nil_iff.1 hls
    exact takeValueOnto_of_complete (by rw [hl]; rfl)
  | .array [] =>
    obtain ⟨l, ls, rfl, hl, hls⟩ := List.map_eq_cons_iff.1 h
    obtain ⟨l', ls', rfl, hl', hls'⟩ := List.map_eq_cons_iff.1 hls
    obtain rfl := List.map_eq_nil_iff.1 hls'
    have hopen : Expected.value.step? l.token opened = some (.firstItem, .array :: opened) := by
      rw [hl]; rfl
    have hclose : Expected.firstItem.step? l'.token (.array :: opened) =
        some (.separator, opened) := by rw [hl']; rfl
    exact (takeValueOnto_of_step hopen (by simp)).trans (takeValueOnto_of_complete hclose)
  | .array (t :: ts) =>
    obtain ⟨l, ls, rfl, hl, hls⟩ := List.map_eq_cons_iff.1 h
    obtain ⟨inner, last, rfl, hinner, hlast⟩ := List.map_eq_append_iff.1 hls
    obtain ⟨first, others, rfl, hfirst, hothers⟩ := List.map_eq_append_iff.1 hinner
    obtain ⟨l', ls', rfl, hl', hls'⟩ := List.map_eq_cons_iff.1 hlast
    obtain rfl := List.map_eq_nil_iff.1 hls'
    have hopen : Expected.value.step? l.token opened = some (.firstItem, .array :: opened) := by
      rw [hl]; rfl
    have hclose : Expected.separator.step? l'.token (.array :: opened) =
        some (.separator, opened) := by rw [hl']; rfl
    simp only [List.cons_append, List.append_assoc, List.nil_append]
    rw [takeValueOnto_of_step hopen (by simp), takeValueOnto_firstItem_append t hfirst,
      takeValueOnto_tree t hfirst, resume, takeValueOnto_items ts hothers,
      takeValueOnto_of_complete hclose]
    simp
  | .object [] =>
    obtain ⟨l, ls, rfl, hl, hls⟩ := List.map_eq_cons_iff.1 h
    obtain ⟨l', ls', rfl, hl', hls'⟩ := List.map_eq_cons_iff.1 hls
    obtain rfl := List.map_eq_nil_iff.1 hls'
    have hopen : Expected.value.step? l.token opened = some (.firstKey, .object :: opened) := by
      rw [hl]; rfl
    have hclose : Expected.firstKey.step? l'.token (.object :: opened) =
        some (.separator, opened) := by rw [hl']; rfl
    exact (takeValueOnto_of_step hopen (by simp)).trans (takeValueOnto_of_complete hclose)
  | .object ((name, t) :: ms) =>
    obtain ⟨l, ls, rfl, hl, hls⟩ := List.map_eq_cons_iff.1 h
    obtain ⟨l₁, ls₁, rfl, hl₁, hls₁⟩ := List.map_eq_cons_iff.1 hls
    obtain ⟨l₂, ls₂, rfl, hl₂, hls₂⟩ := List.map_eq_cons_iff.1 hls₁
    obtain ⟨inner, last, rfl, hinner, hlast⟩ := List.map_eq_append_iff.1 hls₂
    obtain ⟨first, others, rfl, hfirst, hothers⟩ := List.map_eq_append_iff.1 hinner
    obtain ⟨l', ls', rfl, hl', hls'⟩ := List.map_eq_cons_iff.1 hlast
    obtain rfl := List.map_eq_nil_iff.1 hls'
    have hopen : Expected.value.step? l.token opened = some (.firstKey, .object :: opened) := by
      rw [hl]; rfl
    have hclose : Expected.separator.step? l'.token (.object :: opened) =
        some (.separator, opened) := by rw [hl']; rfl
    simp only [List.cons_append, List.append_assoc, List.nil_append]
    rw [takeValueOnto_of_step hopen (by simp), takeValueOnto_name (.inl rfl) hl₁ hl₂,
      takeValueOnto_tree t hfirst, resume, takeValueOnto_members ms hothers,
      takeValueOnto_of_complete hclose]
    simp

theorem takeValueOnto_items (ts : List Tree) {value : List Lexeme}
    (h : value.map Lexeme.token = Tree.itemTokens ts) (taken rest : List Lexeme)
    (opened : List Bracket) :
    takeValueOnto taken .separator (.array :: opened) (value ++ rest) =
      takeValueOnto (value.reverse ++ taken) .separator (.array :: opened) rest := by
  match ts with
  | [] =>
    obtain rfl := List.map_eq_nil_iff.1 h
    rfl
  | t :: ts =>
    obtain ⟨l, ls, rfl, hl, hls⟩ := List.map_eq_cons_iff.1 h
    obtain ⟨item, others, rfl, hitem, hothers⟩ := List.map_eq_append_iff.1 hls
    have hcomma : Expected.separator.step? l.token (.array :: opened) =
        some (.value, .array :: opened) := by rw [hl]; rfl
    rw [List.cons_append, List.append_assoc, takeValueOnto_of_step hcomma (by simp),
      takeValueOnto_tree t hitem, resume, takeValueOnto_items ts hothers]
    simp

theorem takeValueOnto_members (ms : List (List Piece × Tree)) {value : List Lexeme}
    (h : value.map Lexeme.token = Tree.memberTokens ms) (taken rest : List Lexeme)
    (opened : List Bracket) :
    takeValueOnto taken .separator (.object :: opened) (value ++ rest) =
      takeValueOnto (value.reverse ++ taken) .separator (.object :: opened) rest := by
  match ms with
  | [] =>
    obtain rfl := List.map_eq_nil_iff.1 h
    rfl
  | (name, t) :: ms =>
    obtain ⟨l, ls, rfl, hl, hls⟩ := List.map_eq_cons_iff.1 h
    obtain ⟨l₁, ls₁, rfl, hl₁, hls₁⟩ := List.map_eq_cons_iff.1 hls
    obtain ⟨l₂, ls₂, rfl, hl₂, hls₂⟩ := List.map_eq_cons_iff.1 hls₁
    obtain ⟨member, others, rfl, hmember, hothers⟩ := List.map_eq_append_iff.1 hls₂
    have hcomma : Expected.separator.step? l.token (.object :: opened) =
        some (.key, .object :: opened) := by rw [hl]; rfl
    simp only [List.cons_append, List.append_assoc]
    rw [takeValueOnto_of_step hcomma (by simp), takeValueOnto_name (.inr rfl) hl₁ hl₂,
      takeValueOnto_tree t hmember, resume, takeValueOnto_members ms hothers]
    simp

end

theorem takeValue?_tree (t : Tree) {ls : List Lexeme} {us : List Token}
    (h : ls.map Lexeme.token = t.tokens ++ us) :
    ∃ value rest, takeValue? ls = some (value, rest) ∧ value.map Lexeme.token = t.tokens ∧
      rest.map Lexeme.token = us := by
  obtain ⟨value, rest, rfl, hvalue, hrest⟩ := List.map_eq_append_iff.1 h
  have htaken := takeValueOnto_tree t hvalue [] rest []
  rw [List.append_nil, resume, List.reverse_reverse] at htaken
  exact ⟨value, rest, htaken, hvalue, hrest⟩

end Wavefront.Json
