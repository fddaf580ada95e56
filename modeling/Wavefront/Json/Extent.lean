import Wavefront.Json.Lexeme

set_option autoImplicit false

/-!
# The extent of a value

`takeValue?` splits off the lexemes of the one value a list of lexemes begins with, whatever
the value says. The brackets that are open form a stack, so a value may nest as deep as it
likes.
-/
namespace Wavefront.Json

inductive Bracket
  | array
  | object
deriving DecidableEq

/-- What the next lexeme has to be. `firstItem` and `firstKey` also admit the closing bracket. -/
inductive Expected
  | value
  | firstItem
  | firstKey
  | key
  | colon
  | separator
deriving DecidableEq

def Token.isScalar : Token → Bool
  | null | boolean _ | number _ | string _ => true
  | _ => false

def beginValue (t : Token) (opened : List Bracket) : Option (Expected × List Bracket) :=
  match t with
  | .openBracket => some (.firstItem, .array :: opened)
  | .openBrace => some (.firstKey, .object :: opened)
  | t => if t.isScalar then some (.separator, opened) else none

def beginKey (t : Token) (opened : List Bracket) : Option (Expected × List Bracket) :=
  match t with
  | .string _ => some (.colon, opened)
  | _ => none

/-- What is expected after the token `t`, and the brackets that are open then. -/
def Expected.step? (t : Token) : Expected → List Bracket → Option (Expected × List Bracket)
  | .value, opened => beginValue t opened
  | .firstItem, opened =>
    if t = .closeBracket then some (.separator, opened.tail) else beginValue t opened
  | .firstKey, opened =>
    if t = .closeBrace then some (.separator, opened.tail) else beginKey t opened
  | .key, opened => beginKey t opened
  | .colon, opened => if t = .colon then some (.value, opened) else none
  | .separator, .array :: opened =>
    if t = .comma then some (.value, .array :: opened)
    else if t = .closeBracket then some (.separator, opened)
    else none
  | .separator, .object :: opened =>
    if t = .comma then some (.key, .object :: opened)
    else if t = .closeBrace then some (.separator, opened)
    else none
  | .separator, [] => none

/-- The value is complete once a separator is expected with no bracket open. -/
def takeValueOnto (taken : List Lexeme) (e : Expected) (opened : List Bracket) :
    List Lexeme → Option (List Lexeme × List Lexeme)
  | [] => none
  | l :: rest =>
    match e.step? l.token opened with
    | none => none
    | some (.separator, []) => some ((l :: taken).reverse, rest)
    | some (e', opened') => takeValueOnto (l :: taken) e' opened' rest

def takeValue? (ls : List Lexeme) : Option (List Lexeme × List Lexeme) :=
  takeValueOnto [] .value [] ls

theorem takeValueOnto_eq {taken value rest ls : List Lexeme} {e : Expected}
    {opened : List Bracket} (h : takeValueOnto taken e opened ls = some (value, rest)) :
    taken.reverse ++ ls = value ++ rest ∧ rest.length < ls.length := by
  induction ls generalizing taken e opened with
  | nil => simp [takeValueOnto] at h
  | cons l ls ih =>
    unfold takeValueOnto at h
    split at h
    · simp at h
    · obtain ⟨rfl, rfl⟩ := Prod.mk.inj (Option.some.inj h)
      simp
    · obtain ⟨heq, hlt⟩ := ih h
      refine ⟨by simpa using heq, ?_⟩
      simp only [List.length_cons]
      omega

theorem takeValue?_eq {value rest ls : List Lexeme} (h : takeValue? ls = some (value, rest)) :
    ls = value ++ rest ∧ rest.length < ls.length := by
  simpa using takeValueOnto_eq h

/-- The source of some lexemes, without the blanks in front of the first. -/
def sourceOf : List Lexeme → String
  | [] => ""
  | l :: ls => String.ofList (l.token.source ++ ls.flatMap Lexeme.source)

end Wavefront.Json
