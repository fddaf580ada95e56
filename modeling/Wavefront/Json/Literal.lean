set_option autoImplicit false

/-!
# String literals of JSON

Between its quotes a literal is a list of pieces: a character that stands for itself, a
backslash with one letter, or a backslash with `u` and four hexadecimal digits, a unit of
UTF-16. `Piece.scan?` takes the pieces up to the closing quote and asks nothing of the units;
`Piece.decode` gives the text and refuses a surrogate without its partner. `Piece.ofChar` is
the piece that a character is written as.
-/
namespace Wavefront.Json

inductive Piece
  | plain (c : Char)
  | short (letter : Char)
  | unit (a b c d : Char)
deriving DecidableEq

/-- Why a literal stands for no text. -/
inductive SurrogateFault
  | alone
  | cutOff
deriving DecidableEq

namespace Piece

def source : Piece → List Char
  | plain c => [c]
  | short e => ['\\', e]
  | unit a b c d => ['\\', 'u', a, b, c, d]

def isShort (c : Char) : Bool := c ∈ ['"', '\\', '/', 'b', 'f', 'n', 'r', 't']

def isHex (c : Char) : Bool :=
  c.isDigit || ('a' ≤ c && c ≤ 'f') || ('A' ≤ c && c ≤ 'F')

/-- A character below the space may not stand for itself. -/
def isControl (c : Char) : Bool := c.toNat < 0x20

/-- The pieces before the closing quote, after those already found, and what follows it. -/
def scanOnto (found : List Piece) : List Char → Option (List Piece × List Char)
  | [] => none
  | '"' :: rest => some (found.reverse, rest)
  | '\\' :: 'u' :: a :: b :: c :: d :: rest =>
    if [a, b, c, d].all isHex then scanOnto (unit a b c d :: found) rest else none
  | '\\' :: e :: rest => if isShort e then scanOnto (short e :: found) rest else none
  | c :: rest => if isControl c || c == '\\' then none else scanOnto (plain c :: found) rest

def scan? (cs : List Char) : Option (List Piece × List Char) := scanOnto [] cs

theorem scanOnto_eq {found pieces : List Piece} {cs rest : List Char}
    (h : scanOnto found cs = some (pieces, rest)) :
    found.reverse.flatMap source ++ cs = pieces.flatMap source ++ '"' :: rest := by
  fun_induction scanOnto found cs with
  | case1 | case4 | case6 | case7 => simp_all
  | case2 => simp_all
  | case3 found a b c d rest' hh ih => simpa [source] using ih h
  | case5 found e rest' hn hs ih => simpa [source] using ih h
  | case8 found c rest' hq hu hs hc ih => simpa [source] using ih h

theorem scan?_eq {pieces : List Piece} {cs rest : List Char} (h : scan? cs = some (pieces, rest)) :
    cs = pieces.flatMap source ++ '"' :: rest := by
  simpa using scanOnto_eq h

def hexValue (c : Char) : Nat :=
  if c.isDigit then c.toNat - '0'.toNat
  else if 'a' ≤ c then c.toNat - 'a'.toNat + 10
  else c.toNat - 'A'.toNat + 10

def unitValue (a b c d : Char) : Nat :=
  [a, b, c, d].foldl (fun n x => 16 * n + hexValue x) 0

def shortValue : Char → Char
  | 'b' => '\x08'
  | 'f' => '\x0c'
  | 'n' => '\n'
  | 'r' => '\r'
  | 't' => '\t'
  | c => c

def isHighSurrogate (n : Nat) : Bool := 0xd800 ≤ n && n ≤ 0xdbff

def isLowSurrogate (n : Nat) : Bool := 0xdc00 ≤ n && n ≤ 0xdfff

def ofSurrogates (high low : Nat) : Char :=
  Char.ofNat (0x10000 + (high - 0xd800) * 0x400 + (low - 0xdc00))

def decodeOnto (text : List Char) : List Piece → Except SurrogateFault (List Char)
  | [] => .ok text.reverse
  | plain c :: rest => decodeOnto (c :: text) rest
  | short e :: rest => decodeOnto (shortValue e :: text) rest
  | unit a b c d :: rest =>
    let n := unitValue a b c d
    if isLowSurrogate n then .error .alone
    else if isHighSurrogate n then
      match rest with
      | unit a' b' c' d' :: rest' =>
        let low := unitValue a' b' c' d'
        if isLowSurrogate low then decodeOnto (ofSurrogates n low :: text) rest'
        else .error .alone
      | _ => .error .cutOff
    else decodeOnto (Char.ofNat n :: text) rest

def decode (pieces : List Piece) : Except SurrogateFault String :=
  (decodeOnto [] pieces).map String.ofList

def hexDigit (n : Nat) : Char := Nat.digitChar n

/-- The quote, the backslash and the characters below the space are escaped, the last by a
letter where there is one, and nothing else is. -/
def ofChar (c : Char) : Piece :=
  match c with
  | '"' => short '"'
  | '\\' => short '\\'
  | '\x08' => short 'b'
  | '\x0c' => short 'f'
  | '\n' => short 'n'
  | '\r' => short 'r'
  | '\t' => short 't'
  | c =>
    if isControl c then unit '0' '0' (hexDigit (c.toNat / 16)) (hexDigit (c.toNat % 16))
    else plain c

end Piece

def quote (text : String) : List Char :=
  '"' :: text.toList.flatMap (fun c => (Piece.ofChar c).source) ++ ['"']

end Wavefront.Json
