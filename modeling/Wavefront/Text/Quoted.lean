import Wavefront.Text.Hidden

set_option autoImplicit false

/-!
# Quoted text

A text between double quotes, with what could not be seen in it made visible.
-/
namespace Wavefront.Text

/-- Four characters have a letter or a digit of their own, and the quote and the backslash stand
behind a backslash. Of the others those that do not show are given by their code point. -/
def quotedChar : Char → List Char
  | '\x00' => ['\\', '0']
  | '\t' => ['\\', 't']
  | '\r' => ['\\', 'r']
  | '\n' => ['\\', 'n']
  | '\\' => ['\\', '\\']
  | '"' => ['\\', '"']
  | c =>
    if isHidden c then ['\\', 'u', '\x7b'] ++ Nat.toDigits 16 c.toNat ++ ['\x7d'] else [c]

def quoted (text : String) : String :=
  String.ofList ('"' :: text.toList.flatMap quotedChar ++ ['"'])

end Wavefront.Text
