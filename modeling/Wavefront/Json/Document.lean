import Wavefront.Json.Literal

set_option autoImplicit false

/-!
# Writing JSON

A document is a value to be written; its members keep their order. The compact layout has no
blanks, and the indented one puts each item and each member on a line of its own, two spaces
deeper than its bracket. A layout only ever adds blanks.
-/
namespace Wavefront.Json

inductive Document
  | null
  | integer (n : Int)
  | string (text : String)
  | array (items : List Document)
  | object (members : List (String × Document))

structure Layout where
  /-- What stands before an item, or a closing bracket, at a depth. -/
  lineBreak : Nat → List Char
  afterColon : List Char

def Layout.compact : Layout := ⟨fun _ => [], []⟩

def Layout.indented : Layout := ⟨fun depth => '\n' :: List.replicate (2 * depth) ' ', [' ']⟩

namespace Document

mutual

def render (l : Layout) (depth : Nat) : Document → List Char
  | null => ['n', 'u', 'l', 'l']
  | integer n => n.repr.toList
  | string text => quote text
  | array [] => ['[', ']']
  | array (d :: ds) => '[' :: (l.lineBreak (depth + 1) ++ render l (depth + 1) d ++
      renderItems l (depth + 1) ds ++ l.lineBreak depth ++ [']'])
  | object [] => ['{', '}']
  | object ((k, d) :: ms) => '{' :: (l.lineBreak (depth + 1) ++ quote k ++ ':' :: l.afterColon ++
      render l (depth + 1) d ++ renderMembers l (depth + 1) ms ++ l.lineBreak depth ++ ['}'])

def renderItems (l : Layout) (depth : Nat) : List Document → List Char
  | [] => []
  | d :: ds => ',' :: (l.lineBreak depth ++ render l depth d ++ renderItems l depth ds)

def renderMembers (l : Layout) (depth : Nat) : List (String × Document) → List Char
  | [] => []
  | (k, d) :: ms => ',' :: (l.lineBreak depth ++ quote k ++ ':' :: l.afterColon ++
      render l depth d ++ renderMembers l depth ms)

end

def compact (d : Document) : String := String.ofList (d.render Layout.compact 0)

def indented (d : Document) : String := String.ofList (d.render Layout.indented 0)

end Document

end Wavefront.Json
