import Wavefront.Operation
import Wavefront.Text.Blank

set_option autoImplicit false

/-!
# Scripts

The line form of an operation list: `calc <var> = <left> <op> <right>` or `print <var>`,
one to a line, words between blanks. A line without words, or whose first word starts
with `#`, says nothing. Reading stops at the first line that says something else.
-/
namespace Wavefront.Script

inductive Fault
  | unknownKeyword (word : String)
  | malformedCalc
  | malformedPrint
deriving DecidableEq

/-- Lines are numbered from 1. -/
structure Error where
  line : Nat
  fault : Fault
deriving DecidableEq

def Error.message (e : Error) : String :=
  match e.fault with
  | .unknownKeyword word =>
    s!"line {e.line}: unknown operation `{word}` (expected `calc` or `print`)"
  | .malformedCalc =>
    s!"line {e.line}: malformed calc, expected `calc <var> = <left> <op> <right>`"
  | .malformedPrint => s!"line {e.line}: malformed print, expected `print <var>`"

def isComment (word : List Char) : Bool := word.head? == some '#'

/-- What one line says, by its words. -/
def ofWords (words : List (List Char)) : Except Fault (Option Operation) :=
  match words with
  | [] => .ok none
  | keyword :: arguments =>
    if isComment keyword then .ok none
    else match String.ofList keyword, arguments.map String.ofList with
      | "calc", [target, "=", left, symbol, right] =>
        .ok (some (.define (Calc.ofTexts target left symbol right)))
      | "calc", _ => .error .malformedCalc
      | "print", [target] => .ok (some (.print ⟨target⟩))
      | "print", _ => .error .malformedPrint
      | word, _ => .error (.unknownKeyword word)

/-- The operations of the lines from number `n` on. -/
def ofLines (n : Nat) : List (List Char) → Except Error (List Operation)
  | [] => .ok []
  | line :: rest =>
    match ofWords (Text.words line) with
    | .error fault => .error ⟨n, fault⟩
    | .ok none => ofLines (n + 1) rest
    | .ok (some operation) => (ofLines (n + 1) rest).map (operation :: ·)

def read (source : String) : Except Error (List Operation) :=
  ofLines 1 (Text.lines source.toList)

end Wavefront.Script
