import Wavefront.Diagnostic

set_option autoImplicit false

/-!
# Diagnostics on a terminal

Each diagnostic is a headline, a line that says where, and a line for each note. Colour wraps
the severity, the message and the word before a note in escape sequences and changes nothing
else.
-/
namespace Wavefront.Diagnostic

inductive ColorMode
  | auto
  | always
  | never
deriving DecidableEq

/-- Whether the output is a terminal matters only if nothing else was asked for. -/
def ColorMode.useColor (m : ColorMode) (isTerminal : Bool) : Bool :=
  match m with
  | auto => isTerminal
  | always => true
  | never => false

inductive Style
  | severity (s : Severity)
  | bold
deriving DecidableEq

def Style.sequence : Style → String
  | severity .error => "\x1b[1;31m"
  | severity .warning => "\x1b[1;33m"
  | severity .note => "\x1b[1;36m"
  | bold => "\x1b[1m"

def plain : String := "\x1b[0m"

def Style.paint (s : Style) (color : Bool) (text : String) : String :=
  if color then s.sequence ++ text ++ plain else text

def whereText (d : Diagnostic) : String :=
  match d.subject?, d.index? with
  | some n, some i => s!"  --> variable `{n.text}`, operation #{i}\n"
  | some n, none => s!"  --> variable `{n.text}`\n"
  | none, some i => s!"  --> operation #{i}\n"
  | none, none => ""

def noteText (color : Bool) (note : String) : String :=
  "  = " ++ Style.bold.paint color "note" ++ ": " ++ note ++ "\n"

def terminalText (color : Bool) (d : Diagnostic) : String :=
  (Style.severity d.severity).paint color d.severity.text ++ s!"[{d.code.text}]: " ++
    Style.bold.paint color d.message ++ "\n" ++ d.whereText ++
    String.join (d.notes.map (noteText color))

def pluralSuffix (n : Nat) : String := if n = 1 then "" else "s"

/-- Nothing is said of what there is none of. -/
def Summary.terminalText (color : Bool) (s : Summary) : String :=
  (if s.errors = 0 then ""
    else (Style.severity .error).paint color "error" ++
      s!": request rejected with {s.errors} error{pluralSuffix s.errors}\n") ++
  (if s.warnings = 0 then ""
    else (Style.severity .warning).paint color "warning" ++
      s!": {s.warnings} warning{pluralSuffix s.warnings} emitted\n")

def Instruction.terminalText (color : Bool) : Instruction → String
  | emit d => d.terminalText color
  | emitAll ds =>
    String.join (ds.map (Diagnostic.terminalText color)) ++
      (Summary.ofList ds).terminalText color
  | summary s => s.terminalText color
  | flush => ""

def terminalReport (color : Bool) (instructions : List Instruction) : String :=
  String.join (instructions.map (Instruction.terminalText color))

end Wavefront.Diagnostic
