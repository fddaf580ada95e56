import Wavefront.Path
import Wavefront.Schedule
import Wavefront.Text.Integer

set_option autoImplicit false

/-!
# Options of a run

Each argument is understood by itself: as an option or, if it does not begin with a minus
sign, as the path of the request. The first argument that cannot be understood, or is a second
path, is the error. Of an option that is given several times the last one counts.
-/
namespace Wavefront.Command

inductive Format
  | text
  | json
deriving DecidableEq

def Format.ofText? : String → Option Format
  | "text" => some text
  | "json" => some json
  | _ => none

def Format.name : Format → String
  | text => "text"
  | json => "json"

inductive UsageError
  | invalidThreads (text : String)
  | unknownFormat (text : String)
  | unknownOption (argument : String)
  | unexpectedArgument (argument : String)
  | missingRequest
  | unknownCode (text : String)
deriving DecidableEq

def UsageError.message : UsageError → String
  | invalidThreads text => s!"invalid thread count `{text}`"
  | unknownFormat text => s!"unknown format `{text}` (expected text or json)"
  | unknownOption argument => s!"unknown option `{argument}`"
  | unexpectedArgument argument => s!"unexpected argument `{argument}`"
  | missingRequest => "missing request file"
  | unknownCode text =>
    s!"unknown error code `{text}`; codes look like E1001 (errors) or W6001 (warnings)"

inductive Argument
  | sequential
  | threads (n : Nat)
  | format (f : Format)
  | dot (path : String)
  | png (path : String)
  | request (path : String)
deriving DecidableEq

/-- What follows `start` in a text that begins with it. -/
def after? (start text : String) : Option String :=
  if start.toList.isPrefixOf text.toList then
    some (String.ofList (text.toList.drop start.toList.length))
  else none

/-- A thread count needs no more than 64 bits. -/
def threadCount? (text : String) : Option Nat :=
  (Text.count? text.toList).filter fun n => n < 18446744073709551616

def Argument.ofText (argument : String) : Except UsageError Argument :=
  if argument = "--no-parallel" then .ok sequential
  else if let some text := after? "--threads=" argument then
    match threadCount? text with
    | some n => .ok (threads n)
    | none => .error (.invalidThreads text)
  else if let some text := after? "--format=" argument then
    match Format.ofText? text with
    | some f => .ok (format f)
    | none => .error (.unknownFormat text)
  else if let some path := after? "--dot=" argument then .ok (dot path)
  else if let some path := after? "--png=" argument then .ok (png path)
  else if argument.toList.head? = some '-' then .error (.unknownOption argument)
  else .ok (request argument)

structure Options where
  settings : Settings := {}
  format : Format := .text
  /-- Where to write the dependency graph. -/
  dot? : Option String := none
  /-- Where to render it to. -/
  png? : Option String := none
deriving DecidableEq

namespace Options

def set (o : Options) : Argument → Options
  | .sequential => { o with settings := { o.settings with parallel := false } }
  | .threads n => { o with settings := { o.settings with threads := n } }
  | .format f => { o with format := f }
  | .dot path => { o with dot? := some path }
  | .png path => { o with png? := some path }
  | .request _ => o

/-- The arguments from left to right, after those that gave `request?` and `o`. -/
def readFrom (request? : Option String) (o : Options) :
    List String → Except UsageError (String × Options)
  | [] =>
    match request? with
    | none => .error .missingRequest
    | some path => .ok (path, o)
  | text :: rest =>
    match Argument.ofText text, request? with
    | .error e, _ => .error e
    | .ok (.request path), none => readFrom (some path) o rest
    | .ok (.request path), some _ => .error (.unexpectedArgument path)
    | .ok a, request? => readFrom request? (o.set a) rest

def read (arguments : List String) : Except UsageError (String × Options) :=
  readFrom none {} arguments

/-- Where the dependency graph goes: to its own path, or else next to the picture. -/
def graphPath? (o : Options) : Option String :=
  o.dot? <|> o.png?.map fun path => Path.withExtension path "dot"

end Options

end Wavefront.Command
