import Wavefront.Diagnostic.Terminal
import Wavefront.Elapsed

set_option autoImplicit false

/-!
# Hosts

All that a command wants from the machine it runs on: read a file, write a file, have a graph
rendered, take the time, and know whether standard error is a terminal.
-/
namespace Wavefront.Command

inductive AccessError
  | notFound
  | notDirectory
  | isDirectory
  | nameTooLong
  | notText
  | other (text : String)
deriving DecidableEq

def AccessError.message : AccessError → String
  | notFound => "No such file or directory (os error 2)"
  | notDirectory => "Not a directory (os error 20)"
  | isDirectory => "Is a directory (os error 21)"
  | nameTooLong => "File name too long (os error 36)"
  | notText => "stream did not contain valid UTF-8"
  | other text => text

/-- A renderer cannot be started, or it ends with an exit code other than zero. -/
inductive RenderError
  | unavailable (e : AccessError)
  | failed (exit : Nat)
deriving DecidableEq

def RenderError.message : RenderError → String
  | unavailable e => s!"cannot access `dot`: {e.message}"
  | failed exit => s!"`dot` exited with exit status: {exit}"

structure Host (m : Type → Type) where
  read : (path : String) → m (Except AccessError ByteArray)
  write : (path content : String) → m (Except AccessError Unit)
  render : (dot png : String) → m (Except RenderError Unit)
  timed : {α : Type} → (Unit → α) → m (α × Elapsed)
  errIsTerminal : Bool

/-- Commands report in colour on a terminal and nowhere else. -/
def Host.color {m : Type → Type} (host : Host m) : Bool :=
  Diagnostic.ColorMode.auto.useColor host.errIsTerminal

end Wavefront.Command
