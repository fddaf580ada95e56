import Wavefront.Command.Run

set_option autoImplicit false

/-!
# The program

Runs the command line on the files of the machine itself. It has no renderer to start.
-/
namespace Wavefront

open Command

/-- Linux gives 21 for a folder where a file was wanted. -/
def Command.AccessError.ofSystem (e : IO.Error) : AccessError :=
  match e with
  | .noFileOrDirectory .. | .noSuchThing .. => .notFound
  | .inappropriateType _ code _ => if code = 21 then .isDirectory else .notDirectory
  | e => .other e.toString

def attempt {α : Type} (action : IO α) : IO (Except AccessError α) := do
  try
    return .ok (← action)
  catch e =>
    return .error (AccessError.ofSystem e)

def localHost (errIsTerminal : Bool) : Host IO where
  read path := attempt (IO.FS.readBinFile path)
  write path content := attempt (IO.FS.writeFile path content)
  render _ _ := return .error (.unavailable .notFound)
  timed f := do
    let start ← IO.monoNanosNow
    let result ← IO.lazyPure f
    let stop ← IO.monoNanosNow
    return (result, Elapsed.ofNanoseconds (stop - start))
  errIsTerminal := errIsTerminal

end Wavefront

def main (arguments : List String) : IO UInt32 := do
  let err ← IO.getStderr
  let host := Wavefront.localHost (← err.isTty)
  let outcome ← Wavefront.Command.execute host arguments
  (← IO.getStdout).putStr outcome.out
  err.putStr outcome.err
  return outcome.exit.toUInt32
