import Wavefront.Json.Reader
import Wavefront.Text.Quoted

set_option autoImplicit false

/-!
# What is said about JSON that does not fit
-/
namespace Wavefront.Json

def Found.text : Found → String
  | null => "null"
  | boolean b => s!"boolean `{b}`"
  | number (.integer n) => s!"integer `{n.repr}`"
  | number (.floating negative x) =>
    let sign := if negative then "-" else ""
    s!"floating point `{sign}{x.shortest.text}`"
  | string text => s!"string {Text.quoted text}"
  | sequence => "sequence"
  | map => "map"

def SurrogateFault.text : SurrogateFault → String
  | alone => "lone leading surrogate in hex escape"
  | cutOff => "unexpected end of hex escape"

def Misfit.message : Misfit → String
  | wrongType found expected => s!"invalid type: {found.text}, expected {expected}"
  | tooLarge n => s!"invalid value: integer `{n.repr}`, expected i64"
  | missing field => s!"missing field `{field}`"
  | repeated field => s!"duplicate field `{field}`"
  | tooShort length expected => s!"invalid length {length}, expected {expected}"
  | operand source => s!"operand must be a string or a number, found `{source}`"
  | surrogate fault => fault.text

def Fault.message : Fault → String
  | malformed => "malformed document"
  | misfit m => m.message

end Wavefront.Json
