import Wavefront.Operation
import Wavefront.Store

set_option autoImplicit false

/-!
# Printouts

What the prints of an operation list come to, in their order. A variable without a value prints
as zero and is broken, once for each of its prints.
-/
namespace Wavefront

structure Printed where
  name : Name
  value : Value
deriving DecidableEq

structure Printout where
  items : List Printed
  broken : List Name
deriving DecidableEq

namespace Printout

def ofOperations (ops : List Operation) (s : Store) : Printout :=
  let printed := ops.filterMap Operation.printed?
  ⟨printed.map fun n => ⟨n, (s.get? n).getD 0⟩, printed.filter fun n => !s.contains n⟩

def isComplete (p : Printout) : Bool := p.broken.isEmpty

/-- As printed by the first of its prints. -/
def value? (p : Printout) (n : Name) : Option Value :=
  (p.items.find? fun item => item.name = n).map Printed.value

end Printout

/-- Nothing to warn of if nothing is broken. -/
def warning? (broken : List Name) : Option String :=
  if broken.isEmpty then none
  else
    let names := ", ".intercalate (broken.map Name.text)
    some s!"WARNING: variable(s) {names} called for print before calculation"

def Printout.warning? (p : Printout) : Option String := Wavefront.warning? p.broken

end Wavefront
