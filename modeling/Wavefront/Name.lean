import Std.Data.ExtTreeMap
import Std.Data.ExtTreeSet

set_option autoImplicit false

/-!
# Variable names

A name is any text, the empty one included. Names are ordered by code point, which is
also the order of their UTF-8 bytes.
-/
namespace Wavefront

structure Name where
  text : String
deriving DecidableEq

namespace Name

def isEmpty (n : Name) : Bool := n.text.isEmpty

instance : Ord Name := ⟨compareOn Name.text⟩

theorem compare_eq (a b : Name) : compare a b = compare a.text b.text := rfl

instance : Std.TransOrd Name := inferInstanceAs (Std.TransCmp (compareOn Name.text))

instance : Std.LawfulEqOrd Name where
  compare_self {a} := Std.compare_self (α := String) (a := a.text)
  eq_of_compare {a b} h := by
    have ht : a.text = b.text := Std.compare_eq_iff_eq.1 h
    cases a; cases b; simp_all

end Name

/-- Sets of names: equal as soon as they have the same members. -/
abbrev NameSet := Std.ExtTreeSet Name

abbrev NameMap (β : Type) := Std.ExtTreeMap Name β

end Wavefront
