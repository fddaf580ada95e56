import Wavefront.Name
import Wavefront.Value

set_option autoImplicit false

/-!
# Stores

A store holds the values that are known. Setting a value replaces the one before it, and two
stores are equal when they hold the same values.
-/
namespace Wavefront

structure Store where
  values : NameMap Value

namespace Store

def empty : Store := ⟨∅⟩

/-- The capacity is room set aside for values, and no limit to them. -/
def withCapacity (_capacity : Nat) : Store := empty

def get? (s : Store) (n : Name) : Option Value := s.values[n]?

def contains (s : Store) (n : Name) : Bool := s.values.contains n

def set (s : Store) (n : Name) (v : Value) : Store := ⟨s.values.insert n v⟩

def size (s : Store) : Nat := s.values.size

def isEmpty (s : Store) : Bool := s.values.isEmpty

/-- In the order of the names. -/
def toList (s : Store) : List (Name × Value) := s.values.toList

theorem ext {s t : Store} (h : ∀ n, s.get? n = t.get? n) : s = t := by
  cases s
  cases t
  congr
  exact Std.ExtTreeMap.ext_getElem? h

theorem get?_empty (n : Name) : empty.get? n = none := by simp [get?, empty]

theorem contains_eq_isSome (s : Store) (n : Name) : s.contains n = (s.get? n).isSome := by
  simp [contains, get?]

theorem get?_set (s : Store) (n m : Name) (v : Value) :
    (s.set n v).get? m = if n = m then some v else s.get? m := by
  simp [get?, set, Std.ExtTreeMap.getElem?_insert]

end Store

end Wavefront
