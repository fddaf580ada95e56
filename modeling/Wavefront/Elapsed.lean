import Wavefront.Binary64.Decimal

set_option autoImplicit false

/-!
# Elapsed time

Whole nanoseconds below a microsecond, and above it microseconds, milliseconds or seconds with
two decimals. The decimals are those of the time in seconds as a floating point number.
-/
namespace Wavefront

structure Elapsed where
  seconds : Nat
  nanoseconds : Nat
deriving DecidableEq

namespace Elapsed

def ofNanoseconds (n : Nat) : Elapsed := ⟨n / 1000000000, n % 1000000000⟩

def total (t : Elapsed) : Nat := t.seconds * 1000000000 + t.nanoseconds

def toBinary64 (t : Elapsed) : Binary64 :=
  (Binary64.ofNat t.seconds).add ((Binary64.ofNat t.nanoseconds).div (Binary64.ofNat 1000000000))

def text (t : Elapsed) : String :=
  if t.total < 1000 then s!"{t.total} ns"
  else if t.total < 1000000 then s!"{(t.toBinary64.mul (Binary64.ofNat 1000000)).fixed 2} µs"
  else if t.total < 1000000000 then s!"{(t.toBinary64.mul (Binary64.ofNat 1000)).fixed 2} ms"
  else s!"{t.toBinary64.fixed 2}s"

end Elapsed

end Wavefront
