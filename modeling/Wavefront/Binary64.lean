set_option autoImplicit false

/-!
# Binary floating point, exactly

The non-negative numbers `mantissa * 2 ^ exponent` with at most 53 bits of mantissa and no
exponent below -1074, which are the finite double precision numbers as long as the exponent
does not pass 971. Each operation is the exact one followed by one rounding to the nearest
such number, a half going to the even mantissa.
-/
namespace Wavefront

structure Binary64 where
  mantissa : Nat
  exponent : Int
deriving DecidableEq

/-- The integer nearest to `num / den`, a half going to the even neighbour. -/
def roundHalfEven (num den : Nat) : Nat :=
  let quotient := num / den
  let rest := 2 * (num % den)
  if rest > den || (rest == den && quotient % 2 == 1) then quotient + 1 else quotient

/-- `num / den` divided by `2 ^ e`, as a ratio again. -/
def scaleRatio (num den : Nat) (e : Int) : Nat × Nat :=
  if e ≥ 0 then (num, den * Nat.pow 2 e.toNat) else (num * Nat.pow 2 (-e).toNat, den)

namespace Binary64

def minExponent : Int := -1074

def maxExponent : Int := 971

def zero : Binary64 := ⟨0, minExponent⟩

/-- The least mantissa of 53 bits. -/
def leastFull : Nat := Nat.pow 2 52

/-- `num / den` lies between `2 ^ 52` and `2 ^ 54` times `2 ^ guess`, so that one step up is
the only correction. -/
def ofRatio (num den : Nat) : Binary64 :=
  if num = 0 then zero
  else
    let guess : Int := (num.log2 : Int) - den.log2 - 53
    let (n, d) := scaleRatio num den guess
    let e := max (if n / d < 2 * leastFull then guess else guess + 1) minExponent
    let (n, d) := scaleRatio num den e
    let m := roundHalfEven n d
    if m = 2 * leastFull then ⟨leastFull, e + 1⟩ else ⟨m, e⟩

def toRatio (x : Binary64) : Nat × Nat := scaleRatio x.mantissa 1 (-x.exponent)

def isZero (x : Binary64) : Bool := x.mantissa == 0

def isFinite (x : Binary64) : Bool := x.exponent ≤ maxExponent

def ofNat (n : Nat) : Binary64 := ofRatio n 1

def add (x y : Binary64) : Binary64 :=
  let (n, d) := x.toRatio
  let (n', d') := y.toRatio
  ofRatio (n * d' + n' * d) (d * d')

def mul (x y : Binary64) : Binary64 :=
  let (n, d) := x.toRatio
  let (n', d') := y.toRatio
  ofRatio (n * n') (d * d')

def div (x y : Binary64) : Binary64 :=
  let (n, d) := x.toRatio
  let (n', d') := y.toRatio
  ofRatio (n * d') (d * n')

end Binary64

end Wavefront
