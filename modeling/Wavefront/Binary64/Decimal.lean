import Wavefront.Binary64

set_option autoImplicit false

/-!
# Decimal text of floating point numbers

`shortest` finds the fewest decimal digits that round back to the number, and of those the
nearest to it. `fixed` rounds the exact value to a number of places, a half going to the even
neighbour.
-/
namespace Wavefront.Binary64

/-- `digits * 10 ^ exponent`. -/
structure Decimal where
  digits : Nat
  exponent : Int
deriving DecidableEq

def Decimal.toRatio (x : Decimal) : Nat × Nat :=
  if x.exponent ≥ 0 then (x.digits * Nat.pow 10 x.exponent.toNat, 1)
  else (x.digits, Nat.pow 10 (-x.exponent).toNat)

/-- Every real between the halfway points to the two neighbours rounds to the number, and the
halfway points themselves do when the mantissa is even. Below a power of two the lower
neighbour is twice as near. -/
def roundsTo (x : Binary64) (y : Decimal) : Bool :=
  let (n, d) := y.toRatio
  let narrow := x.mantissa == leastFull && x.exponent > minExponent
  let (loN, loD) := if narrow
    then scaleRatio (4 * x.mantissa - 1) 1 (2 - x.exponent)
    else scaleRatio (2 * x.mantissa - 1) 1 (1 - x.exponent)
  let (hiN, hiD) := scaleRatio (2 * x.mantissa + 1) 1 (1 - x.exponent)
  if x.mantissa % 2 == 0 then loN * d ≤ n * loD && n * hiD ≤ hiN * d
  else loN * d < n * loD && n * hiD < hiN * d

/-- The exponent of the leading decimal digit. -/
def leadingExponent (x : Binary64) : Int :=
  let (n, d) := x.toRatio
  let guess := ((n.log2 : Int) - d.log2 - 1) * 30103 / 100000
  let reaches (k : Int) : Bool :=
    let (n', d') := Decimal.toRatio ⟨1, k⟩
    n' * d ≤ n * d'
  if reaches (guess + 2) then guess + 2
  else if reaches (guess + 1) then guess + 1
  else if reaches guess then guess
  else guess - 1

/-- The nearer of the two neighbours on the grid of step `10 ^ k` that rounds to the number. -/
def onGrid? (x : Binary64) (k : Int) : Option Decimal :=
  let (n, d) := x.toRatio
  let (stepN, stepD) := Decimal.toRatio ⟨1, k⟩
  let below := n * stepD / (d * stepN)
  let nearest := roundHalfEven (n * stepD) (d * stepN)
  let other := if nearest = below then below + 1 else below
  if x.roundsTo ⟨nearest, k⟩ then some ⟨nearest, k⟩
  else if x.roundsTo ⟨other, k⟩ then some ⟨other, k⟩
  else none

def shortestFrom (x : Binary64) (leading : Int) : (more digits : Nat) → Decimal
  | 0, digits => (x.onGrid? (leading - digits)).getD ⟨0, 0⟩
  | more + 1, digits =>
    match x.onGrid? (leading - digits) with
    | some y => y
    | none => shortestFrom x leading more (digits + 1)

/-- Without zeros at the end. -/
def Decimal.trim (y : Decimal) : Decimal :=
  let ds := Nat.toDigits 10 y.digits
  let zeros := (ds.reverse.takeWhile (· = '0')).length
  ⟨y.digits / Nat.pow 10 zeros, y.exponent + zeros⟩

def shortest (x : Binary64) : Decimal :=
  if x.isZero then ⟨0, 0⟩ else (shortestFrom x x.leadingExponent 16 0).trim

/-- Positional from 1e-5 up to 1e16, with at least one place; otherwise one digit before the
point and, after an `e`, the exponent with its sign. -/
def Decimal.text (y : Decimal) : String :=
  let ds := Nat.toDigits 10 y.digits
  let point := ds.length + y.exponent
  let zeros (n : Int) : List Char := List.replicate n.toNat '0'
  String.ofList <|
    if 0 ≤ y.exponent && point ≤ 16 then ds ++ zeros y.exponent ++ ['.', '0']
    else if 0 < point && point ≤ 16 then ds.take point.toNat ++ '.' :: ds.drop point.toNat
    else if -5 < point && point ≤ 0 then '0' :: '.' :: zeros (-point) ++ ds
    else ds.take 1 ++ (if ds.length = 1 then [] else '.' :: ds.drop 1) ++
      'e' :: (if 0 < point then ['+'] else []) ++ (point - 1).repr.toList

def fixed (x : Binary64) (places : Nat) : String :=
  let (n, d) := x.toRatio
  let unit := Nat.pow 10 places
  let scaled := roundHalfEven (n * unit) d
  let fraction := Nat.toDigits 10 (scaled % unit)
  String.ofList <| Nat.toDigits 10 (scaled / unit) ++
    '.' :: List.replicate (places - fraction.length) '0' ++ fraction

end Wavefront.Binary64
