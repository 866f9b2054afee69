import ApiTypings.Number.Binary64

/-! # Shortest decimal digits

A magnitude is written with the fewest decimal digits that round back to it, and among those
with the digits nearest to it.
-/

namespace ApiTypings.Number

/-- The decimal number `d₀.d₁d₂… * 10 ^ exponent`. -/
structure Decimal where
  digits : List Nat
  exponent : Int
deriving DecidableEq, Repr

def digitsOf (n : Nat) : List Nat :=
  (Nat.toDigits 10 n).map fun c => c.toNat - '0'.toNat

namespace Magnitude

/-- The exponent of the leading decimal digit of a positive magnitude. -/
def decimalExponent (x : Magnitude) : Int :=
  if x.den ≤ x.num then ((digitsOf (x.num / x.den)).length : Int) - 1
  else
    let k := (digitsOf (x.den / x.num)).length
    if x.den ≤ x.num * Nat.pow 10 (k - 1) then 1 - (k : Int) else -(k : Int)

/-- Four times the distance to the lower end of the numbers that round to `x`, in units of the
last bit; the magnitudes below a power of two lie twice as dense. -/
def lowerGap (x : Magnitude) : Nat :=
  if x.mantissa = Nat.pow 2 52 ∧ -1074 < x.exponent then 1 else 2

/-- Whether `n / d` rounds to `x`. The ends of the interval belong to it if the mantissa is
even. -/
def roundsTo (x : Magnitude) (n d : Nat) : Bool :=
  let up := x.exponent.toNat
  let down := (-x.exponent).toNat
  let low := (4 * x.mantissa - x.lowerGap) * Nat.pow 2 up * d
  let high := (4 * x.mantissa + 2) * Nat.pow 2 up * d
  let value := 4 * n * Nat.pow 2 down
  if x.mantissa % 2 = 0 then low ≤ value && value ≤ high else low < value && value < high

/-- The best decimal of `count` digits that rounds to `x`, if there is one. -/
def decimalOf? (x : Magnitude) (count : Nat) : Option Decimal :=
  let unit : Int := x.decimalExponent - (count - 1 : Nat)
  let scaled := x.num * Nat.pow 10 (-unit).toNat
  let scale := x.den * Nat.pow 10 unit.toNat
  let below := scaled / scale
  let above := below + 1
  let fits := fun n : Nat => x.roundsTo (n * Nat.pow 10 unit.toNat) (Nat.pow 10 (-unit).toNat)
  let nearest := roundDiv scaled scale
  let best :=
    if fits nearest then some nearest
    else if fits below then some below
    else if fits above then some above
    else none
  best.map fun n =>
    let ds := digitsOf n
    ⟨ds, unit + (ds.length - 1 : Nat)⟩

/-- The shortest decimal of a positive magnitude; 17 digits always suffice. -/
def shortest (x : Magnitude) : Decimal :=
  ((List.range 17).findSome? fun i => x.decimalOf? (i + 1)).getD ⟨[0], 0⟩

end Magnitude

/-- The digits without the zeros at their end. -/
def Decimal.trimmed (d : Decimal) : List Nat :=
  (d.digits.reverse.dropWhile (· == 0)).reverse

end ApiTypings.Number
