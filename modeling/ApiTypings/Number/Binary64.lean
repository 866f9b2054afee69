/-! # Binary floating point

Magnitudes `m * 2 ^ e` with at most 53 bits in `m` and `e` at least -1074. Every operation
computes the exact ratio and rounds it once, to the nearest magnitude, a tie to the even one.
-/

namespace ApiTypings.Number

structure Magnitude where
  mantissa : Nat
  exponent : Int
deriving DecidableEq, Repr

namespace Magnitude

def zero : Magnitude := ⟨0, -1074⟩

/-- The magnitude as a quotient of two natural numbers. -/
def num (x : Magnitude) : Nat := x.mantissa * Nat.pow 2 x.exponent.toNat

def den (x : Magnitude) : Nat := Nat.pow 2 (-x.exponent).toNat

/-- The quotient rounded to an integer, a half to the even neighbour. -/
def roundDiv (n d : Nat) : Nat :=
  let q := n / d
  let r := n % d
  if 2 * r < d then q
  else if 2 * r > d then q + 1
  else if q % 2 = 0 then q else q + 1

/-- The exponent at which `n / d` has 53 bits, or the least one. -/
def exponentFor (n d : Nat) : Int :=
  let e : Int := (n.log2 : Int) - d.log2 - 52
  let e := if n * Nat.pow 2 (-e).toNat < Nat.pow 2 52 * (d * Nat.pow 2 e.toNat) then e - 1 else e
  max e (-1074)

/-- The magnitude nearest to `n / d`. -/
def ofRatio (n d : Nat) : Magnitude :=
  if n = 0 then zero
  else
    let e := exponentFor n d
    let m := roundDiv (n * Nat.pow 2 (-e).toNat) (d * Nat.pow 2 e.toNat)
    if m = Nat.pow 2 53 then ⟨Nat.pow 2 52, e + 1⟩ else ⟨m, e⟩

def ofNat (n : Nat) : Magnitude := ofRatio n 1

def mul (x y : Magnitude) : Magnitude := ofRatio (x.num * y.num) (x.den * y.den)

def div (x y : Magnitude) : Magnitude := ofRatio (x.num * y.den) (x.den * y.num)

/-- Whether the magnitude lies beyond the largest finite one. -/
def overflows (x : Magnitude) : Bool := Nat.pow 2 1024 * x.den ≤ x.num

def isZero (x : Magnitude) : Bool := x.mantissa == 0

end Magnitude

/-- A finite floating point number; zero has a sign too. -/
structure Binary64 where
  negative : Bool
  magnitude : Magnitude
deriving DecidableEq, Repr

end ApiTypings.Number
