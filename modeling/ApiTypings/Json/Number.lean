import ApiTypings.Json.Basic

/-! # Numbers in documents

Digits are collected as long as they fit into 64 bits; those that follow only count for the
power of ten. A number without fraction and exponent that fits into 64 bits is an integer, any
other is the product or quotient of its digits and a power of ten in floating point.
-/

namespace ApiTypings.Json

open Number

/-- The digits collected so far, how many came after the last that was collected, and how many
were collected at all. -/
structure Significand where
  value : Nat
  taken : Nat
  dropped : Nat

namespace Significand

/-- Collect digits until one no longer fits; the others are dropped. -/
def collect (s : Significand) : List Nat → Significand
  | [] => s
  | d :: rest =>
    if s.value * 10 + d < Nat.pow 2 64 then
      collect ⟨s.value * 10 + d, s.taken + 1, s.dropped⟩ rest
    else ⟨s.value, s.taken, s.dropped + (rest.length + 1)⟩

end Significand

def powerOfTen (k : Nat) : Magnitude := .ofNat (Nat.pow 10 k)

/-- Divide by `10 ^ k`, in steps of at most `10 ^ 308`. After two full steps nothing is left of
a number of 64 bits. -/
def scaleDown (x : Magnitude) (k : Nat) : Magnitude :=
  if k ≤ 308 then x.div (powerOfTen k)
  else (x.div (powerOfTen 308)).div (powerOfTen (min (k - 308) 308))

/-- `value * 10 ^ exponent`, or `none` if it is out of range. -/
def scale (value : Nat) (exponent : Int) : Option Magnitude :=
  let x := Magnitude.ofNat value
  if exponent < 0 then some (scaleDown x exponent.natAbs)
  else if 308 < exponent then (if x.isZero then some x else none)
  else
    let product := x.mul (powerOfTen exponent.toNat)
    if product.overflows then none else some product

/-- The parts of a number's text: sign, digits before and after the point, exponent. -/
structure NumberText where
  negative : Bool
  whole : List Nat
  fraction : List Nat
  exponent : Option Int

namespace NumberText

/-- The whole number, if the text is one and it fits into 64 bits. Minus zero does not count. -/
def integer? (t : NumberText) (s : Significand) : Option Int :=
  if t.fraction.isEmpty && t.exponent.isNone && s.dropped == 0 then
    if !t.negative then some s.value
    else if 0 < s.value ∧ s.value ≤ Nat.pow 2 63 then some (-(s.value : Int))
    else none
  else none

/-- The number, or `none` if it is out of range. -/
def value? (t : NumberText) : Option JsonNumber :=
  let whole := Significand.collect ⟨0, 0, 0⟩ t.whole
  match t.integer? whole with
  | some n => some (.integer n)
  | none =>
    let all := Significand.collect ⟨whole.value, 0, 0⟩ t.fraction
    let exponent : Int := (whole.dropped : Int) - all.taken + t.exponent.getD 0
    (scale all.value exponent).map fun x => .float ⟨t.negative, x⟩

end NumberText

end ApiTypings.Json
