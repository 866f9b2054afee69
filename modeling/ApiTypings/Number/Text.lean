import ApiTypings.Number.Shortest

/-! # Decimal text

Two styles for floating point numbers. Both end a whole number in `.0`; one of them turns to an
exponent for numbers that are very large or very small.
-/

namespace ApiTypings.Number

def digitText (ds : List Nat) : String :=
  String.ofList (ds.map Nat.digitChar)

/-- Digits around a decimal point, filled up with zeros, with at least one digit on each side. -/
def positional (ds : List Nat) (exponent : Int) : String :=
  if exponent < 0 then
    "0." ++ digitText (List.replicate (-exponent - 1).toNat 0 ++ ds)
  else
    let whole := exponent.toNat + 1
    let fraction := ds.drop whole
    digitText ((ds ++ List.replicate (whole - ds.length) 0).take whole) ++ "." ++
      (if fraction.isEmpty then "0" else digitText fraction)

/-- One digit, the others after a point, and a signed exponent. -/
def scientific (ds : List Nat) (exponent : Int) : String :=
  let fraction := ds.drop 1
  digitText (ds.take 1) ++ (if fraction.isEmpty then "" else "." ++ digitText fraction) ++ "e" ++
    (if exponent < 0 then "-" else "+") ++ toString exponent.natAbs

namespace Binary64

def withSign (x : Binary64) (text : Decimal → String) : String :=
  (if x.negative then "-" else "") ++
    (if x.magnitude.isZero then "0.0" else text x.magnitude.shortest)

/-- Positional from 0.00001 up to below 10 ^ 16, with an exponent elsewhere. -/
def compactText (x : Binary64) : String :=
  x.withSign fun d =>
    if -5 ≤ d.exponent ∧ d.exponent ≤ 15 then positional d.trimmed d.exponent
    else scientific d.trimmed d.exponent

/-- Positional for every number. -/
def plainText (x : Binary64) : String :=
  x.withSign fun d => positional d.trimmed d.exponent

end Binary64

end ApiTypings.Number
