/-! # Digits

Numbers in notations with up to sixteen digits. Letters of either case are read as digits;
written are capitals.
-/

namespace ApiTypings.Text

def hexValue? (c : Char) : Option Nat :=
  if c.isDigit then some (c.toNat - '0'.toNat)
  else if 'a' ≤ c && c ≤ 'f' then some (c.toNat - 'a'.toNat + 10)
  else if 'A' ≤ c && c ≤ 'F' then some (c.toNat - 'A'.toNat + 10)
  else none

/-- The number of a text of digits in a base, `none` if something else stands in it. -/
def digitsIn (base : Nat) (s : List Char) : Option Nat :=
  s.foldlM (fun value c => do
    let d ← hexValue? c
    if d < base then some (value * base + d) else none) 0

def hexDigit (n : Nat) : Char :=
  if n < 10 then Char.ofNat (n + '0'.toNat) else Char.ofNat (n - 10 + 'A'.toNat)

/-- The last `width` digits of a number. -/
def hexDigits : Nat → Nat → List Char
  | 0, _ => []
  | width + 1, n => hexDigits width (n / 16) ++ [hexDigit (n % 16)]

end ApiTypings.Text
