/-! # Punycode

A label that is not ASCII is written as its ASCII characters, a hyphen, and the positions and
values of the others as differences in a number system with variable digits.
-/

namespace ApiTypings.Url.Punycode

def digit (n : Nat) : Char :=
  if n < 26 then Char.ofNat ('a'.toNat + n) else Char.ofNat ('0'.toNat + (n - 26))

def threshold (k bias : Nat) : Nat :=
  if k ≤ bias then 1 else if bias + 26 ≤ k then 26 else k - bias

/-- The digits of a difference, the lowest first. -/
def digits (bias : Nat) : Nat → Nat → Nat → List Char
  | 0, _, _ => []
  | fuel + 1, k, q =>
    let t := threshold k bias
    if q < t then [digit q]
    else digit (t + (q - t) % (36 - t)) :: digits bias fuel (k + 36) ((q - t) / (36 - t))

def shrink : Nat → Nat → Nat → Nat × Nat
  | 0, delta, k => (delta, k)
  | fuel + 1, delta, k => if 455 < delta then shrink fuel (delta / 35) (k + 36) else (delta, k)

/-- The bias after a difference. -/
def adapt (delta count : Nat) (first : Bool) : Nat :=
  let delta := if first then delta / 700 else delta / 2
  let (delta, k) := shrink 64 (delta + delta / count) 0
  k + 36 * delta / (delta + 38)

structure State where
  output : List Char
  delta : Nat
  bias : Nat
  handled : Nat

/-- Go past one character while the value `n` is inserted. -/
def pass (basic n : Nat) (s : State) (c : Char) : State :=
  if c.toNat < n then { s with delta := s.delta + 1 }
  else if c.toNat = n then
    { output := s.output ++ digits s.bias 64 36 s.delta
      delta := 0
      bias := adapt s.delta (s.handled + 1) (s.handled == basic)
      handled := s.handled + 1 }
  else s

/-- Insert the values in ascending order. -/
def insertAll (input : List Char) (basic : Nat) : List Nat → Nat → State → State
  | [], _, s => s
  | n :: rest, last, s =>
    let s := { s with delta := s.delta + (n - last) * (s.handled + 1) }
    let s := input.foldl (pass basic n) s
    insertAll input basic rest (n + 1) { s with delta := s.delta + 1 }

def encode (input : List Char) : List Char :=
  let basic := input.filter fun c => c.toNat < 0x80
  let others := ((input.filter fun c => 0x80 ≤ c.toNat).map Char.toNat).mergeSort.eraseDups
  basic ++ (if basic.isEmpty then [] else ['-']) ++
    (insertAll input basic.length others 0x80 ⟨[], 0, 72, basic.length⟩).output

end ApiTypings.Url.Punycode
