import ApiTypings.Text.Case
import ApiTypings.Url.Percent
import ApiTypings.Url.Punycode

/-! # Hosts

A host is a domain, an address of four or of sixteen bytes, or, outside the special schemes, any
text without delimiters.
-/

namespace ApiTypings

inductive UrlError where
  | emptyHost
  | invalidDomain
  | invalidPort
  | invalidIpv4
  | invalidIpv6
  | invalidCharacter
  | relativeWithoutBase
  | baseCannotBeBase
deriving DecidableEq, Repr

def UrlError.message : UrlError → String
  | .emptyHost => "empty host"
  | .invalidDomain => "invalid international domain name"
  | .invalidPort => "invalid port number"
  | .invalidIpv4 => "invalid IPv4 address"
  | .invalidIpv6 => "invalid IPv6 address"
  | .invalidCharacter => "invalid domain character"
  | .relativeWithoutBase => "relative URL without a base"
  | .baseCannotBeBase => "relative URL with a cannot-be-a-base base"

namespace Url

/-! ## Four bytes -/

/-- A part of an address in decimal, octal or hexadecimal notation. -/
def ipv4Number : List Char → Option Nat
  | [] => none
  | '0' :: x :: rest =>
    if x = 'x' ∨ x = 'X' then Text.digitsIn 16 rest else Text.digitsIn 8 (x :: rest)
  | s => Text.digitsIn 10 s

def labels (s : List Char) : List (List Char) := s.splitOn '.'

/-- The labels without the empty one behind a final dot. -/
def properLabels (s : List Char) : List (List Char) :=
  let ls := labels s
  if 1 < ls.length && ls.getLast? == some [] then ls.dropLast else ls

/-- Whether a domain looks like an address of four bytes: its last label is a number. -/
def endsInNumber (s : List Char) : Bool :=
  match (properLabels s).getLast? with
  | some l => (!l.isEmpty && l.all Char.isDigit) || (ipv4Number l).isSome
  | none => false

/-- The four bytes; the last part fills all bytes that are left. -/
def ipv4? (s : List Char) : Option (List Nat) := do
  let parts ← (properLabels s).mapM ipv4Number
  let last ← parts.getLast?
  let first := parts.dropLast
  if 4 < parts.length || first.any (255 < ·) || Nat.pow 256 (5 - parts.length) ≤ last then none
  let tail := (List.range (5 - parts.length)).reverse.map fun i => last / Nat.pow 256 i % 256
  return first ++ tail

def ipv4Text (bytes : List Nat) : List Char :=
  ['.'].intercalate (bytes.map (Nat.toDigits 10))

/-! ## Eight groups of two bytes -/

/-- A part of an address of four bytes that ends one of sixteen. -/
def ipv4Part (s : List Char) : Option Nat :=
  if s.isEmpty || (1 < s.length && s.head? == some '0') then none
  else if s.all Char.isDigit then (Text.digitsIn 10 s).filter (· ≤ 255) else none

def group? (s : List Char) : Option Nat :=
  if s.isEmpty || 4 < s.length then none else Text.digitsIn 16 s

/-- The groups of a text between colons; the last may be an address of four bytes. -/
def groups? : List (List Char) → Option (List Nat)
  | [] => some []
  | [last] =>
    if last.contains '.' then do
      match ← (labels last).mapM ipv4Part with
      | [a, b, c, d] => some [a * 256 + b, c * 256 + d]
      | _ => none
    else (group? last).map fun g => [g]
  | part :: rest => do
    let g ← group? part
    let gs ← groups? rest
    return g :: gs

def groupsOf (s : List Char) : Option (List Nat) :=
  if s.isEmpty then some [] else groups? (s.splitOn ':')

/-- The texts before and after the first double colon. -/
def splitDoubleColon : List Char → Option (List Char × List Char)
  | ':' :: ':' :: rest => some ([], rest)
  | c :: rest => (splitDoubleColon rest).map fun (a, b) => (c :: a, b)
  | [] => none

/-- The eight groups; a double colon stands for as many zeros as are missing. -/
def ipv6? (s : List Char) : Option (List Nat) := do
  match splitDoubleColon s with
  | some (left, right) =>
    let left ← if left.contains '.' then none else groupsOf left
    let right ← groupsOf right
    let missing := 8 - (left.length + right.length)
    if missing = 0 then none
    else some (left ++ List.replicate missing 0 ++ right)
  | none =>
    let gs ← groupsOf s
    if gs.length = 8 then some gs else none

/-- The length of the longest run of zeros, at most. -/
def zerosAt (gs : List Nat) (i : Nat) : Nat := ((gs.drop i).takeWhile (· == 0)).length

/-- Where the first of the longest runs of at least two zeros starts. -/
def compressAt (gs : List Nat) : Option (Nat × Nat) :=
  (List.range 8).foldl (fun best i =>
    let n := zerosAt gs i
    if n < 2 then best
    else match best with
      | some (_, m) => if m < n then some (i, n) else best
      | none => some (i, n)) none

def groupTexts (gs : List Nat) : List Char := [':'].intercalate (gs.map (Nat.toDigits 16))

def ipv6Text (gs : List Nat) : List Char :=
  '[' :: (match compressAt gs with
    | some (i, n) => groupTexts (gs.take i) ++ [':', ':'] ++ groupTexts (gs.drop (i + n))
    | none => groupTexts gs) ++ [']']

/-! ## Domains and other hosts -/

def isForbiddenInHost (c : Char) : Bool :=
  c.toNat == 0 || "\t\n\r #/:<>?@[\\]^|".toList.contains c

def isForbiddenInDomain (c : Char) : Bool :=
  isForbiddenInHost c || c.toNat < 0x20 || c == '%' || c.toNat == 0x7F

/-- Full width forms stand for ASCII characters, ideographic stops for dots. -/
def narrow (c : Char) : Char :=
  let n := c.toNat
  if 0xFF01 ≤ n ∧ n ≤ 0xFF5E then Char.ofNat (n - 0xFEE0)
  else if n = 0x3002 ∨ n = 0xFF61 then '.'
  else c

/-- Characters that cannot be seen and do not count in a domain. -/
def isIgnored (c : Char) : Bool :=
  let n := c.toNat
  n == 0xAD || n == 0x34F || n == 0x200B || n == 0x2060 || n == 0x2064 || n == 0xFEFF ||
    (0x180B ≤ n && n ≤ 0x180F) || (0xFE00 ≤ n && n ≤ 0xFE0F) || (0xE0100 ≤ n && n ≤ 0xE01EF)

def domainLabel (l : List Char) : List Char :=
  if l.all fun c => c.toNat < 0x80 then l else "xn--".toList ++ Punycode.encode l

/-- A domain in lower case ASCII. -/
def domainText (s : List Char) : List Char :=
  let lowered := ((s.filter fun c => !isIgnored c).map narrow).flatMap Text.lower
  ['.'].intercalate ((labels lowered).map domainLabel)

def specialHost (s : List Char) : Except UrlError (List Char) := do
  let some decoded := decode? s | throw .invalidDomain
  let domain := domainText decoded
  if domain.isEmpty then throw .emptyHost
  if domain.any isForbiddenInDomain then throw .invalidDomain
  if endsInNumber domain then
    match ipv4? domain with
    | some bytes => return ipv4Text bytes
    | none => throw .invalidIpv4
  return domain

def hostText (special : Bool) (s : List Char) : Except UrlError (List Char) := do
  match s with
  | '[' :: rest =>
    if rest.getLast? != some ']' then throw .invalidIpv6
    match ipv6? rest.dropLast with
    | some gs => return ipv6Text gs
    | none => throw .invalidIpv6
  | _ =>
    if special then specialHost s
    else if s.any isForbiddenInHost then throw .invalidCharacter
    else return encode isControl s

end Url

end ApiTypings
