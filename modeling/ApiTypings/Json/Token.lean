import ApiTypings.Json.Number
import ApiTypings.Text.Hex
import ApiTypings.Text.Scan

/-! # Tokens of documents

Brackets, separators and scalars. Between them only spaces and line breaks may stand. A scalar
that is well formed but stands for no value is a token too.
-/

namespace ApiTypings.Json

inductive Token where
  | openObject
  | closeObject
  | openArray
  | closeArray
  | comma
  | colon
  | string (s : Option String)
  | scalar (j : Json)

def isSpace (c : Char) : Bool := c == ' ' || c == '\n' || c == '\t' || c == '\r'

def hexUnit? (a b c d : Char) : Option Nat := Text.digitsIn 16 [a, b, c, d]

def escape? : Char → Option Nat
  | '"' => some 0x22
  | '\\' => some 0x5C
  | '/' => some 0x2F
  | 'b' => some 0x8
  | 'f' => some 0xC
  | 'n' => some 0xA
  | 'r' => some 0xD
  | 't' => some 0x9
  | _ => none

/-- The code units of a text up to its closing quote, and the number of characters read. -/
def stringUnits : List Char → Option (List Nat × Nat)
  | [] => none
  | '"' :: _ => some ([], 1)
  | '\\' :: 'u' :: a :: b :: c :: d :: rest => do
    let unit ← hexUnit? a b c d
    let (units, n) ← stringUnits rest
    return (unit :: units, n + 6)
  | '\\' :: c :: rest => do
    let unit ← escape? c
    let (units, n) ← stringUnits rest
    return (unit :: units, n + 2)
  | c :: rest =>
    if c.toNat < 0x20 ∨ c = '\\' then none
    else do
      let (units, n) ← stringUnits rest
      return (c.toNat :: units, n + 1)

def isHighSurrogate (n : Nat) : Bool := 0xD800 ≤ n && n < 0xDC00

def isLowSurrogate (n : Nat) : Bool := 0xDC00 ≤ n && n < 0xE000

/-- The characters of code units, `none` if half of a surrogate pair stands alone. -/
def joinUnits : List Nat → Option (List Char)
  | [] => some []
  | h :: l :: rest =>
    if isHighSurrogate h && isLowSurrogate l then
      (joinUnits rest).map (Char.ofNat (0x10000 + (h - 0xD800) * 0x400 + (l - 0xDC00)) :: ·)
    else if isHighSurrogate h || isLowSurrogate h then none
    else (joinUnits (l :: rest)).map (Char.ofNat h :: ·)
  | [n] => if isHighSurrogate n || isLowSurrogate n then none else some [Char.ofNat n]

def digitValues (ds : List Char) : List Nat := ds.map fun c => c.toNat - '0'.toNat

/-- The digits after a point; the point needs at least one. -/
def fractionDigits : List Char → Option (List Char × Nat)
  | '.' :: rest =>
    let ds := rest.takeWhile Char.isDigit
    if ds.isEmpty then none else some (ds, ds.length + 1)
  | _ => some ([], 0)

/-- The exponent after an `e`, which needs at least one digit. -/
def exponentPart : List Char → Option (Option Int × Nat)
  | c :: rest =>
    if c = 'e' ∨ c = 'E' then
      let (negative, rest, n) := match rest with
        | '-' :: r => (true, r, 2)
        | '+' :: r => (false, r, 2)
        | r => (false, r, 1)
      let ds := rest.takeWhile Char.isDigit
      if ds.isEmpty then none
      else
        let value : Nat := (digitValues ds).foldl (fun v d => v * 10 + d) 0
        some (some (if negative then -(value : Int) else (value : Int)), n + ds.length)
    else some (none, 0)
  | [] => some (none, 0)

def numberText (s : List Char) : Option (NumberText × Nat) := do
  let (negative, s, n) := match s with
    | '-' :: r => (true, r, 1)
    | r => (false, r, 0)
  let whole := s.takeWhile Char.isDigit
  if whole.isEmpty || (whole.length > 1 && whole.head? == some '0') then none
  let s := s.drop whole.length
  let (fraction, n₁) ← fractionDigits s
  let (exponent, n₂) ← exponentPart (s.drop n₁)
  return (⟨negative, digitValues whole, digitValues fraction, exponent⟩,
    n + whole.length + n₁ + n₂)

def keyword (word : String) (j : Json) : Text.Pattern Token := fun s =>
  if word.toList.isPrefixOf s then some (.scalar j, word.length) else none

def token : Text.Pattern Token
  | [] => none
  | '\x7b' :: _ => some (.openObject, 1)
  | '\x7d' :: _ => some (.closeObject, 1)
  | '[' :: _ => some (.openArray, 1)
  | ']' :: _ => some (.closeArray, 1)
  | ',' :: _ => some (.comma, 1)
  | ':' :: _ => some (.colon, 1)
  | '"' :: rest =>
    (stringUnits rest).map fun (units, n) => (.string ((joinUnits units).map String.ofList), n + 1)
  | 't' :: rest => keyword "true" (.bool true) ('t' :: rest)
  | 'f' :: rest => keyword "false" (.bool false) ('f' :: rest)
  | 'n' :: rest => keyword "null" .null ('n' :: rest)
  | s => (numberText s).map fun (t, n) =>
    (.scalar (match t.value? with
      | some x => .number x
      | none => .unreadable), n)

/-- The tokens of a text, `none` if something else stands in it. -/
def tokens (s : List Char) : Option (List Token) :=
  go (Text.pieces token s)
where
  go : List (Text.Piece Token) → Option (List Token)
    | [] => some []
    | .plain c :: rest => if isSpace c then go rest else none
    | .found t :: rest => (go rest).map (t :: ·)

end ApiTypings.Json
