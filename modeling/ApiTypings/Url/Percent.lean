import ApiTypings.Text.Hex

/-! # Percent encoding

Every byte of a character that may not stand in a part of an address is written as `%` and two
hexadecimal digits. Which characters those are depends on the part.
-/

namespace ApiTypings.Url

def hexByte (b : UInt8) : List Char := '%' :: Text.hexDigits 2 b.toNat

/-- The characters of a text with those in a set encoded. -/
def encode (mustEncode : Char → Bool) (s : List Char) : List Char :=
  s.flatMap fun c => if mustEncode c then (String.utf8EncodeChar c).flatMap hexByte else [c]

/-! ## Sets of characters to encode -/

/-- Control characters and all that is not ASCII. -/
def isControl (c : Char) : Bool := c.toNat < 0x20 || 0x7F ≤ c.toNat

def inFragment (c : Char) : Bool :=
  isControl c || c == ' ' || c == '"' || c == '<' || c == '>' || c == '\x60'

def inQuery (c : Char) : Bool :=
  isControl c || c == ' ' || c == '"' || c == '#' || c == '<' || c == '>'

def inSpecialQuery (c : Char) : Bool := inQuery c || c == '\''

def inPath (c : Char) : Bool :=
  inFragment c || c == '#' || c == '?' || c == '^' || c == '\x7b' || c == '\x7d'

def inUserinfo (c : Char) : Bool :=
  inPath c || c == '/' || c == ':' || c == ';' || c == '=' || c == '@' || c == '[' ||
    c == '\\' || c == ']' || c == '|'

/-! ## Decoding -/

/-- The bytes of a text; an encoded byte counts as itself. -/
def decodeBytes : List Char → List UInt8
  | '%' :: a :: b :: rest =>
    match Text.digitsIn 16 [a, b] with
    | some n => UInt8.ofNat n :: decodeBytes rest
    | none => '%'.toNat.toUInt8 :: decodeBytes (a :: b :: rest)
  | c :: rest => String.utf8EncodeChar c ++ decodeBytes rest
  | [] => []

/-- The text without encoded bytes, `none` if the bytes form no text. -/
def decode? (s : List Char) : Option (List Char) :=
  (String.fromUTF8? ⟨(decodeBytes s).toArray⟩).map String.toList

end ApiTypings.Url
