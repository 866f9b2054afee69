import ApiTypings.Text.Hex
import ApiTypings.Yaml.Line

/-! # Quoted scalars

Between single quotes a quote is written twice and all else as it is. Between double quotes
every character can be written as an escape sequence.
-/

namespace ApiTypings.Yaml

/-- The indentation of a line that continues a scalar. -/
def margin : List Char := [' ', ' ']

/-! ## Single quotes -/

/-- The text between single quotes. After a break the next line is indented. -/
def singleBody (afterBreak : Bool) : List Char → List Char
  | [] => if afterBreak then margin else []
  | c :: rest =>
    if isBreak c then
      (if c = '\n' && !afterBreak then ['\n'] else []) ++ c :: singleBody true rest
    else
      (if afterBreak then margin else []) ++ (if c = '\'' then ['\'', '\''] else [c]) ++
        singleBody false rest

def writeSingle (s : List Char) : List Char := '\'' :: singleBody false s ++ ['\'']

def prepend (before : List Char) (r : List Char × List Char) : List Char × List Char :=
  (before ++ r.1, r.2)

def readSingle (gap : Gap) : List Char → Option (List Char × List Char)
  | [] => none
  | '\'' :: '\'' :: rest => (readSingle .empty rest).map (prepend (gap.text ++ ['\'']))
  | '\'' :: rest => some (gap.text, rest)
  | c :: rest =>
    if isBlank c then readSingle (gap.blank c) rest
    else if isBreak c then if isMarker rest then none else readSingle (gap.lineBreak c) rest
    else (readSingle .empty rest).map (prepend (gap.text ++ [c]))

/-! ## Double quotes -/

def escapeLetter? : Char → Option Char
  | '\u0000' => some '0'
  | '\u0007' => some 'a'
  | '\u0008' => some 'b'
  | '\t' => some 't'
  | '\n' => some 'n'
  | '\u000b' => some 'v'
  | '\u000c' => some 'f'
  | '\r' => some 'r'
  | '\u001b' => some 'e'
  | '"' => some '"'
  | '\\' => some '\\'
  | '\u0085' => some 'N'
  | '\u2028' => some 'L'
  | '\u2029' => some 'P'
  | _ => none

def writeEscape (c : Char) : List Char :=
  match escapeLetter? c with
  | some l => ['\\', l]
  | none =>
    if c.toNat ≤ 0xFF then '\\' :: 'x' :: Text.hexDigits 2 c.toNat
    else if c.toNat ≤ 0xFFFF then '\\' :: 'u' :: Text.hexDigits 4 c.toNat
    else '\\' :: 'U' :: Text.hexDigits 8 c.toNat

def doubleChar (c : Char) : List Char :=
  if !isPrintable c || isBreak c || c == '"' || c == '\\' then writeEscape c else [c]

def writeDouble (s : List Char) : List Char := '"' :: s.flatMap doubleChar ++ ['"']

def escapedLetter? : Char → Option Char
  | '0' => some '\u0000'
  | 'a' => some '\u0007'
  | 'b' => some '\u0008'
  | 't' => some '\t'
  | '\t' => some '\t'
  | 'n' => some '\n'
  | 'v' => some '\u000b'
  | 'f' => some '\u000c'
  | 'r' => some '\r'
  | 'e' => some '\u001b'
  | ' ' => some ' '
  | '"' => some '"'
  | '/' => some '/'
  | '\\' => some '\\'
  | 'N' => some '\u0085'
  | '_' => some '\u00a0'
  | 'L' => some '\u2028'
  | 'P' => some '\u2029'
  | _ => none

def charOf? (n : Nat) : Option Char :=
  if h : n.isValidChar then some (Char.ofNatAux n h) else none

/-- The character with a number of hexadecimal digits. -/
def charOfDigits? (digits : List Char) : Option Char := (Text.digitsIn 16 digits).bind charOf?

/-- Read up to the closing quote. Also gives what follows it. -/
def readDouble (gap : Gap) : List Char → Option (List Char × List Char)
  | [] => none
  | '"' :: rest => some (gap.text, rest)
  | '\\' :: 'x' :: a :: b :: rest => do
    let c ← charOfDigits? [a, b]
    (readDouble .empty rest).map (prepend (gap.text ++ [c]))
  | '\\' :: 'u' :: a :: b :: c :: d :: rest => do
    let c ← charOfDigits? [a, b, c, d]
    (readDouble .empty rest).map (prepend (gap.text ++ [c]))
  | '\\' :: 'U' :: a :: b :: c :: d :: e :: f :: g :: h :: rest => do
    let c ← charOfDigits? [a, b, c, d, e, f, g, h]
    (readDouble .empty rest).map (prepend (gap.text ++ [c]))
  | '\\' :: l :: rest =>
    if isBreak l then
      if isMarker rest then none else (readDouble (.joined []) rest).map (prepend gap.text)
    else do
      let c ← escapedLetter? l
      (readDouble .empty rest).map (prepend (gap.text ++ [c]))
  | c :: rest =>
    if isBlank c then readDouble (gap.blank c) rest
    else if isBreak c then if isMarker rest then none else readDouble (gap.lineBreak c) rest
    else if c = '\\' then none
    else (readDouble .empty rest).map (prepend (gap.text ++ [c]))

end ApiTypings.Yaml
