/-! # Lines of settings

Blanks, line breaks and the white space inside scalars. A single line feed inside a scalar is
read as a space, further ones are kept.
-/

namespace ApiTypings.Yaml

def isBlank (c : Char) : Bool := c == ' ' || c == '\t'

/-- The breaks that are left when all others are written as line feeds. -/
def isBreak (c : Char) : Bool := c == '\n' || c == '\u2028' || c == '\u2029'

def isSpaceOrBreak (c : Char) : Bool := isBlank c || isBreak c

/-- The text with carriage returns and next lines written as line feeds. -/
def unifyBreaks : List Char → List Char
  | [] => []
  | '\r' :: '\n' :: rest => '\n' :: unifyBreaks rest
  | c :: rest => (if c = '\r' ∨ c = '\u0085' then '\n' else c) :: unifyBreaks rest

/-- Whether a character may stand in settings at all. -/
def isReadable (c : Char) : Bool :=
  let n := c.toNat
  n == 0x9 || n == 0xA || n == 0xD || (0x20 ≤ n && n ≤ 0x7E) || n == 0x85 ||
    (0xA0 ≤ n && n ≤ 0xFFFD) || 0x10000 ≤ n

/-- Whether a character is written as itself. -/
def isPrintable (c : Char) : Bool :=
  let n := c.toNat
  n == 0xA || (0x20 ≤ n && n ≤ 0x7E) || (0xA0 ≤ n && n ≤ 0xFFFD && n != 0xFEFF) || 0x10000 ≤ n

/-- Whether a text goes on with white space or ends. -/
def endsWord : List Char → Bool
  | [] => true
  | c :: _ => isSpaceOrBreak c

/-- Whether a line separates documents. -/
def isMarker (s : List Char) : Bool :=
  ("---".toList.isPrefixOf s || "...".toList.isPrefixOf s) && endsWord (s.drop 3)

/-- The rest of the line and what follows, starting with the line break. -/
def cutLine (s : List Char) : List Char × List Char :=
  (s.takeWhile fun c => !isBreak c, s.dropWhile fun c => !isBreak c)

/-- What the breaks between two lines of a scalar stand for. -/
def foldBreaks (first : Char) (more : List Char) : List Char :=
  if first = '\n' then if more.isEmpty then [' '] else more else first :: more

/-- White space inside a scalar, as far as it has been read. -/
inductive Gap where
  | inLine (blanks : List Char)
  | broken (first : Char) (more : List Char)
  /-- After a line break that was escaped. -/
  | joined (breaks : List Char)

namespace Gap

def empty : Gap := .inLine []

/-- Blanks around a line break do not count. -/
def blank (g : Gap) (c : Char) : Gap :=
  match g with
  | .inLine blanks => .inLine (blanks ++ [c])
  | g => g

def lineBreak (g : Gap) (c : Char) : Gap :=
  match g with
  | .inLine _ => .broken c []
  | .broken first more => .broken first (more ++ [c])
  | .joined breaks => .joined (breaks ++ [c])

def text : Gap → List Char
  | .inLine blanks => blanks
  | .broken first more => foldBreaks first more
  | .joined breaks => breaks

end Gap

end ApiTypings.Yaml
