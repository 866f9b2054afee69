import ApiTypings.Text.Hex
import ApiTypings.Yaml.Line

/-! # Plain scalars

Scalars without quotes. They can stand for null and truth values, so a text that could be taken
for one of these or for a number is not written plain, nor is one that would end too early.
-/

namespace ApiTypings.Yaml

/-! ## What plain scalars stand for -/

def isNull (s : String) : Bool :=
  s.isEmpty || s == "null" || s == "Null" || s == "NULL" || s == "~"

def truthValue? : String → Option Bool
  | "true" | "True" | "TRUE" => some true
  | "false" | "False" | "FALSE" => some false
  | _ => none

/-! ## Texts that look like something else -/

/-- The words that are null or a truth value for some reader, in lower case. -/
def reservedWords : List String :=
  ["", "null", "~", "true", "false", "y", "yes", "n", "no", "on", "off"]

def isReserved (s : List Char) : Bool := reservedWords.contains (String.ofList (s.map Char.toLower))

/-- The least number that no finite floating point number is close to. -/
def overflow : Nat := Nat.pow 2 1024 - Nat.pow 2 970

/-- Whether `m * 10 ^ e` is in the range of floating point numbers, for `m` of `digits` digits with
no zero before them. The far exponents are told by the length, so that no power is taken there. -/
def isFinite (digits m : Nat) (e : Int) : Bool :=
  if m = 0 then true
  else if (digits : Int) + e < 300 then true
  else if 400 < (digits : Int) + e then false
  else if 0 ≤ e then m * Nat.pow 10 e.toNat < overflow
  else m < overflow * Nat.pow 10 (-e).toNat

def digitsValue (s : List Char) : Nat := (Text.digitsIn 10 s).getD 0

/-- The digits after an exponent mark, `none` if there are none. -/
def exponentOf? : List Char → Option Int
  | [] => some 0
  | m :: rest =>
    if m = 'e' ∨ m = 'E' then
      let (negative, digits) := match rest with
        | '-' :: r => (true, r)
        | '+' :: r => (false, r)
        | r => (false, r)
      if digits.isEmpty || !digits.all Char.isDigit then none
      else some (if negative then -(digitsValue digits : Int) else digitsValue digits)
    else none

/-- Whether a text without sign is a decimal number in the range of floating point numbers. -/
def isDecimal (s : List Char) : Bool :=
  let whole := s.takeWhile Char.isDigit
  let afterWhole := s.dropWhile Char.isDigit
  let (fraction, rest) := match afterWhole with
    | '.' :: r => (r.takeWhile Char.isDigit, r.dropWhile Char.isDigit)
    | r => ([], r)
  let digits := (whole ++ fraction).dropWhile (· == '0')
  if whole.isEmpty && fraction.isEmpty then false
  else match exponentOf? rest with
    | some e => isFinite digits.length (digitsValue digits) (e - fraction.length)
    | none => false

/-- Whether a text without sign is a whole number with a mark for its base, up to a limit. -/
def isBased (limit : Nat) (s : List Char) : Bool :=
  let below := fun (base : Nat) (digits : List Char) =>
    !digits.isEmpty && ((Text.digitsIn base digits).map fun n => decide (n ≤ limit)).getD false
  match s with
  | '0' :: 'x' :: r => below 16 r
  | '0' :: 'o' :: r => below 8 r
  | '0' :: 'b' :: r => below 2 r
  | _ => false

def isInfinity (s : List Char) : Bool :=
  [".inf", ".Inf", ".INF"].contains (String.ofList s)

/-- Whether a whole number starts with a zero that is not its only digit. -/
def hasLeadingZero : List Char → Bool
  | '0' :: d :: rest => (d :: rest).all Char.isDigit
  | _ => false

def isNumber : List Char → Bool
  | '+' :: s => (!hasLeadingZero s && isDecimal s) || isBased (Nat.pow 2 128 - 1) s || isInfinity s
  | '-' :: s => (!hasLeadingZero s && isDecimal s) || isBased (Nat.pow 2 127) s || isInfinity s
  | s => (!hasLeadingZero s && isDecimal s) || isBased (Nat.pow 2 128 - 1) s || isInfinity s ||
      [".nan", ".NaN", ".NAN"].contains (String.ofList s)

/-- Whether a text could be taken for something else than a text. -/
def isAmbiguous (s : List Char) : Bool :=
  isReserved s || (s.head?.map Char.isDigit).getD false || isNumber s

/-! ## Texts that can be written plain -/

def startIndicators : List Char :=
  ['#', ',', '[', ']', '\x7b', '\x7d', '&', '*', '!', '|', '>', '\'', '"', '%', '@', '\x60']

/-- Whether a text starts as no plain scalar does. -/
def startsSpecially : List Char → Bool
  | [] => true
  | c :: rest =>
    startIndicators.contains c || ((c == '?' || c == ':' || c == '-') && endsWord rest)

/-- Whether a comment or the end of a key stands in a text, which follows `before`. -/
def hasIndicator (before : Char) : List Char → Bool
  | [] => false
  | c :: rest =>
    (c == ':' && endsWord rest) || (c == '#' && isSpaceOrBreak before) || hasIndicator c rest

def startsWithMarker (s : List Char) : Bool :=
  "---".toList.isPrefixOf s || "...".toList.isPrefixOf s

/-- Whether a text on one line reads back when it is written as it is. -/
def canBePlain (s : List Char) : Bool :=
  !startsSpecially s && !startsWithMarker s && !hasIndicator ' ' s &&
    s.all (fun c => isPrintable c && !isBreak c) && s.head? != some ' ' && s.getLast? != some ' '

/-! ## Reading -/

def flowIndicator (c : Char) : Bool :=
  c == ',' || c == '[' || c == ']' || c == '\x7b' || c == '\x7d'

/-- The text of a plain scalar on its line and what follows it. `blanks` have been read and
belong to the text if it goes on. -/
def plainWords (inFlow : Bool) (blanks : List Char) : List Char → List Char × List Char
  | [] => ([], [])
  | c :: rest =>
    if isBlank c then plainWords inFlow (blanks ++ [c]) rest
    else if isBreak c || (c == '#' && !blanks.isEmpty) || (c == ':' && endsWord rest) ||
      (inFlow && flowIndicator c) then ([], c :: rest)
    else
      let (text, after) := plainWords inFlow [] rest
      (blanks ++ c :: text, after)

/-- The gap up to the next line with text in it, the column of that text, and the text. Tabs
may stand only in lines that are already deep enough. -/
def nextLine (inFlow : Bool) (key : Nat) (gap : Gap) (column : Nat) :
    List Char → Gap × Nat × List Char
  | [] => (gap, column, [])
  | c :: rest =>
    if isBreak c then nextLine inFlow key (gap.lineBreak c) 0 rest
    else if c = ' ' || (c = '\t' && (inFlow || key < column)) then
      nextLine inFlow key gap (column + 1) rest
    else (gap, column, c :: rest)

/-- Read a plain scalar below a key at a column. Also gives what follows it. A line that goes on
is deeper than the key. -/
def plainLines (inFlow : Bool) (key : Nat) : Nat → List Char → List Char × List Char
  | 0, s => ([], s)
  | fuel + 1, s =>
    let (text, rest) := plainWords inFlow [] s
    match rest with
    | [] => (text, [])
    | c :: _ =>
      if !isBreak c then (text, rest)
      else
        let (gap, column, s') := nextLine inFlow key .empty 0 rest
        if (column ≤ key && !inFlow) || s'.isEmpty || s'.head? = some '#' then (text, rest)
        else
          let (text', rest') := plainLines inFlow key fuel s'
          if text'.isEmpty then (text, rest) else (text ++ gap.text ++ text', rest')

def readPlain (inFlow : Bool) (key : Nat) (s : List Char) : List Char × List Char :=
  plainLines inFlow key (s.length + 1) s

end ApiTypings.Yaml
