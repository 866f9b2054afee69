import ApiTypings.Yaml.Line
import ApiTypings.Yaml.Quoted

/-! # Block scalars

The lines below a header, as far as they are indented. The header says whether line breaks are
kept or folded and what becomes of the breaks at the end.
-/

namespace ApiTypings.Yaml

inductive Chomping where
  | strip
  | clip
  | keep
deriving DecidableEq, Repr

/-! ## Writing -/

/-- The way to write the breaks at the end of a text: none, one, or all of them. -/
def chompingFor (s : List Char) : Chomping :=
  match s.reverse with
  | [] => .strip
  | [b] => if isBreak b then .keep else .strip
  | b :: a :: _ => if !isBreak b then .strip else if isBreak a then .keep else .clip

def chompingMark : Chomping → List Char
  | .strip => ['-']
  | .clip => []
  | .keep => ['+']

/-- The lines of a text, indented unless empty. -/
def indentLines (afterBreak : Bool) : List Char → List Char
  | [] => []
  | c :: rest =>
    if isBreak c then c :: indentLines true rest
    else (if afterBreak then margin else []) ++ c :: indentLines false rest

/-- A text that starts with white space says how much it is indented. -/
def indentationMark : List Char → List Char
  | [] => []
  | c :: _ => if c = ' ' || isBreak c then ['2'] else []

def writeLiteral (s : List Char) : List Char :=
  '|' :: indentationMark s ++ chompingMark (chompingFor s) ++ '\n' :: indentLines true s

/-! ## Reading -/

def chomping? : Char → Option Chomping
  | '-' => some .strip
  | '+' => some .keep
  | _ => none

def indentationDigit? (c : Char) : Option Nat :=
  if c.isDigit && c != '0' then some (c.toNat - '0'.toNat) else none

/-- What a header says, and the text after it. -/
def headerMarks : List Char → Chomping × Option Nat × List Char
  | [] => (.clip, none, [])
  | c :: rest =>
    match chomping? c, indentationDigit? c with
    | some chomping, _ =>
      match rest with
      | d :: rest' =>
        match indentationDigit? d with
        | some n => (chomping, some n, rest')
        | none => (chomping, none, rest)
      | [] => (chomping, none, [])
    | none, some n =>
      match rest with
      | d :: rest' =>
        match chomping? d with
        | some chomping => (chomping, some n, rest')
        | none => (.clip, some n, rest)
      | [] => (.clip, some n, [])
    | none, none => (.clip, none, c :: rest)

/-- The text after the end of a line, on which only a comment may stand. -/
def endLine (s : List Char) : Option (List Char) :=
  match s.dropWhile isBlank with
  | [] => some []
  | c :: rest =>
    if isBreak c then some rest
    else if c = '#' then some ((cutLine rest).2.drop 1)
    else none

/-- A line of a block behind its indentation, its break, and the breaks of the empty lines
after it. -/
structure BlockLine where
  text : List Char
  lineBreak : List Char
  emptyAfter : List Char
deriving Repr

def leadingSpaces (s : List Char) : Nat := (s.takeWhile (· == ' ')).length

/-- The breaks of the empty lines at the start of a text, and the text after them. Empty lines
have at most `width` spaces. -/
def emptyLines (width : Nat) (s : List Char) : Option (List Char × List Char) :=
  let spaces := min width (leadingSpaces s)
  match _h : s.drop spaces with
  | [] => some ([], s)
  | c :: rest =>
    if isBreak c then (emptyLines width rest).map (prepend [c])
    else if c = '\t' && spaces < width then none
    else some ([], s)
termination_by s.length
decreasing_by
  have : (s.drop spaces).length = rest.length + 1 := by simp [_h]
  simp only [List.length_drop] at this
  omega

/-- The indentation of the first line that is not empty, or of a deeper empty line before it. -/
def detectWidth (s : List Char) : Option Nat :=
  let spaces := leadingSpaces s
  match _h : s.drop spaces with
  | [] => some spaces
  | c :: rest =>
    if isBreak c then (detectWidth rest).map (max spaces)
    else if c = '\t' then none
    else some spaces
termination_by s.length
decreasing_by
  have : (s.drop spaces).length = rest.length + 1 := by simp [_h]
  simp only [List.length_drop] at this
  omega

def blockLines (width : Nat) : Nat → List Char → Option (List BlockLine × List Char)
  | 0, s => some ([], s)
  | fuel + 1, s =>
    if leadingSpaces s < width || (s.drop width).isEmpty then some ([], s)
    else do
      let (text, rest) := cutLine (s.drop width)
      let (emptyAfter, rest') ← emptyLines width (rest.drop 1)
      let (lines, rest'') ← blockLines width fuel rest'
      return (⟨text, rest.take 1, emptyAfter⟩ :: lines, rest'')

def startsBlank : List Char → Bool
  | c :: _ => isBlank c
  | [] => false

/-- The breaks between two lines. Folded breaks count only between lines that start in the same
column. -/
def between (folded : Bool) (afterBlank : Bool) (lineBreak emptyAfter : List Char)
    (next : List Char) : List Char :=
  if folded && lineBreak == ['\n'] && !afterBlank && !startsBlank next then
    if emptyAfter.isEmpty then [' '] else emptyAfter
  else lineBreak ++ emptyAfter

def chompedEnd (chomping : Chomping) (lineBreak emptyAfter : List Char) : List Char :=
  match chomping with
  | .strip => []
  | .clip => lineBreak
  | .keep => lineBreak ++ emptyAfter

/-- The text of the lines after a line, whose break and empty lines are given. -/
def blockText (folded : Bool) (chomping : Chomping) (afterBlank : Bool)
    (lineBreak emptyAfter : List Char) : List BlockLine → List Char
  | [] => chompedEnd chomping lineBreak emptyAfter
  | l :: rest =>
    between folded afterBlank lineBreak emptyAfter l.text ++ l.text ++
      blockText folded chomping (startsBlank l.text) l.lineBreak l.emptyAfter rest

/-- Read a block after its first mark, below a key at a column. Also gives what follows it. -/
def readBlock (folded : Bool) (column : Nat) (s : List Char) : Option (List Char × List Char) := do
  let (chomping, indentation, rest) := headerMarks s
  let body ← endLine rest
  let width ← match indentation with
    | some n => some (column + n)
    | none => (detectWidth body).map (max (column + 1))
  let (emptyBefore, body) ← emptyLines width body
  let (lines, rest) ← blockLines width body.length body
  return (blockText folded chomping false [] emptyBefore lines, rest)

end ApiTypings.Yaml
