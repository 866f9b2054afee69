import ApiTypings.Template.Basic
import ApiTypings.Text.Blank

/-! # Reading templates

A variable stands between double braces, a comment between a brace and a number sign, a directive
between a brace and a percent sign. A hyphen inside such a mark removes the white space next to
it on its outer side. Between the directives `raw` and `endraw` no mark counts. What else the
template language has (filters, functions and other expressions, conditions, loops, blocks and
macros) counts as malformed.
-/

namespace ApiTypings.Template

inductive Mark where
  | comment
  | part (p : TemplatePart)
  | verbatim (s : List Char)

/-- Text and marks of a template. A mark says whether white space before and after it goes. -/
inductive Piece where
  | text (s : List Char)
  | mark (trimsBefore : Bool) (m : Mark) (trimsAfter : Bool)

/-- The text up to the first place where `closing` stands, and the text behind that. A hyphen
before `closing` belongs to it and is reported. -/
def cutAt (closing : List Char) : List Char → Option (List Char × Bool × List Char)
  | [] => none
  | c :: rest =>
    if c = '-' ∧ closing.isPrefixOf rest then some ([], true, rest.drop closing.length)
    else if closing.isPrefixOf (c :: rest) then
      some ([], false, (c :: rest).drop closing.length)
    else (cutAt closing rest).map fun (s, trims, after) => (c :: s, trims, after)

/-- A hyphen at the start of a mark, and the text after it. -/
def cutHyphen : List Char → Bool × List Char
  | '-' :: rest => (true, rest)
  | s => (false, s)

def isMarkSpace (c : Char) : Bool := c == ' ' || c == '\t' || c == '\n' || c == '\r'

def strip (s : List Char) : List Char :=
  ((s.dropWhile isMarkSpace).reverse.dropWhile isMarkSpace).reverse

def isName (s : List Char) : Bool :=
  match s with
  | [] => false
  | c :: rest => (c.isAlpha || c == '_') && rest.all fun c => c.isAlphanum || c == '_'

def variableMark? (content : List Char) : Option Mark :=
  let name := strip content
  if isName name then some (.part (.variable (String.ofList name))) else none

/-- The name in quotes after the word `include`. -/
def inclusionMark? (content : List Char) : Option Mark :=
  let words := strip content
  if "include".toList.isPrefixOf words then
    match strip (words.drop 7) with
    | q :: rest =>
      match rest.reverse with
      | q' :: name =>
        if q = q' && (q == '"' || q == '\'' || q == '\x60') && !name.contains q then
          some (.part (.inclusion (String.ofList name.reverse)))
        else none
      | [] => none
    | [] => none
  else none

/-- The text up to the directive that ends a verbatim part, and the directive with what follows. -/
def cutVerbatim : Nat → List Char → Option (List Char × Bool × Bool × List Char)
  | 0, _ => none
  | _ + 1, [] => none
  | fuel + 1, c :: rest =>
    let next := (cutVerbatim fuel rest).map fun (s, marks) => (c :: s, marks)
    match c, rest with
    | '\x7b', '%' :: inner =>
      let (before, inner) := cutHyphen inner
      match cutAt "%\x7d".toList inner with
      | some (content, after, rest) =>
        if strip content = "endraw".toList then some ([], before, after, rest) else next
      | none => next
    | _, _ => next

def trimStart (s : List Char) : List Char := s.dropWhile Text.isBlank

def trimEnd (s : List Char) : List Char := (s.reverse.dropWhile Text.isBlank).reverse

def trimIf (start finish : Bool) (s : List Char) : List Char :=
  let s := if start then trimStart s else s
  if finish then trimEnd s else s

def readMark (kind : Char) (s : List Char) : Option (Piece × List Char) :=
  let (before, s) := cutHyphen s
  match kind with
  | '\x7b' => do
    let (content, after, rest) ← cutAt "\x7d\x7d".toList s
    let m ← variableMark? content
    return (.mark before m after, rest)
  | '#' => do
    let (_, after, rest) ← cutAt "#\x7d".toList s
    return (.mark before .comment after, rest)
  | _ => do
    let (content, after, rest) ← cutAt "%\x7d".toList s
    if strip content = "raw".toList then
      let (body, before', after', rest) ← cutVerbatim (rest.length + 1) rest
      return (.mark before (.verbatim (trimIf after before' body)) after', rest)
    else
      let m ← inclusionMark? content
      return (.mark before m after, rest)

def pushChar (c : Char) : List Piece → List Piece
  | .text s :: rest => .text (c :: s) :: rest
  | pieces => .text [c] :: pieces

/-- The pieces of a template, `none` if a mark is malformed. -/
def readPieces : Nat → List Char → Option (List Piece)
  | 0, _ => none
  | _ + 1, [] => some [.text []]
  | fuel + 1, c :: rest =>
    match c, rest with
    | '\x7b', k :: inner =>
      if k = '\x7b' ∨ k = '#' ∨ k = '%' then do
        let (piece, rest) ← readMark k inner
        let pieces ← readPieces fuel rest
        return .text [] :: piece :: pieces
      else (readPieces fuel rest).map (pushChar c)
    | _, _ => (readPieces fuel rest).map (pushChar c)

/-- The parts without comments and without white space that a mark next to it removes. -/
def partsOf (trimsStart : Bool) : List Piece → List TemplatePart
  | [] => []
  | .text s :: rest =>
    let trimsEnd := match rest with
      | .mark before _ _ :: _ => before
      | _ => false
    .text (String.ofList (trimIf trimsStart trimsEnd s)) :: partsOf false rest
  | .mark _ m after :: rest =>
    let parts := match m with
      | .comment => []
      | .part p => [p]
      | .verbatim s => [.text (String.ofList s)]
    parts ++ partsOf after rest

def parse (text : String) : Except TemplateError Template :=
  let s := text.toList
  match readPieces (s.length + 1) s with
  | some pieces => .ok ⟨(partsOf false pieces).filter fun p => p != .text ""⟩
  | none => .error .malformed

end ApiTypings.Template
