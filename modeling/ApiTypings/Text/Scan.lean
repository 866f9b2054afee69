/-! # Scanning for a pattern

A text is read from left to right. Where the pattern matches, the match is one piece and reading
goes on behind it; elsewhere a single character is one piece.
-/

namespace ApiTypings.Text

/-- The match at the start of a text: what it stands for and how many characters it takes. -/
abbrev Pattern (α : Type) := List Char → Option (α × Nat)

inductive Piece (α : Type) where
  | plain (c : Char)
  | found (a : α)
deriving DecidableEq, Repr

variable {α : Type}

/-- The pieces of a text after the first `skip` characters, which belong to a match. -/
def piecesAfter (p : Pattern α) : Nat → List Char → List (Piece α)
  | _, [] => []
  | skip + 1, _ :: rest => piecesAfter p skip rest
  | 0, c :: rest =>
    match p (c :: rest) with
    | some (a, n) => .found a :: piecesAfter p (n - 1) rest
    | none => .plain c :: piecesAfter p 0 rest

def pieces (p : Pattern α) (s : List Char) : List (Piece α) := piecesAfter p 0 s

def Piece.found? : Piece α → Option α
  | .plain _ => none
  | .found a => some a

/-- All matches, from left to right and without overlap. -/
def occurrences (p : Pattern α) (s : List Char) : List α := (pieces p s).filterMap Piece.found?

/-- Every match replaced by the text for it. -/
def replaceAll (p : Pattern α) (text : α → List Char) (s : List Char) : List Char :=
  (pieces p s).flatMap fun
    | .plain c => [c]
    | .found a => text a

/-- A name of characters in a class, between braces. -/
def braced (inName : Char → Bool) : Pattern (List Char)
  | '\x7b' :: rest =>
    let name := rest.takeWhile inName
    match rest.drop name.length with
    | '\x7d' :: _ => some (name, name.length + 2)
    | _ => none
  | _ => none

end ApiTypings.Text
