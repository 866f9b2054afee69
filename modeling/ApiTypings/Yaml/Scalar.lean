import ApiTypings.Yaml.Block
import ApiTypings.Yaml.Plain

/-! # Written scalars

A text is written plain where that is possible, else between single quotes, else between double
quotes; a text of several lines as a block.
-/

namespace ApiTypings.Yaml

inductive Style where
  | plain
  | single
  | double
  | literal
deriving DecidableEq, Repr

/-- Whether two neighbours in a text satisfy two conditions. -/
def hasPair (p q : Char → Bool) : List Char → Bool
  | a :: b :: rest => (p a && q b) || hasPair p q (b :: rest)
  | _ => false

def isSpace (c : Char) : Bool := c == ' '

/-- White space at the end of a line would be lost in single quotes and in blocks. -/
def keepsLines (s : List Char) : Bool := s.all isPrintable && !hasPair isSpace isBreak s

/-- White space at the start of a line would be lost in single quotes. -/
def canBeSingle (s : List Char) : Bool := keepsLines s && !hasPair isBreak isSpace s

def canBeLiteral (s : List Char) : Bool := keepsLines s && s.getLast? != some ' '

def styleOf (s : List Char) : Style :=
  if s.contains '\n' then if canBeLiteral s then .literal else .double
  else if !isAmbiguous s && canBePlain s then .plain
  else if canBeSingle s then .single
  else .double

def writeScalar (s : List Char) : List Char :=
  match styleOf s with
  | .plain => s
  | .single => writeSingle s
  | .double => writeDouble s
  | .literal => writeLiteral s

/-- A key with a text as its value. A block ends with its own line break. -/
def writeEntry (key : String) (value : List Char) : List Char :=
  let text := key.toList ++ ':' :: ' ' :: value
  if (text.getLast?.map isBreak).getD false then text else text ++ ['\n']

end ApiTypings.Yaml
