import ApiTypings.TypeScript.Identifier

/-! # String literals

Texts between double quotes. A quote and a backslash stand behind a backslash; all other
characters stand for themselves.
-/

namespace ApiTypings.TypeScript

def escapeChar (c : Char) : List Char :=
  if c = '\\' ∨ c = '"' then ['\\', c] else [c]

def escapeChars (s : List Char) : List Char := s.flatMap escapeChar

def escaped (s : String) : String := String.ofList (escapeChars s.toList)

def literal (s : String) : String := "\"" ++ escaped s ++ "\""

/-- The literals of a union, in order. -/
def literalUnion (values : List String) : String :=
  " | ".intercalate (values.map literal)

/-- The name of a member, bare where it is an identifier. -/
def memberName (s : String) : String :=
  if isIdentifier s then s else literal s

end ApiTypings.TypeScript
