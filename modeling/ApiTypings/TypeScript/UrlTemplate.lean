import ApiTypings.Text.Scan
import ApiTypings.TypeScript.Literal

/-! # Template literals for endpoint paths

The parameters of a path stand between braces. In a template literal each of them becomes a
substitution that reads the member of that name.
-/

namespace ApiTypings.TypeScript

/-- A parameter between braces; the innermost pair counts. -/
def pathParameter : Text.Pattern (List Char) :=
  Text.braced fun c => c != '\x7b' && c != '\x7d'

/-- The access to a member of `params`. -/
def substitution (name : List Char) : List Char :=
  let name := String.ofList name
  if isIdentifier name then ("$\x7bparams." ++ name ++ "\x7d").toList
  else ("$\x7bparams[" ++ literal name ++ "]\x7d").toList

def escapeBackticks (s : List Char) : List Char :=
  s.flatMap fun c => if c = '\x60' then ['\\', c] else [c]

/-- The text between the backticks of the template literal for a path. -/
def urlTemplate (path : String) : String :=
  String.ofList (Text.replaceAll pathParameter substitution (escapeBackticks path.toList))

end ApiTypings.TypeScript
