import ApiTypings.Text.Case
import ApiTypings.Text.Scan

/-! # Names for endpoints

A name is made of the method, the last segments of the path and its last parameter.
-/

namespace ApiTypings.Naming

def isWord (c : Char) : Bool := c.isAlphanum || c == '_'

/-- A segment: a slash and at least one word character. -/
def segment : Text.Pattern (List Char)
  | '/' :: rest =>
    let name := rest.takeWhile isWord
    if name.isEmpty then none else some (name, name.length + 1)
  | _ => none

/-- A parameter whose name has word characters only. -/
def routeParameter : Text.Pattern (List Char) := Text.braced isWord

/-- What the names of an endpoint are made of. -/
structure Candidate where
  method : String
  segments : List String
  suffix : Option String
deriving DecidableEq, Repr

/-- The method as it stands in a name, `Get` for `GET`. -/
def methodWord (method : String) : String := Text.capitalize (Text.lowercase method)

namespace Candidate

def ofEndpoint (path method : String) : Candidate where
  method := methodWord method
  segments := (Text.occurrences segment path.toList).map String.ofList
  suffix :=
    (((Text.occurrences routeParameter path.toList).getLast?).map fun name =>
      Text.capitalize (String.ofList name)).filter fun s => !s.isEmpty

variable (c : Candidate)

/-- The last segment; a path without segments has the name `Root`. -/
def lastSegment : String := c.segments.getLast?.getD "Root"

def previousSegment : String := c.segments.dropLast.getLast?.getD ""

def primary : String :=
  let suffix := match c.suffix with
    | some s => "_" ++ s
    | none => ""
  "A" ++ c.method ++ Text.capitalize (c.lastSegment ++ suffix)

/-- The name with two segments, for when the primary name is taken. -/
def fallback : String :=
  "A" ++ c.method ++ Text.capitalize c.previousSegment ++ Text.capitalize c.lastSegment

def numbered (k : Nat) : String := c.fallback ++ "_" ++ toString k

end Candidate

end ApiTypings.Naming
