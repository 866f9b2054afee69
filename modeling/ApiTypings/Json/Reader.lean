import ApiTypings.Json.Token

/-! # Reading documents

One value is read from the tokens of a text. A container below the nesting limit is read like
any other, but it stands for no value.
-/

namespace ApiTypings.Json

/-- A container inside `depth` others. -/
def nested (depth : Nat) (j : Json) : Json := if depth < nestingLimit then j else .unreadable

/-- An object, if all its keys can be read. -/
def ofMembers (members : List (Option String × Json)) : Json :=
  match members.mapM fun (k, j) => k.map (·, j) with
  | some ms => .object ms
  | none => .unreadable

mutual

/-- Read one value inside `depth` containers. Every step takes a token, so twice the number of
tokens is enough fuel. -/
def readValue : Nat → Nat → List Token → Option (Json × List Token)
  | 0, _, _ => none
  | _ + 1, depth, .openArray :: .closeArray :: rest => some (nested depth (.array []), rest)
  | fuel + 1, depth, .openArray :: rest => do
    let (items, rest) ← readItems fuel (depth + 1) rest
    return (nested depth (.array items), rest)
  | _ + 1, depth, .openObject :: .closeObject :: rest => some (nested depth (.object []), rest)
  | fuel + 1, depth, .openObject :: rest => do
    let (members, rest) ← readMembers fuel (depth + 1) rest
    return (nested depth (ofMembers members), rest)
  | _ + 1, _, .string (some s) :: rest => some (.string s, rest)
  | _ + 1, _, .string none :: rest => some (.unreadable, rest)
  | _ + 1, _, .scalar j :: rest => some (j, rest)
  | _ + 1, _, _ => none

/-- Read values up to the closing bracket. -/
def readItems : Nat → Nat → List Token → Option (List Json × List Token)
  | 0, _, _ => none
  | fuel + 1, depth, ts => do
    let (j, rest) ← readValue fuel depth ts
    match rest with
    | .closeArray :: rest => return ([j], rest)
    | .comma :: rest =>
      let (js, rest) ← readItems fuel depth rest
      return (j :: js, rest)
    | _ => none

/-- Read members up to the closing brace. -/
def readMembers : Nat → Nat → List Token → Option (List (Option String × Json) × List Token)
  | 0, _, _ => none
  | fuel + 1, depth, .string key :: .colon :: ts => do
    let (j, rest) ← readValue fuel depth ts
    match rest with
    | .closeObject :: rest => return ([(key, j)], rest)
    | .comma :: rest =>
      let (members, rest) ← readMembers fuel depth rest
      return ((key, j) :: members, rest)
    | _ => none
  | _ + 1, _, _ => none

end

/-- The value of a text, `none` if the text is malformed. -/
def parse (text : String) : Option Json := do
  let ts ← tokens text.toList
  match ← readValue (2 * ts.length + 2) 0 ts with
  | (j, []) => some j
  | _ => none

end ApiTypings.Json
