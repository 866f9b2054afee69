import ApiTypings.Json.Basic

/-! # Writing documents

Compact text: no white space, every key of an object once.
-/

namespace ApiTypings.Json

def hexPair (n : Nat) : List Char := [Nat.digitChar (n / 16), Nat.digitChar (n % 16)]

def writeChar (c : Char) : List Char :=
  if c = '"' ∨ c = '\\' then ['\\', c]
  else if c = '\n' then ['\\', 'n']
  else if c = '\r' then ['\\', 'r']
  else if c = '\t' then ['\\', 't']
  else if c = '\u0008' then ['\\', 'b']
  else if c = '\u000c' then ['\\', 'f']
  else if c.toNat < 0x20 then ['\\', 'u', '0', '0'] ++ hexPair c.toNat
  else [c]

def writeText (s : String) : String :=
  String.ofList ('"' :: s.toList.flatMap writeChar ++ ['"'])

def writeNumber : JsonNumber → String
  | .integer n => toString n
  | .float x => x.compactText

mutual

def write : Json → String
  | .null => "null"
  | .bool b => toString b
  | .number n => writeNumber n
  | .string s => writeText s
  | .array items => "[" ++ ",".intercalate (writeItems items) ++ "]"
  | .object members =>
    "\x7b" ++ ",".intercalate ((mergeEntries (writeMembers members)).map fun (k, v) =>
      writeText k ++ ":" ++ v) ++ "\x7d"
  | .unreadable => ""

def writeItems : List Json → List String
  | [] => []
  | j :: rest => write j :: writeItems rest

def writeMembers : List (String × Json) → List (String × String)
  | [] => []
  | (k, j) :: rest => (k, write j) :: writeMembers rest

end

end ApiTypings.Json
