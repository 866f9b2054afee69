import ApiTypings.Json.Basic

/-! # Decoding errors

Why a document is not what it should be.
-/

namespace ApiTypings

/-- What a reader asks for. -/
inductive Wanted where
  | text
  | flag
  | sequence
  | properties
  | record (name : String)
deriving DecidableEq, Repr

def Wanted.shown : Wanted → String
  | .text => "a string"
  | .flag => "a boolean"
  | .sequence => "a sequence"
  | .properties => "a map of property definitions"
  | .record name => "struct " ++ name

inductive DecodeError where
  | malformed
  | missingField (field : String)
  | duplicateField (field : String)
  | wrongType (found : String) (wanted : Wanted)
  /-- A record of `size` members written as an array that ends before member `index`. -/
  | wrongLength (index : Nat) (record : String) (size : Nat)
  | noIdentifier
  | noTypeNames
  | noAdditional
deriving DecidableEq, Repr

namespace DecodeError

def message : DecodeError → String
  | .malformed => "<syntax>"
  | .missingField f => "missing field `" ++ f ++ "`"
  | .duplicateField f => "duplicate field `" ++ f ++ "`"
  | .wrongType found wanted => "invalid type: " ++ found ++ ", expected " ++ wanted.shown
  | .wrongLength index record size =>
    "invalid length " ++ toString index ++ ", expected struct " ++ record ++ " with " ++
      toString size ++ (if size = 1 then " element" else " elements")
  | .noIdentifier => "expected a string or integer id"
  | .noTypeNames => "Expected string or array of strings"
  | .noAdditional => "data did not match any variant of untagged enum AdditionalProperties"

end DecodeError

/-- The error for a value of the wrong type; a value that cannot be read is malformed. -/
def Json.mismatch : Json → Wanted → DecodeError
  | .unreadable, _ => .malformed
  | j, wanted => .wrongType j.shown wanted

end ApiTypings
