import ApiTypings.Decode.Error

/-! # Reading single values

Texts, flags, lists, identifiers and lists of type names.
-/

namespace ApiTypings

abbrev Decoded (α : Type) := Except DecodeError α

namespace Json

variable {α : Type}

def asText : Json → Decoded String
  | .string s => .ok s
  | j => .error (j.mismatch .text)

def asFlag : Json → Decoded Bool
  | .bool b => .ok b
  | j => .error (j.mismatch .flag)

def asList (read : Json → Decoded α) : Json → Decoded (List α)
  | .array items => items.mapM read
  | j => .error (j.mismatch .sequence)

/-- `null` stands for no value. -/
def orNull (read : Json → Decoded α) : Json → Decoded (Option α)
  | .null => .ok none
  | j => some <$> read j

/-- `null` stands for the default value. -/
def orDefault (default : α) (read : Json → Decoded α) (j : Json) : Decoded α :=
  (·.getD default) <$> orNull read j

/-- Any value at all, as long as it can be read. -/
def asValue (j : Json) : Decoded Json :=
  if j.readable then .ok j else .error .malformed

/-- A text, or an integer in decimal notation. -/
def asIdentifier : Json → Decoded String
  | .string s => .ok s
  | .number (.integer n) => .ok (toString n)
  | j => .error (if j.readable then .noIdentifier else .malformed)

/-- One type name or a list of them; `null` is the empty list. -/
def asTypeNames : Json → Decoded (List String)
  | .null => .ok []
  | .string s => .ok [s]
  | .array items =>
    if readableItems items then
      items.mapM fun
        | .string s => .ok s
        | _ => .error .noTypeNames
    else .error .malformed
  | j => .error (if j.readable then .noTypeNames else .malformed)

end Json

end ApiTypings
