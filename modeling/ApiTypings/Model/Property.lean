/-! # Property definitions

The shape of a property, a parameter or a body, by its declared type. A definition without a
known type may refer to a schema by name.
-/

namespace ApiTypings

/-- What every definition carries besides its shape. -/
structure Notes where
  description : Option String
  nullable : Bool
deriving DecidableEq, Repr

inductive Property where
  /-- A text; with `values`, one of these. -/
  | text (notes : Notes) (values : List String)
  | number (notes : Notes)
  | integer (notes : Notes)
  | boolean (notes : Notes)
  | array (notes : Notes) (items : Option Property)
  /-- A map to `additional` values, or a body with properties of its own. -/
  | object (notes : Notes) (additional : Option Property)
      (properties : List (String × Property)) (required : Option (List String))
  | reference (notes : Notes) (target : String)
  | unknown (notes : Notes)

/-- Properties by name, in source order. -/
abbrev Properties := List (String × Property)

namespace Property

def notes : Property → Notes
  | .text n _ | .number n | .integer n | .boolean n | .array n _ | .object n _ _ _
  | .reference n _ | .unknown n => n

def description (p : Property) : Option String := p.notes.description

def nullable (p : Property) : Bool := p.notes.nullable

def hasType : Property → Bool
  | .reference .. | .unknown _ => false
  | _ => true

def target? : Property → Option String
  | .reference _ t => some t
  | _ => none

end Property

/-- Whether a member stands without the optional mark. A nullable one never does. Without a
list of required names all others do, with one those on the list. -/
def isRequired (required : Option (List String)) (key : String) (p : Property) : Bool :=
  !p.nullable && match required with
    | none => true
    | some keys => keys.contains key

end ApiTypings
