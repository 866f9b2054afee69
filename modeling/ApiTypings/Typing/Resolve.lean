import ApiTypings.Registry
import ApiTypings.TypeScript.Declaration
import ApiTypings.Warning

/-! # Types of properties

A property becomes a type expression. A reference becomes the name of its schema; one that leads
nowhere becomes `unknown`, with a warning.
-/

namespace ApiTypings

open TypeScript

/-- The name of the interface a reference stands for. `place` is where the reference stands. -/
def resolveReference (r : Registry) (place reference : String) : Warned (Option String) :=
  match (r.resolve? reference).filter fun name => !name.isEmpty with
  | some name => pure (some (typeName name))
  | none => ⟨none, [.unresolved reference place]⟩

def referenceType (r : Registry) (place reference : String) : Warned TypeExpr := do
  match ← resolveReference r place reference with
  | some name => return .schema name
  | none => return .unknown

/-- The literals of a text: under an owner by the name of their alias, else written out. -/
def textType (key : String) (owner : Option String) (values : List String) : TypeExpr :=
  if values.isEmpty then .string
  else match owner with
    | some o => .alias (aliasName o key)
    | none => .literals values

mutual

def typeOf (r : Registry) (key : String) : Option String → Property → Warned TypeExpr
  | owner, .text _ values => pure (textType key owner values)
  | _, .number _ => pure .number
  | _, .integer _ => pure .number
  | _, .boolean _ => pure .boolean
  | _, .array _ items => TypeExpr.array <$> elementType r key items
  | _, .object _ (some values) _ _ =>
    if values.hasType then TypeExpr.map <$> typeOf r key none values else pure (.map .object)
  | _, .object _ none _ _ => pure (.map .object)
  | _, .reference _ target => referenceType r key target
  | _, .unknown _ => pure .unknown

/-- The type of the elements of an array. Literals and maps are not spelled out there. -/
def elementType (r : Registry) (key : String) : Option Property → Warned TypeExpr
  | none => pure .unknown
  | some (.text ..) => pure .string
  | some (.number _) => pure .number
  | some (.integer _) => pure .number
  | some (.boolean _) => pure .boolean
  | some (.object ..) => pure .object
  | some (.array _ items) => TypeExpr.array <$> elementType r key items
  | some (.reference _ target) => referenceType r key target
  | some (.unknown _) => pure .unknown

end

def memberOf (r : Registry) (owner : Option String) (required : Option (List String))
    (entry : String × Property) : Warned Member := do
  let (key, p) := entry
  let type ← typeOf r key owner p
  return ⟨key, !isRequired required key p, type, p.description.getD ""⟩

end ApiTypings
