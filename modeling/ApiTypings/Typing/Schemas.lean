import ApiTypings.Typing.Resolve

/-! # Declarations for schemas

A schema becomes an interface under its title. Every property with literals gets an alias.
-/

namespace ApiTypings

open TypeScript

namespace Schema

def interfaceName (s : Schema) : String := typeName s.title

def aliases (s : Schema) : List LiteralAlias :=
  s.properties.filterMap fun (key, p) =>
    match p with
    | .text _ (v :: vs) => some ⟨aliasName s.interfaceName key, v :: vs, p.description.getD ""⟩
    | _ => none

def interface (r : Registry) (s : Schema) : Warned Interface := do
  let members ← Warned.each (memberOf r (some s.interfaceName) s.required) s.properties
  return ⟨s.interfaceName, members, s.description.getD ""⟩

end Schema

def declareSchemas (r : Registry) (schemas : List Schema) : Warned SchemaDeclarations := do
  let interfaces ← Warned.each (Schema.interface r) schemas
  return ⟨schemas.flatMap Schema.aliases, interfaces⟩

end ApiTypings
