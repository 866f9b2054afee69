import ApiTypings.TypeScript.EndpointTypes

/-! # What declarations take over

Names, keys and literals come from the documents. Names are written as they are; keys and the values
of literals are quoted, unless a key is an identifier. All else in a declaration is fixed, or the
text of a comment.
-/

namespace ApiTypings.TypeScript

namespace TypeExpr

/-- The names of schemas and aliases in an expression. -/
def bare : TypeExpr → List String
  | .alias name => [name]
  | .schema name => [name]
  | .array element => element.bare
  | .map values => values.bare
  | _ => []

def quoted : TypeExpr → List String
  | .literals values => values
  | .array element => element.quoted
  | .map values => values.quoted
  | _ => []

end TypeExpr

def memberBare (ms : List Member) : List String := ms.flatMap fun m => m.type.bare

def memberQuoted (ms : List Member) : List String := ms.flatMap fun m => m.key :: m.type.quoted

namespace SchemaDeclarations

variable (d : SchemaDeclarations)

def bare : List String :=
  d.aliases.map LiteralAlias.name ++
    d.interfaces.flatMap fun i => i.name :: memberBare i.members

def quoted : List String :=
  d.aliases.flatMap LiteralAlias.values ++ d.interfaces.flatMap fun i => memberQuoted i.members

/-- What the schema document takes over, as it is written there. -/
def insertions : List String := d.bare ++ d.quoted.map escaped

end SchemaDeclarations

def Extension.bare (e : Extension) : List String := e.base.toList ++ memberBare e.members

namespace ResponseType

def bare : ResponseType → List String
  | .object e => e.bare
  | .value type => type.bare

def quoted : ResponseType → List String
  | .object e => memberQuoted e.members
  | .value type => type.quoted

end ResponseType

namespace EndpointTypes

variable (t : EndpointTypes)

def bare : List String := t.request.bare ++ t.response.bare

def quoted : List String := memberQuoted t.request.members ++ t.response.quoted

def insertions : List String := t.name :: (t.bare ++ t.quoted.map escaped)

end EndpointTypes

def RequestFunction.insertions (f : RequestFunction) : List String :=
  [f.name, urlTemplate f.path, f.method]

end ApiTypings.TypeScript
