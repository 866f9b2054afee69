import ApiTypings.TypeScript.Literal

/-! # Type expressions -/

namespace ApiTypings.TypeScript

inductive TypeExpr where
  | string
  | number
  | boolean
  | object
  | unknown
  /-- The alias declared for the literals of a property. -/
  | alias (name : String)
  | literals (values : List String)
  /-- The interface of a schema. -/
  | schema (name : String)
  | array (element : TypeExpr)
  /-- An object with values of one type under any keys. -/
  | map (values : TypeExpr)
deriving DecidableEq, Repr

def TypeExpr.text : TypeExpr → String
  | .string => "string"
  | .number => "number"
  | .boolean => "boolean"
  | .object => "object"
  | .unknown => "unknown"
  | .alias name => name
  | .literals values => literalUnion values
  | .schema name => name
  | .array element => "Array<" ++ element.text ++ ">"
  | .map values => "\x7b[key: string]: " ++ values.text ++ "\x7d"

theorem TypeExpr.text_array (element : TypeExpr) :
    (array element).text = "Array<" ++ element.text ++ ">" := rfl

theorem TypeExpr.text_map (values : TypeExpr) :
    (map values).text = "\x7b[key: string]: " ++ values.text ++ "\x7d" := rfl

end ApiTypings.TypeScript
