import ApiTypings.TypeScript.Declaration
import ApiTypings.TypeScript.UrlTemplate

/-! # Declarations for endpoints

The types of a request and a response stand in a namespace of their own; a function sends the
request. Both carry the same comment and the same name.
-/

namespace ApiTypings.TypeScript

structure EndpointComment where
  name : String
  path : String
  method : String
  description : String
deriving DecidableEq, Repr

def EndpointComment.text (indent : Nat) (c : EndpointComment) : String :=
  let margin := spaces indent
  margin ++ "/**\n" ++
  margin ++ " * Name: " ++ commentText c.name ++ "\n" ++
  margin ++ " * Path: " ++ commentText c.path ++ "\n" ++
  margin ++ " * Method: " ++ commentText c.method ++ "\n" ++
  margin ++ " * Description: " ++ commentText c.description ++ "\n" ++
  margin ++ " */\n"

/-- An interface that may extend the interface of a schema. -/
structure Extension where
  base : Option String
  members : List Member
deriving DecidableEq, Repr

def Extension.text (name : String) (e : Extension) : String :=
  "      /** " ++ name ++ " */\n      interface " ++ name ++
    (match e.base with
      | some schema => " extends Api.Schema." ++ schema
      | none => "") ++
    " \x7b\n" ++ membersText 8 e.members ++ "      \x7d\n"

theorem Extension.text_none (name : String) (members : List Member) :
    (mk none members).text name =
      "      /** " ++ name ++ " */\n      interface " ++ name ++ " \x7b\n" ++
        membersText 8 members ++ "      \x7d\n" :=
  congrArg (fun s : String => s ++ " \x7b\n" ++ membersText 8 members ++ "      \x7d\n")
    String.append_empty

theorem Extension.text_some (name schema : String) (members : List Member) :
    (mk (some schema) members).text name =
      "      /** " ++ name ++ " */\n      interface " ++ name ++ " extends Api.Schema." ++ schema ++
        " \x7b\n" ++ membersText 8 members ++ "      \x7d\n" :=
  congrArg (fun s : String => s ++ " \x7b\n" ++ membersText 8 members ++ "      \x7d\n")
    String.append_assoc.symm

/-- The type of a response. Only an object can be extended, other types get an alias. -/
inductive ResponseType where
  | object (e : Extension)
  | value (type : TypeExpr)
deriving DecidableEq, Repr

def ResponseType.text : ResponseType → String
  | .object e => e.text "Response"
  | .value type => "      /** Response */\n      type Response = " ++ type.text ++ ";\n"

theorem ResponseType.text_value (type : TypeExpr) :
    (value type).text = "      /** Response */\n      type Response = " ++ type.text ++ ";\n" := rfl

structure EndpointTypes where
  name : String
  comment : EndpointComment
  request : Extension
  response : ResponseType
deriving DecidableEq, Repr

def EndpointTypes.text (t : EndpointTypes) : String :=
  t.comment.text 4 ++ "    namespace " ++ t.name ++ " \x7b\n" ++ t.request.text "Request" ++ "\n" ++
    t.response.text ++ "    \x7d\n\n"

structure RequestFunction where
  name : String
  comment : EndpointComment
  path : String
  /-- The method in upper case. -/
  method : String
  /-- Whether the parameters go into the query. -/
  queries : Bool
deriving DecidableEq, Repr

def RequestFunction.text (f : RequestFunction) : String :=
  let types := "Api.Paths." ++ f.name
  f.comment.text 0 ++
  "export function " ++ f.name ++ "(params: " ++ types ++ ".Request): Promise<" ++ types ++
    ".Response> \x7b\n" ++
  "  return request<" ++ types ++ ".Response>(\x7b\n" ++
  "    url: \x60" ++ urlTemplate f.path ++ "\x60,\n" ++
  "    method: \"" ++ f.method ++ "\",\n" ++
  "    " ++ (if f.queries then "params," else "data: params,") ++ "\n" ++
  "  \x7d);\n" ++
  "\x7d\n\n"

end ApiTypings.TypeScript
