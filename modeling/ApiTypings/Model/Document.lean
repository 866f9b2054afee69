import ApiTypings.Model.Property
import ApiTypings.Text.Case

/-! # Documents of a share

The named schemas, the tree of modules, folders and endpoints, and the detail of one endpoint.
-/

namespace ApiTypings

structure Schema where
  /-- What references point at. -/
  id : String
  /-- The name that references resolve to. -/
  name : String
  /-- The name of the declaration. -/
  title : String
  description : Option String
  properties : Properties
  required : Option (List String)

/-- A module, a folder or an endpoint. An endpoint has an id. -/
structure Node where
  name : Option String
  endpoint : Option String
  children : List Node

structure Parameter where
  name : String
  required : Bool
  enabled : Bool
  schema : Property

/-- Parameters by their place in a request. -/
structure Parameters where
  path : List Parameter
  query : List Parameter
  header : List Parameter
  cookie : List Parameter

structure Body where
  contentType : String
  schema : Option Property
  /-- The fields of a form. -/
  parameters : List Parameter

namespace Body

def isJson (b : Body) : Bool := b.contentType == "application/json"

def isForm (b : Body) : Bool :=
  b.contentType == "multipart/form-data" || b.contentType == "application/x-www-form-urlencoded"

end Body

structure Response where
  name : String
  schema : Option Property

structure Endpoint where
  path : String
  method : String
  name : String
  description : String
  parameters : Option Parameters
  body : Option Body
  responses : List Response

namespace Endpoint

/-- Method and path, as messages name the endpoint. -/
def label (e : Endpoint) : String := Text.uppercase e.method ++ " " ++ e.path

/-- The response that describes success: the first one with the expected name. -/
def success? (e : Endpoint) (expected : String) : Option Response :=
  e.responses.find? fun r => r.name == expected

end Endpoint

end ApiTypings
