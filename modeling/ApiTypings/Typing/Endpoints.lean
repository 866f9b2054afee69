import ApiTypings.Naming.Ledger
import ApiTypings.TypeScript.EndpointTypes
import ApiTypings.Typing.Resolve

/-! # Declarations for endpoints

An endpoint needs a response with the expected name. It becomes a namespace with the types of
its request and of that response, and a function; each of the two claims a name of its own. What is
claimed and warned of before a failure remains.
-/

namespace ApiTypings

open TypeScript Naming

structure MissingResponse where
  endpoint : String
  expected : String
deriving DecidableEq, Repr

def MissingResponse.message (m : MissingResponse) : String :=
  "endpoint '" ++ m.endpoint ++ "' has no response named '" ++ m.expected ++ "'"

namespace Endpoint

variable (e : Endpoint)

def comment : EndpointComment := ⟨e.name, e.path, e.method, e.description⟩

def findSuccess (expected : String) : Except MissingResponse Response :=
  match e.success? expected with
  | some r => .ok r
  | none => .error ⟨e.label, expected⟩

end Endpoint

/-! ## Claiming names -/

/-- What a declaration ends with: a result or why there is none, and in both cases the warnings and
the names claimed so far. -/
structure Declared (α : Type) where
  result : Except MissingResponse α
  warnings : List Warning
  names : Ledger

/-- A declaration that claims names from a ledger. -/
def Declaring (α : Type) : Type := Ledger → Declared α

namespace Declaring

variable {α β : Type}

protected def pure (a : α) : Declaring α := fun names => ⟨.ok a, [], names⟩

protected def bind (x : Declaring α) (f : α → Declaring β) : Declaring β := fun names =>
  match x names with
  | ⟨.ok a, warnings, names⟩ =>
    let rest := f a names
    { rest with warnings := warnings ++ rest.warnings }
  | ⟨.error m, warnings, names⟩ => ⟨.error m, warnings, names⟩

instance : Monad Declaring where
  pure := Declaring.pure
  bind := Declaring.bind

def ofExcept (r : Except MissingResponse α) : Declaring α := fun names => ⟨r, [], names⟩

def ofWarned (x : Warned α) : Declaring α := fun names => ⟨.ok x.value, x.warnings, names⟩

def claim (e : Endpoint) : Declaring String := fun names =>
  let (name, names) := names.claimEndpoint e.path e.method
  ⟨.ok name, [], names⟩

end Declaring

/-! ## Types -/

/-- The schema that a body extends: the one it refers to. -/
def extendedSchema (r : Registry) (place : String) (p : Property) : Warned (Option String) :=
  match p.target? with
  | some target => resolveReference r place target
  | none => pure none

def inlineMembers (r : Registry) : Property → Warned (List Member)
  | .object _ _ properties required => Warned.each (memberOf r none required) properties
  | _ => pure []

def parameterMember (r : Registry) (p : Parameter) : Warned Member := do
  let type ← typeOf r p.name none p.schema
  return ⟨p.name, !p.required, type, p.schema.description.getD ""⟩

/-- The members for the parameters that are not switched off. -/
def parameterMembers (r : Registry) (ps : List Parameter) : Warned (List Member) :=
  Warned.each (parameterMember r) (ps.filter Parameter.enabled)

/-- An interface that extends what `p` refers to or has its properties as members. -/
def extensionOf (r : Registry) (place : String) (p : Property) : Warned Extension := do
  let base ← extendedSchema r place p
  let members ← inlineMembers r p
  return ⟨base, members⟩

/-- What the body contributes to the request. -/
def bodyExtension (r : Registry) (b : Body) : Warned Extension :=
  if b.isJson then
    match b.schema with
    | some p => extensionOf r "request body" p
    | none => pure ⟨none, []⟩
  else if b.isForm then Extension.mk none <$> parameterMembers r b.parameters
  else pure ⟨none, []⟩

/-- The request has the members of the body, then those of the path and of the query. -/
def requestType (r : Registry) (e : Endpoint) : Warned Extension := do
  let body ← match e.body with
    | some b => bodyExtension r b
    | none => pure ⟨none, []⟩
  let (path, query) := match e.parameters with
    | some ps => (ps.path, ps.query)
    | none => ([], [])
  let path ← parameterMembers r path
  let query ← parameterMembers r query
  return { body with members := body.members ++ path ++ query }

def responseType (r : Registry) : Option Property → Warned ResponseType
  | none => pure (.object ⟨none, []⟩)
  | some p =>
    match p with
    | .object .. | .reference .. | .unknown _ => ResponseType.object <$> extensionOf r "response" p
    | _ => ResponseType.value <$> typeOf r "response" none p

/-- The namespace of an endpoint, under a name claimed from the ledger. -/
def declareTypes (r : Registry) (expected : String) (e : Endpoint) : Declaring EndpointTypes := do
  let success ← .ofExcept (e.findSuccess expected)
  let name ← .claim e
  let request ← .ofWarned (requestType r e)
  let response ← .ofWarned (responseType r success.schema)
  return ⟨name, e.comment, request, response⟩

/-! ## Functions -/

/-- Whether requests of this method send their parameters in the query. -/
def sendsQuery (method : String) : Bool :=
  let m := Text.uppercase method
  m == "GET" || m == "DELETE"

def declareFunction (expected : String) (e : Endpoint) : Declaring RequestFunction := do
  let _ ← .ofExcept (e.findSuccess expected)
  let name ← .claim e
  let method := Text.uppercase e.method
  return ⟨name, e.comment, e.path, method, sendsQuery method⟩

end ApiTypings
