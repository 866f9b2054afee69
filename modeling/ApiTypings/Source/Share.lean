import ApiTypings.Config.Basic
import ApiTypings.Source.Basic
import ApiTypings.Text.Blank

/-! # Shares

A share is a set of documents that a service offers below one address.
-/

namespace ApiTypings

inductive Reply where
  | answered (status : Nat) (body : String)
  /-- The connection ended without an answer. -/
  | closed
deriving DecidableEq, Repr

/-- What is answered to the request for an address. -/
abbrev Network := Url → Reply

namespace Reply

def isSuccess (status : Nat) : Bool := 200 ≤ status && status < 300

/-- The body of a reply from an address. A byte order mark does not belong to it. -/
def body (u : Url) : Reply → Except TransportError String
  | .answered status body =>
    if isSuccess status then
      match body.toList with
      | '\uFEFF' :: rest => .ok (String.ofList rest)
      | _ => .ok body
    else .error (.status u.text status)
  | .closed => .error (.unreachable u.text)

end Reply

/-- A share, by the address that its documents lie below. -/
structure Share where
  documents : Url
deriving DecidableEq, Repr

namespace Share

/-- The address with a slash at the end of its path. -/
def withSlash (u : Url) : Url :=
  match u.path with
  | .segments ss =>
    if ss.getLast? = some [] then u else { u with path := .segments (ss ++ [[]]) }
  | .opaqueText _ => u

/-- The share with an id at a service. -/
def at? (base : Url) (id : String) : Except ConfigError Share :=
  let id := Text.trim id
  if id.isEmpty then .error .emptyShareId
  else match Url.join (withSlash base) ("api/v1/shared-docs/" ++ id ++ "/") with
    | .ok u => .ok ⟨u⟩
    | .error e => .error (.invalidBase base.text e)

def ofConfig (c : Config) : Except ConfigError Share :=
  match c.shareId with
  | some id => at? c.baseUrl.url id
  | none => .error .noShareId

def address (s : Share) (tail : String) : Except ConfigError Url :=
  match Url.join s.documents tail with
  | .ok u => .ok u
  | .error e => .error (.invalidTail tail e)

def get (n : Network) (u : Url) : Run String := do
  Run.log (.requested u)
  Run.ofExcept (((n u).body u).mapError .transport)

def fetch (s : Share) (n : Network) (tail : String) : Run String := do
  let u ← Run.ofExcept ((s.address tail).mapError .config)
  get n u

variable {α : Type}

def read (s : Share) (n : Network) (decode : Json → Decoded α) (tail : String) : Run α := do
  let u ← Run.ofExcept ((s.address tail).mapError .config)
  let body ← get n u
  Run.ofExcept (openEnvelope decode u.text body)

def schemasTail : String := "data-schemas"

def treeTail : String := "http-api-tree"

def endpointTail (id : String) : String := "http-apis/" ++ id

def source (s : Share) (n : Network) : Source where
  schemas := s.read n decodeSchemas schemasTail
  tree := s.read n decodeNodes treeTail
  endpoint id := s.read n Endpoint.decode (endpointTail id)

end Share

end ApiTypings
