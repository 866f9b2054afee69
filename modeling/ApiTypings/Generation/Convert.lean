import ApiTypings.Source.Basic
import ApiTypings.Typing.Schemas
import ApiTypings.Typing.Tree

/-! # Conversion

The documents of a source become declarations: those of the schemas, and for every endpoint in
the order of the tree a namespace and a function. An endpoint without the expected response ends
a strict conversion; else it is skipped.
-/

namespace ApiTypings

open TypeScript Naming

structure SkippedEndpoint where
  id : String
  endpoint : String
  reason : MissingResponse
deriving DecidableEq, Repr

inductive Conversion where
  | converted (types : EndpointTypes) (function : RequestFunction)
  | skipped (s : SkippedEndpoint)
deriving DecidableEq, Repr

namespace Conversion

def types? : Conversion → Option EndpointTypes
  | .converted types _ => some types
  | .skipped _ => none

def function? : Conversion → Option RequestFunction
  | .converted _ function => some function
  | .skipped _ => none

def skipped? : Conversion → Option SkippedEndpoint
  | .converted .. => none
  | .skipped s => some s

end Conversion

/-- The names given to namespaces and to functions so far. -/
structure Names where
  types : Ledger
  functions : Ledger
deriving DecidableEq, Repr

def Names.empty : Names := ⟨.empty, .empty⟩

/-- What a conversion depends on besides the documents. -/
structure ConversionRules where
  /-- The name of the response from which an endpoint takes its response type. -/
  successResponse : String
  strict : Bool
deriving DecidableEq, Repr

/-- Warn of what a declaration warned of, and go on with its names whether it failed or not. -/
def Run.ofDeclared {α : Type} (x : Declared α) : Run (Except MissingResponse α × Ledger) :=
  ⟨x.warnings.map .warned, .ok (x.result, x.names)⟩

def convertEndpoint (rules : ConversionRules) (r : Registry) (id : String) (e : Endpoint)
    (names : Names) : Run (Conversion × Names) := do
  let (types, typeNames) ←
    Run.ofDeclared (declareTypes r rules.successResponse e names.types)
  match types with
  | .error missing =>
    if rules.strict then Run.fail (.missingResponse missing)
    else
      Run.log (.warned (.skipped id missing.message))
      return (.skipped ⟨id, e.label, missing⟩, ⟨typeNames, names.functions⟩)
  | .ok types =>
    let (function, functionNames) ←
      Run.ofDeclared (declareFunction rules.successResponse e names.functions)
    match function with
    | .error missing => Run.fail (.missingResponse missing)
    | .ok function => return (.converted types function, ⟨typeNames, functionNames⟩)

def convertEndpoints (rules : ConversionRules) (r : Registry) (source : Source) :
    List String → Names → Run (List Conversion × Names)
  | [], names => pure ([], names)
  | id :: rest, names => do
    let e ← source.endpoint id
    let (c, names) ← convertEndpoint rules r id e names
    let (cs, names) ← convertEndpoints rules r source rest names
    return (c :: cs, names)

structure Declarations where
  /-- The number of schemas. -/
  schemaCount : Nat
  schemas : SchemaDeclarations
  endpoints : List Conversion
  names : Names
deriving DecidableEq, Repr

/-- All schemas are known before anything refers to them. -/
def convert (rules : ConversionRules) (source : Source) : Run Declarations := do
  let schemas ← source.schemas
  let registry := Registry.ofSchemas schemas
  let declared ← Run.ofWarned (declareSchemas registry schemas)
  let modules ← source.tree
  let ids ← Run.ofWarned (endpointIds modules)
  let (endpoints, names) ← convertEndpoints rules registry source ids .empty
  return ⟨schemas.length, declared, endpoints, names⟩

namespace Declarations

variable (d : Declarations)

def types : List EndpointTypes := d.endpoints.filterMap Conversion.types?

def functions : List RequestFunction := d.endpoints.filterMap Conversion.function?

def skipped : List SkippedEndpoint := d.endpoints.filterMap Conversion.skipped?

end Declarations

end ApiTypings
