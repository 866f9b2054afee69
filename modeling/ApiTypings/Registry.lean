import ApiTypings.Model.Document

/-! # Registry of schema names

Schemas are referred to by id. The name registered last for an id counts.
-/

namespace ApiTypings

/-- Names by id, the latest registration first. -/
structure Registry where
  entries : List (String × String)
deriving Repr

namespace Registry

def empty : Registry := ⟨[]⟩

def register (r : Registry) (id name : String) : Registry := ⟨(id, name) :: r.entries⟩

def ofSchemas (schemas : List Schema) : Registry :=
  schemas.foldl (fun r s => r.register s.id s.name) empty

def name? (r : Registry) (id : String) : Option String := r.entries.lookup id

def size (r : Registry) : Nat := (r.entries.map Prod.fst).eraseDups.length

end Registry

/-- The id in a reference: the text after the last slash. -/
def referenceId (reference : String) : String :=
  String.ofList (reference.toList.reverse.takeWhile (· != '/')).reverse

def Registry.resolve? (r : Registry) (reference : String) : Option String :=
  r.name? (referenceId reference)

end ApiTypings
