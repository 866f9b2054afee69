import ApiTypings.Decode.Value

/-! # Records

A record is an object whose members are read one by one in source order. It may also be written
as an array of its members in the order of declaration. Members of other names are skipped.
-/

namespace ApiTypings

variable {β ρ : Type}

/-- A member of a record `ρ` that is read from a `β`. A droppable one may be left out at the
end of an array. -/
structure Field (β ρ : Type) where
  name : String
  droppable : Bool
  read : β → ρ → Decoded ρ

structure Record (β ρ : Type) where
  name : String
  fields : List (Field β ρ)

namespace Record

def field? (r : Record β ρ) (key : String) : Option (Field β ρ) :=
  r.fields.find? fun f => f.name == key

/-- Read members into `x`; the fields in `seen` have been read before. -/
def readMembers (r : Record β ρ) : List String → ρ → List (String × β) → Decoded ρ
  | _, x, [] => .ok x
  | seen, x, (key, v) :: rest =>
    match r.field? key with
    | none => readMembers r seen x rest
    | some f =>
      if seen.contains key then .error (.duplicateField key)
      else do
        let x ← f.read v x
        readMembers r (key :: seen) x rest

/-- Read the items of an array into the fields from `index` on. -/
def readItems (r : Record β ρ) : Nat → List (Field β ρ) → ρ → List β → Decoded ρ
  | _, [], x, [] => .ok x
  | _, [], _, _ :: _ => .error .malformed
  | index, f :: fields, x, v :: rest => do
    let x ← f.read v x
    readItems r (index + 1) fields x rest
  | index, f :: fields, x, [] =>
    if f.droppable then readItems r (index + 1) fields x []
    else .error (.wrongLength index r.name r.fields.length)

def read (r : Record Json ρ) (start : ρ) : Json → Decoded ρ
  | .object members => r.readMembers [] start members
  | .array items => r.readItems 0 r.fields start items
  | j => .error (j.mismatch (.record r.name))

end Record

/-- The value of a field that must be there. -/
def demand {α : Type} (field : String) : Option α → Decoded α
  | some a => .ok a
  | none => .error (.missingField field)

end ApiTypings
