/-! # Warnings

What a run leaves out or replaces without failing. A computation with warnings is its value
together with the warnings in the order in which they arose.
-/

namespace ApiTypings

inductive Warning where
  | unresolved (reference place : String)
  | outsideModule (id : String)
  | nestedFolder (folder module : String)
  | skipped (id reason : String)
deriving DecidableEq, Repr

def Warning.message : Warning → String
  | .unresolved reference place =>
    "unresolved reference '" ++ reference ++ "' at '" ++ place ++ "', using 'unknown'"
  | .outsideModule id => "skipping endpoint " ++ id ++ " placed outside of any module"
  | .nestedFolder folder module =>
    "skipping folder '" ++ folder ++ "' nested deeper than two levels in '" ++ module ++ "'"
  | .skipped id reason => "skipping endpoint " ++ id ++ ": " ++ reason

structure Warned (α : Type) where
  value : α
  warnings : List Warning

namespace Warned

variable {α β : Type}

protected def pure (a : α) : Warned α := ⟨a, []⟩

protected def bind (x : Warned α) (f : α → Warned β) : Warned β :=
  ⟨(f x.value).value, x.warnings ++ (f x.value).warnings⟩

instance : Monad Warned where
  pure := Warned.pure
  bind := Warned.bind

instance : LawfulMonad Warned :=
  .mk' _ (fun _ => congrArg (Warned.mk _) (List.append_nil _)) (fun _ _ => rfl)
    fun _ _ _ => congrArg (Warned.mk _) (List.append_assoc _ _ _)

@[simp] theorem value_pure (a : α) : (pure a : Warned α).value = a := rfl

@[simp] theorem warnings_pure (a : α) : (pure a : Warned α).warnings = [] := rfl

@[simp] theorem value_bind (x : Warned α) (f : α → Warned β) :
    (x >>= f).value = (f x.value).value := rfl

@[simp] theorem warnings_bind (x : Warned α) (f : α → Warned β) :
    (x >>= f).warnings = x.warnings ++ (f x.value).warnings := rfl

@[simp] theorem value_map (f : α → β) (x : Warned α) : (f <$> x).value = f x.value := rfl

@[simp] theorem warnings_map (f : α → β) (x : Warned α) : (f <$> x).warnings = x.warnings :=
  List.append_nil _

def each (f : α → Warned β) : List α → Warned (List β)
  | [] => pure []
  | a :: rest => do
    let b ← f a
    let bs ← each f rest
    return b :: bs

@[simp] theorem value_each (f : α → Warned β) (xs : List α) :
    (each f xs).value = xs.map fun a => (f a).value := by
  induction xs with
  | nil => rfl
  | cons a xs ih => simp [each, ih]

@[simp] theorem warnings_each (f : α → Warned β) (xs : List α) :
    (each f xs).warnings = xs.flatMap fun a => (f a).warnings := by
  induction xs with
  | nil => rfl
  | cons a xs ih => simp [each, ih]

end Warned

end ApiTypings
