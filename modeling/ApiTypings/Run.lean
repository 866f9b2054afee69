import ApiTypings.Failure
import ApiTypings.Url.Parse
import ApiTypings.Warning

/-! # Runs

What a computation does on its way to a result or a failure: it warns and it requests documents.
After a failure nothing more happens.
-/

namespace ApiTypings

inductive Event where
  | warned (w : Warning)
  | requested (u : Url)
deriving DecidableEq, Repr

structure Run (α : Type) where
  events : List Event
  result : Except Failure α

namespace Run

variable {α β : Type}

protected def pure (a : α) : Run α := ⟨[], .ok a⟩

protected def bind (x : Run α) (f : α → Run β) : Run β :=
  match x.result with
  | .ok a => ⟨x.events ++ (f a).events, (f a).result⟩
  | .error e => ⟨x.events, .error e⟩

instance : Monad Run where
  pure := Run.pure
  bind := Run.bind

/-- A result that needs nothing to be done. -/
def ofExcept (r : Except Failure α) : Run α := ⟨[], r⟩

def fail (e : Failure) : Run α := ⟨[], .error e⟩

def log (e : Event) : Run Unit := ⟨[e], .ok ()⟩

/-- A value with its warnings. -/
def ofWarned (x : Warned α) : Run α := ⟨x.warnings.map .warned, .ok x.value⟩

@[simp] theorem result_pure (a : α) : (pure a : Run α).result = .ok a := rfl

@[simp] theorem events_pure (a : α) : (pure a : Run α).events = [] := rfl

@[simp] theorem result_bind (x : Run α) (f : α → Run β) :
    (x >>= f).result = x.result.bind fun a => (f a).result := by
  show (Run.bind x f).result = _
  unfold Run.bind
  cases x.result <;> rfl

theorem bind_ok {x : Run α} {a : α} (h : x.result = .ok a) (f : α → Run β) :
    x >>= f = ⟨x.events ++ (f a).events, (f a).result⟩ := by
  show Run.bind x f = _
  simp [Run.bind, h]

theorem bind_error {x : Run α} {e : Failure} (h : x.result = .error e) (f : α → Run β) :
    x >>= f = ⟨x.events, .error e⟩ := by
  show Run.bind x f = _
  simp [Run.bind, h]

@[simp] theorem result_ofExcept (r : Except Failure α) : (ofExcept r).result = r := rfl

@[simp] theorem result_ofWarned (x : Warned α) : (ofWarned x).result = .ok x.value := rfl

def warnings (x : Run α) : List Warning :=
  x.events.filterMap fun
    | .warned w => some w
    | .requested _ => none

def requests (x : Run α) : List Url :=
  x.events.filterMap fun
    | .warned _ => none
    | .requested u => some u

end Run

end ApiTypings
