import ApiTypings.Text.Case

/-! # Names in declarations

A name that is an identifier may stand bare. The decorations of generic type names are left out
of the names of declarations.
-/

namespace ApiTypings.TypeScript

def isNameStart (c : Char) : Bool := c.isAlpha || c == '_' || c == '$'

def isNamePart (c : Char) : Bool := c.isAlphanum || c == '_' || c == '$'

def isIdentifier (s : String) : Bool :=
  match s.toList with
  | [] => false
  | c :: rest => isNameStart c && rest.all isNamePart

theorem isNamePart_of_isNameStart {c : Char} (h : isNameStart c = true) : isNamePart c = true := by
  simp only [isNameStart, isNamePart, Char.isAlphanum, Bool.or_eq_true] at h ⊢
  rcases h with (h | h) | h <;> simp [h]

theorem isNamePart_of_isIdentifier {s : String} (h : isIdentifier s = true) :
    ∀ c ∈ s.toList, isNamePart c = true := by
  unfold isIdentifier at h
  split at h
  · cases h
  · rename_i c rest hs
    obtain ⟨hc, hr⟩ := Bool.and_eq_true_iff.mp h
    rw [hs]
    exact List.forall_mem_cons.mpr ⟨isNamePart_of_isNameStart hc, List.all_eq_true.mp hr⟩

/-- The marks around type arguments and between the parts of a qualified name. -/
def isDecoration (c : Char) : Bool := c == '«' || c == '»' || c == '.'

def typeName (s : String) : String :=
  String.ofList (s.toList.filter fun c => !isDecoration c)

/-- The name declared for the literals of one property of an owner. -/
def aliasName (owner key : String) : String :=
  typeName (owner ++ Text.capitalize key)

end ApiTypings.TypeScript
