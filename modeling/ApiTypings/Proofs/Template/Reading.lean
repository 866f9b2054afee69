import Mathlib
import ApiTypings.Template.Reader

/-! # Templates as they are written

A template in which no mark stands but variables between double braces is read as the texts
between them, every character as it is. Rendering puts every value in its place as it is.
-/

namespace ApiTypings.Template

/-- Whether a character makes a mark of the brace before it. -/
def opensMark (c : Char) : Bool := c == '\x7b' || c == '#' || c == '%'

/-- Text in which no mark starts and whose last character can start none. -/
def isPlain : List Char → Bool
  | [] => true
  | '\x7b' :: rest => (rest.head?.any fun c => !opensMark c) && isPlain rest
  | _ :: rest => isPlain rest

def place (name : List Char) : List Char :=
  '\x7b' :: '\x7b' :: ' ' :: (name ++ [' ', '\x7d', '\x7d'])

/-- Texts without marks, with at least one variable between any two of them, and the template that
they are written as. -/
inductive IsWritten : List TemplatePart → List Char → Prop
  | nil : IsWritten [] []
  | ending {s : String} (hs : s ≠ "") (hp : isPlain s.toList = true) : IsWritten [.text s] s.toList
  | place {name : String} {rest : List TemplatePart} {t : List Char}
      (hn : isName name.toList = true) (hr : IsWritten rest t) :
      IsWritten (.variable name :: rest) (place name.toList ++ t)
  | placeAfter {s name : String} {rest : List TemplatePart} {t : List Char} (hs : s ≠ "")
      (hp : isPlain s.toList = true) (hn : isName name.toList = true) (hr : IsWritten rest t) :
      IsWritten (.text s :: .variable name :: rest) (s.toList ++ (place name.toList ++ t))

variable {s t name : List Char} {ps : List Piece} {parts : List TemplatePart} {c : Char}

/-! ## Pieces -/

def Reads (s : List Char) (ps : List Piece) : Prop :=
  ∀ fuel, s.length < fuel → readPieces fuel s = some ps

theorem reads_nil : Reads [] [.text []]
  | _ + 1, _ => rfl

theorem Reads.char (h : Reads t (.text s :: ps))
    (hc : c = '\x7b' → t.head?.any (fun k => !opensMark k) = true) :
    Reads (c :: t) (.text (c :: s) :: ps) := by
  intro fuel hf
  cases fuel with
  | zero => cases hf
  | succ fuel =>
    have ht : readPieces fuel t = some (.text s :: ps) := h fuel (Nat.lt_of_succ_lt_succ hf)
    unfold readPieces
    split
    · rename_i k inner
      have hk := hc rfl
      have hn : ¬(k = '\x7b' ∨ k = '#' ∨ k = '%') := by
        simpa [opensMark, not_or, and_assoc] using hk
      rw [if_neg hn, ht]
      rfl
    · rw [ht]
      rfl

theorem Reads.plain (h : Reads t (.text [] :: ps)) (hs : isPlain s = true) :
    Reads (s ++ t) (.text s :: ps) := by
  induction s with
  | nil => exact h
  | cons c s ih =>
    by_cases hc : c = '\x7b'
    · subst hc
      rw [isPlain, Bool.and_eq_true] at hs
      refine (ih hs.2).char fun _ => ?_
      cases s with
      | nil => cases hs.1
      | cons k s => exact hs.1
    · rw [isPlain] at hs
      · exact (ih hs).char fun h => absurd h hc
      · exact fun h => hc h

/-! ## Variables -/

theorem isNameChar_of_mem (h : isName name = true) (hc : c ∈ name) :
    (c.isAlphanum || c == '_') = true := by
  cases name with
  | nil => cases hc
  | cons d rest =>
    rw [isName, Bool.and_eq_true, List.all_eq_true] at h
    rcases List.mem_cons.mp hc with rfl | hc
    · rw [Char.isAlphanum]
      cases hd : c.isAlpha <;> simp_all
    · exact h.2 c hc

theorem cutAt_of_not_mem (h : ∀ c ∈ s, c ≠ '-' ∧ c ≠ '\x7d') (t : List Char) :
    cutAt "\x7d\x7d".toList (s ++ '\x7d' :: '\x7d' :: t) = some (s, false, t) := by
  induction s with
  | nil => simp [cutAt]
  | cons c s ih =>
    rw [List.forall_mem_cons] at h
    rw [List.cons_append, cutAt, ih h.2, if_neg (fun hc => h.1.1 hc.1), if_neg]
    · rfl
    · simp [Ne.symm h.1.2]

theorem dropWhile_eq_self {p : Char → Bool} (h : ∀ c ∈ s, p c = false) : s.dropWhile p = s := by
  cases s with
  | nil => rfl
  | cons c s => exact List.dropWhile_cons_of_neg (by simp [h])

theorem strip_padded (h : ∀ c ∈ s, isMarkSpace c = false) (hs : s ≠ []) :
    strip (' ' :: (s ++ [' '])) = s := by
  have hstart : (s ++ [' ']).dropWhile isMarkSpace = s ++ [' '] := by
    cases s with
    | nil => cases hs rfl
    | cons c s => exact List.dropWhile_cons_of_neg (by simp [h])
  have hend : s.reverse.dropWhile isMarkSpace = s.reverse :=
    dropWhile_eq_self fun c hc => h c (List.mem_reverse.mp hc)
  have hspace : isMarkSpace ' ' = true := rfl
  rw [strip, List.dropWhile_cons_of_pos hspace, hstart, List.reverse_append,
    List.reverse_singleton, List.singleton_append, List.dropWhile_cons_of_pos hspace, hend,
    List.reverse_reverse]

theorem readMark_variable (h : isName name = true) (t : List Char) :
    readMark '\x7b' (' ' :: (name ++ ' ' :: '\x7d' :: '\x7d' :: t)) =
      some (.mark false (.part (.variable (String.ofList name))) false, t) := by
  have hchar : ∀ c ∈ name, (c.isAlphanum || c == '_') = true := fun c => isNameChar_of_mem h
  have hcut : ∀ c ∈ ' ' :: (name ++ [' ']), c ≠ '-' ∧ c ≠ '\x7d' := by
    intro c hc
    rw [List.mem_cons, List.mem_append, List.mem_singleton] at hc
    rcases hc with rfl | hc | rfl
    · decide
    · have := hchar c hc
      constructor <;> rintro rfl <;> revert this <;> decide
    · decide
  have hstrip : strip (' ' :: (name ++ [' '])) = name := by
    apply strip_padded
    · intro c hc
      have := hchar c hc
      by_contra hs
      simp only [isMarkSpace, Bool.not_eq_false, Bool.or_eq_true, beq_iff_eq, or_assoc] at hs
      rcases hs with rfl | rfl | rfl | rfl <;> revert this <;> decide
    · rintro rfl
      cases h
  have hread := cutAt_of_not_mem hcut t
  rw [List.cons_append, List.append_assoc, List.singleton_append] at hread
  have hmark : variableMark? (' ' :: (name ++ [' '])) =
      some (.part (.variable (String.ofList name))) := by
    rw [variableMark?, hstrip, if_pos h]
  have hhyphen (u : List Char) : cutHyphen (' ' :: u) = (false, ' ' :: u) := rfl
  simp only [readMark, hhyphen, hread, Option.bind_eq_bind, Option.bind_some, hmark]
  rfl

theorem Reads.place (h : Reads t ps) (hn : isName name = true) :
    Reads (place name ++ t)
      (.text [] :: .mark false (.part (.variable (String.ofList name))) false :: ps) := by
  intro fuel hf
  have hw : Template.place name ++ t =
      '\x7b' :: '\x7b' :: ' ' :: (name ++ ' ' :: '\x7d' :: '\x7d' :: t) := by
    simp [Template.place]
  rw [hw] at hf ⊢
  cases fuel with
  | zero => cases hf
  | succ fuel =>
    have ht : readPieces fuel t = some ps := h fuel (by
      simp only [List.length_cons, List.length_append] at hf
      omega)
    rw [readPieces]
    simp only [readMark_variable hn, true_or, if_true, Option.bind_eq_bind, Option.bind_some, ht]
    rfl

/-! ## Parts -/

theorem IsWritten.exists_reads (h : IsWritten parts s) :
    ∃ ps, Reads s ps ∧ (partsOf false ps).filter (fun p => p != .text "") = parts := by
  induction h with
  | nil => exact ⟨_, reads_nil, rfl⟩
  | ending hs hp =>
    have hr := reads_nil.plain hp
    rw [List.append_nil] at hr
    exact ⟨_, hr, by simp [partsOf, trimIf, hs]⟩
  | place hn _ ih =>
    obtain ⟨ps, hr, hf⟩ := ih
    exact ⟨_, hr.place hn, by simp [partsOf, trimIf, hf]⟩
  | placeAfter hs hp hn _ ih =>
    obtain ⟨ps, hr, hf⟩ := ih
    exact ⟨_, (hr.place hn).plain hp, by simp [partsOf, trimIf, hs, hf]⟩

theorem parse_of_isWritten {text : String} (h : IsWritten parts text.toList) :
    parse text = .ok ⟨parts⟩ := by
  obtain ⟨ps, hr, hf⟩ := h.exists_reads
  have hread := hr _ (Nat.lt_succ_self _)
  simp only [parse, hread, hf]

/-! ## Rendering -/

section Rendering

variable {bindings : Bindings} {rendered : String}

theorem renderParts_nil : renderParts bindings [] = .ok "" := rfl

theorem renderParts_text (h : renderParts bindings parts = .ok rendered) (s : String) :
    renderParts bindings (.text s :: parts) = .ok (s ++ rendered) := by
  rw [renderParts, h]
  rfl

theorem renderParts_variable (h : renderParts bindings parts = .ok rendered) {name value : String}
    (hv : bindings.lookup name = some value) :
    renderParts bindings (.variable name :: parts) = .ok (value ++ rendered) := by
  have hr : (TemplatePart.variable name).render bindings = .ok value := by
    rw [TemplatePart.render, hv]
  rw [renderParts, h, hr]
  rfl

end Rendering

end ApiTypings.Template
