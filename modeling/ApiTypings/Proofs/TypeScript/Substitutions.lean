import Mathlib
import ApiTypings.Proofs.TypeScript.Literals
import ApiTypings.Proofs.TypeScript.Tokens

/-! # Substitutions in templates

The value of a template literal depends on the values of the parameters that its substitutions
read. A path whose pieces have nothing that a template changes is read back piece by piece.
-/

namespace ApiTypings.TypeScript

open Text (Piece pieces)

/-! ## Reading templates -/

/-- The name of the parameter that a substitution reads, and the text after the substitution.
Parameters are members of `params`, named bare or by a string literal. -/
def readParameter : List Char → Option (Units × List Char)
  | 'p' :: 'a' :: 'r' :: 'a' :: 'm' :: 's' :: '.' :: rest =>
    let name := rest.takeWhile isNamePart
    match rest.drop name.length with
    | '\x7d' :: t => if isIdentifier (String.ofList name) then some (units name, t) else none
    | _ => none
  | 'p' :: 'a' :: 'r' :: 'a' :: 'm' :: 's' :: '[' :: rest =>
    match readLiteral rest with
    | some (name, ']' :: '\x7d' :: t) => some (name, t)
    | _ => none
  | _ => none

/-- An element of a template literal, with the values of the parameters. A carriage return counts
as a line feed, also together with one. -/
def templateElement (env : Units → Units) : Text.Pattern Units
  | [] => none
  | '\\' :: rest => (escape rest).map fun e => (e.1, e.2 + 1)
  | '$' :: '\x7b' :: rest =>
    (readParameter rest).map fun r => (env r.1, rest.length - r.2.length + 2)
  | '\r' :: rest => some (if rest.head? = some '\n' then [] else [10], 1)
  | c :: _ => some (charUnits c, 1)

/-- The value of a text between backticks, up to the closing one and with what follows it. -/
def readTemplate (env : Units → Units) (s : List Char) : Option (Units × List Char) :=
  readTo '\x60' (templateElement env) 0 s

/-- The value of a template literal. Nothing may follow it. -/
def templateValue? (env : Units → Units) : List Char → Option Units
  | '\x60' :: rest => (readTemplate env rest).bind fun r => if r.2 = [] then some r.1 else none
  | _ => none

def pieceValue (env : Units → Units) : Piece (List Char) → Units
  | .plain c => charUnits c
  | .found name => env (units name)

/-- The value that is meant for a path: its parameters put in, all else as it is. -/
def documentedValue (env : Units → Units) (ps : List (Piece (List Char))) : Units :=
  ps.flatMap (pieceValue env)

/-- The pieces of a path whose template has the value that is meant. -/
structure Faithful (ps : List (Piece (List Char))) : Prop where
  no_backslash : .plain '\\' ∉ ps
  /-- A dollar sign before a brace without a partner would start a substitution. -/
  no_substitution : ¬ [.plain '$', .plain '\x7b'] <:+: ps
  no_return : .plain '\r' ∉ ps
  names : ∀ name, .found name ∈ ps → '\x60' ∉ name ∧ OnOneLine name

/-! ## Elements of a template -/

variable {env : Units → Units} {s t : List Char} {c : Char}

theorem readTemplate_closing (t : List Char) : readTemplate env ('\x60' :: t) = some ([], t) :=
  readTo_closing t

theorem templateElement_plain (hb : c ≠ '\\') (hr : c ≠ '\r')
    (hs : ¬ (c = '$' ∧ t.head? = some '\x7b')) :
    templateElement env (c :: t) = some (charUnits c, 1) := by
  unfold templateElement
  split
  all_goals simp_all

theorem readTemplate_plain (hq : c ≠ '\x60') (hb : c ≠ '\\') (hr : c ≠ '\r')
    (hs : ¬ (c = '$' ∧ t.head? = some '\x7b')) :
    readTemplate env (c :: t) = readAfter (charUnits c) (readTemplate env t) :=
  readTo_element (w := []) hq (templateElement_plain hb hr hs)

theorem readTemplate_backtick (t : List Char) :
    readTemplate env ('\\' :: '\x60' :: t) =
      readAfter (charUnits '\x60') (readTemplate env t) :=
  readTo_element (w := ['\x60']) (by decide) rfl

theorem readTemplate_return (t : List Char) :
    readTemplate env ('\r' :: t) =
      readAfter (if t.head? = some '\n' then [] else [10]) (readTemplate env t) :=
  readTo_element (w := []) (by decide) rfl

theorem readTemplate_escape {v : Units} {w : List Char} (h : escape (w ++ t) = some (v, w.length)) :
    readTemplate env ('\\' :: (w ++ t)) = readAfter v (readTemplate env t) := by
  refine readTo_element (by decide) ?_
  simp [templateElement, h]

theorem readTemplate_substitution {name : Units} {w : List Char}
    (h : readParameter (w ++ t) = some (name, t)) :
    readTemplate env ('$' :: '\x7b' :: (w ++ t)) = readAfter (env name) (readTemplate env t) := by
  refine readTo_element (w := '\x7b' :: w) (by decide) ?_
  simp [templateElement, h]

theorem readTemplate_eq_none (h : readParameter t = none) :
    readTemplate env ('$' :: '\x7b' :: t) = none := by
  refine readTo_none (by decide) ?_
  simp [templateElement, h]

/-! ## Substitutions -/

/-- A substitution without the mark that starts it. -/
def access (name : List Char) : List Char :=
  if isIdentifier (String.ofList name) then "params.".toList ++ (name ++ ['\x7d'])
  else "params[\"".toList ++ (escapeChars name ++ "\"]\x7d".toList)

theorem substitution_eq (name : List Char) :
    substitution name = '$' :: '\x7b' :: access name := by
  unfold substitution access
  split_ifs with h
  · simp [h]
  · simp [h, literal, escaped]

theorem forall_isNamePart {name : List Char} (h : isIdentifier (String.ofList name) = true) :
    ∀ c ∈ name, isNamePart c = true := by
  simpa using isNamePart_of_isIdentifier h

theorem onOneLine_of_isIdentifier {name : List Char}
    (h : isIdentifier (String.ofList name) = true) : OnOneLine name := by
  intro c hc
  have hp := forall_isNamePart h c hc
  constructor <;> rintro rfl <;> simp [isNamePart, Char.isAlphanum, Char.isAlpha] at hp

theorem readParameter_access (name t : List Char) :
    readParameter (access name ++ t) = if OnOneLine name then some (units name, t) else none := by
  unfold access
  split_ifs with h hl hl
  · have hn : (name ++ '\x7d' :: t).takeWhile isNamePart = name := by
      rw [List.takeWhile_append_of_pos (forall_isNamePart h)]
      simp [isNamePart, Char.isAlphanum, Char.isAlpha]
    simp [readParameter, hn, h]
  · exact absurd (onOneLine_of_isIdentifier h) hl
  · simp [readParameter, readLiteral, readTo_escapeChars, hl]
  · simp [readParameter, readLiteral, readTo_escapeChars, hl]

theorem readTemplate_found (name t : List Char) :
    readTemplate env (substitution name ++ t) =
      if OnOneLine name then readAfter (env (units name)) (readTemplate env t) else none := by
  have hr := readParameter_access name t
  rw [substitution_eq]
  split_ifs at hr ⊢
  · exact readTemplate_substitution hr
  · exact readTemplate_eq_none hr

/-! ## Faithful pieces -/

variable {p : Piece (List Char)} {ps qs : List (Piece (List Char))}

/-- The written template from a piece on, with the closing backtick. -/
def remainder (ps : List (Piece (List Char))) : List Char := templateText ps ++ ['\x60']

theorem pieceText_plain (h : c ≠ '\x60') : pieceText (.plain c) = [c] := by
  simp [pieceText, h]

theorem remainder_plain {c : Char} (h : c ≠ '\x60') :
    remainder (.plain c :: ps) = c :: remainder ps := by
  simp [remainder, templateText, pieceText_plain h]

theorem remainder_backtick : remainder (.plain '\x60' :: ps) = '\\' :: '\x60' :: remainder ps := rfl

theorem remainder_found (name : List Char) :
    remainder (.found name :: ps) =
      '$' :: '\x7b' :: (access (escapeBackticks name) ++ remainder ps) := by
  simp [remainder, templateText, pieceText, substitution_eq]

theorem remainder_ne_nil (ps : List (Piece (List Char))) : remainder ps ≠ [] := by
  simp [remainder]

@[simp] theorem documentedValue_nil : documentedValue env [] = [] := rfl

@[simp] theorem documentedValue_plain (c : Char) (ps : List (Piece (List Char))) :
    documentedValue env (.plain c :: ps) = charUnits c ++ documentedValue env ps := rfl

@[simp] theorem documentedValue_found (name : List Char) (ps : List (Piece (List Char))) :
    documentedValue env (.found name :: ps) = env (units name) ++ documentedValue env ps := rfl

theorem Faithful.tail (h : Faithful (p :: ps)) : Faithful ps where
  no_backslash hm := h.no_backslash (List.mem_cons_of_mem _ hm)
  no_substitution hi := h.no_substitution (hi.trans (List.suffix_cons p ps).isInfix)
  no_return hm := h.no_return (List.mem_cons_of_mem _ hm)
  names name hm := h.names name (List.mem_cons_of_mem _ hm)

theorem head?_remainder_iff :
    (remainder ps).head? = some '\x7b' ↔ ps.head? = some (.plain '\x7b') := by
  cases ps with
  | nil => simp [remainder, templateText]
  | cons p ps =>
    cases p with
    | plain c =>
      by_cases hc : c = '\x60'
      · simp [hc, remainder_backtick]
      · simp [remainder_plain hc]
    | found name => simp [remainder_found]

theorem not_substitution_iff :
    ¬ [.plain '$', .plain '\x7b'] <:+: (.plain c :: ps) ↔
      ¬ (c = '$' ∧ (remainder ps).head? = some '\x7b') ∧
        ¬ [.plain '$', .plain '\x7b'] <:+: ps := by
  rw [head?_remainder_iff, List.infix_cons_iff, not_or, List.cons_prefix_cons,
    Piece.plain.injEq, eq_comm]
  cases ps with
  | nil => simp
  | cons p ps => simp [eq_comm (a := p)]

theorem escapeBackticks_eq_self {name : List Char} (h : '\x60' ∉ name) :
    escapeBackticks name = name := by
  induction name with
  | nil => rfl
  | cons c name ih =>
    have hc : c ≠ '\x60' := fun hc => h (hc ▸ List.mem_cons_self)
    rw [escapeBackticks_cons hc, ih fun hn => h (List.mem_cons_of_mem c hn)]

theorem readTemplate_remainder_found (name : List Char) :
    readTemplate env (remainder (.found name :: ps)) =
      if OnOneLine (escapeBackticks name) then
        readAfter (env (units (escapeBackticks name))) (readTemplate env (remainder ps))
      else none := by
  rw [← readTemplate_found]
  simp [remainder_found, substitution_eq]

theorem readTemplate_of_faithful (h : Faithful ps) :
    readTemplate env (remainder ps) = some (documentedValue env ps, []) := by
  induction ps with
  | nil => exact readTemplate_closing []
  | cons p ps ih =>
    specialize ih h.tail
    cases p with
    | plain c =>
      by_cases hq : c = '\x60'
      · subst hq
        rw [remainder_backtick, readTemplate_backtick, ih]
        rfl
      · have hb : c ≠ '\\' := by
          rintro rfl
          exact h.no_backslash List.mem_cons_self
        have hr : c ≠ '\r' := by
          rintro rfl
          exact h.no_return List.mem_cons_self
        rw [remainder_plain hq,
          readTemplate_plain hq hb hr (not_substitution_iff.mp h.no_substitution).1, ih]
        rfl
    | found name =>
      obtain ⟨hq, hl⟩ := h.names name List.mem_cons_self
      rw [readTemplate_remainder_found, escapeBackticks_eq_self hq, if_pos hl, ih]
      rfl

end ApiTypings.TypeScript
