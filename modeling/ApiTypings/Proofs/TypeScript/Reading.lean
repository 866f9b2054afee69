import Mathlib
import ApiTypings.Text.Hex
import ApiTypings.Text.Scan
import ApiTypings.TypeScript.Literal

/-! # Reading literals

What the text of a literal stands for in a program. A string is a sequence of code units of
sixteen bits. A literal is read element by element up to its closing mark: a backslash starts an
escape sequence, and most other characters stand for themselves.
-/

namespace ApiTypings.TypeScript

/-! ## Code units -/

abbrev Units := List UInt16

/-- The units of a code point. From 65536 on there are two. -/
def codeUnits (n : ℕ) : Units :=
  if n < 0x10000 then [n.toUInt16]
  else [(0xD800 + (n - 0x10000) / 0x400).toUInt16, (0xDC00 + (n - 0x10000) % 0x400).toUInt16]

def charUnits (c : Char) : Units := codeUnits c.toNat

def units (s : List Char) : Units := s.flatMap charUnits

@[simp] theorem units_nil : units [] = [] := rfl

@[simp] theorem units_cons (c : Char) (s : List Char) :
    units (c :: s) = charUnits c ++ units s := rfl

@[simp] theorem units_append (s t : List Char) : units (s ++ t) = units s ++ units t :=
  List.flatMap_append

theorem length_codeUnits (n : ℕ) : (codeUnits n).length = if n < 0x10000 then 1 else 2 := by
  unfold codeUnits
  split_ifs <;> rfl

theorem length_codeUnits_pos (n : ℕ) : 0 < (codeUnits n).length := by
  rw [length_codeUnits]
  split_ifs <;> omega

theorem length_le_length_units (s : List Char) : s.length ≤ (units s).length := by
  induction s with
  | nil => simp
  | cons c s ih =>
    have : 0 < (charUnits c).length := length_codeUnits_pos c.toNat
    simp only [units_cons, List.length_append, List.length_cons]
    omega

theorem toUInt16_inj {m n : ℕ} (hm : m < 0x10000) (hn : n < 0x10000) :
    m.toUInt16 = n.toUInt16 ↔ m = n := by
  rw [← UInt16.toNat_inj]
  simp only [Nat.toUInt16_eq, UInt16.toNat_ofNat']
  omega

/-- There are no characters in the range of the first of two units, so no character starts as
another one does. -/
theorem charUnits_append_inj {c d : Char} {s t : Units}
    (h : charUnits c ++ s = charUnits d ++ t) : c = d ∧ s = t := by
  have hc : c.toNat.isValidChar := c.valid
  have hd : d.toNat.isValidChar := d.valid
  rw [← Char.toNat_inj]
  unfold charUnits codeUnits at h
  split_ifs at h with hc' hd' hd'
  · obtain ⟨hu, hs⟩ := List.cons_eq_cons.mp h
    exact ⟨(toUInt16_inj hc' hd').mp hu, hs⟩
  · obtain ⟨hu, -⟩ := List.cons_eq_cons.mp h
    have := (toUInt16_inj hc' (by omega)).mp hu
    omega
  · obtain ⟨hu, -⟩ := List.cons_eq_cons.mp h
    have := (toUInt16_inj (by omega) hd').mp hu
    omega
  · obtain ⟨hu, h⟩ := List.cons_eq_cons.mp h
    obtain ⟨hv, hs⟩ := List.cons_eq_cons.mp h
    have := (toUInt16_inj (by omega) (by omega)).mp hu
    have := (toUInt16_inj (by omega) (by omega)).mp hv
    exact ⟨by omega, hs⟩

theorem charUnits_ne_nil (c : Char) : charUnits c ≠ [] :=
  List.length_pos_iff.mp (length_codeUnits_pos c.toNat)

theorem units_injective : Function.Injective units := by
  intro s t h
  induction s generalizing t with
  | nil =>
    cases t with
    | nil => rfl
    | cons d t => simp [charUnits_ne_nil] at h
  | cons c s ih =>
    cases t with
    | nil => simp [charUnits_ne_nil] at h
    | cons d t =>
      obtain ⟨rfl, ht⟩ := charUnits_append_inj h
      rw [ih ht]

/-! ## Escape sequences -/

def code? (digits : List Char) : Option ℕ :=
  if digits.isEmpty then none else Text.digitsIn 16 digits

def isLineTerminator (c : Char) : Bool := c == '\n' || c == '\r' || c == '\u2028' || c == '\u2029'

/-- The letters that stand for a control character. -/
def controlUnit? : Char → Option UInt16
  | 'b' => some 8
  | 't' => some 9
  | 'n' => some 10
  | 'v' => some 11
  | 'f' => some 12
  | 'r' => some 13
  | _ => none

/-- What a backslash makes of a single character: a line goes on without its end, no digit may
follow, and a character without a meaning of its own stands for itself. -/
def escapedChar? (c : Char) : Option Units :=
  if isLineTerminator c then some []
  else if c.isDigit || c == 'x' || c == 'u' then none
  else some (((controlUnit? c).map fun u => [u]).getD (charUnits c))

/-- An escape sequence without its backslash. -/
def escape : Text.Pattern Units
  | [] => none
  | '\r' :: '\n' :: _ => some ([], 2)
  | '0' :: rest => if (rest.head?.map Char.isDigit).getD false then none else some ([0], 1)
  | 'x' :: a :: b :: _ => (code? [a, b]).map fun n => ([n.toUInt16], 3)
  | 'u' :: '\x7b' :: rest =>
    let digits := rest.takeWhile (· != '\x7d')
    match rest.dropWhile (· != '\x7d'), code? digits with
    | _ :: _, some n => if n ≤ 0x10FFFF then some (codeUnits n, digits.length + 3) else none
    | _, _ => none
  | 'u' :: a :: b :: c :: d :: _ => (code? [a, b, c, d]).map fun n => ([n.toUInt16], 5)
  | c :: _ => (escapedChar? c).map fun v => (v, 1)

/-! ## Elements up to a mark -/

def readAfter (v : Units) : Option (Units × List Char) → Option (Units × List Char) :=
  Option.map fun r => (v ++ r.1, r.2)

/-- What a text up to a closing mark stands for, and the text after the mark. The first `skip`
characters belong to an element that has been read. -/
def readTo (closing : Char) (element : Text.Pattern Units) :
    ℕ → List Char → Option (Units × List Char)
  | _, [] => none
  | skip + 1, _ :: rest => readTo closing element skip rest
  | 0, c :: rest =>
    if c = closing then some ([], rest)
    else match element (c :: rest) with
      | some (v, n) => readAfter v (readTo closing element (n - 1) rest)
      | none => none

section

variable {closing : Char} {element : Text.Pattern Units} {c : Char} {v : Units}
  {w t : List Char}

theorem readTo_skip (w t : List Char) :
    readTo closing element w.length (w ++ t) = readTo closing element 0 t := by
  induction w with
  | nil => rfl
  | cons c w ih => simpa [readTo] using ih

theorem readTo_closing (t : List Char) :
    readTo closing element 0 (closing :: t) = some ([], t) := by
  simp [readTo]

theorem readTo_element (hc : c ≠ closing)
    (h : element (c :: (w ++ t)) = some (v, w.length + 1)) :
    readTo closing element 0 (c :: (w ++ t)) = readAfter v (readTo closing element 0 t) := by
  simp [readTo, hc, h, readTo_skip]

theorem readTo_none (hc : c ≠ closing) (h : element (c :: t) = none) :
    readTo closing element 0 (c :: t) = none := by
  simp [readTo, hc, h]

end

/-- An element of a string literal. The literal stays on its line. -/
def stringElement : Text.Pattern Units
  | [] => none
  | '\\' :: rest => (escape rest).map fun e => (e.1, e.2 + 1)
  | c :: _ => if c = '\n' ∨ c = '\r' then none else some (charUnits c, 1)

/-- A string literal at the start of a text: its value and what follows it. -/
def readLiteral : List Char → Option (Units × List Char)
  | '"' :: rest => readTo '"' stringElement 0 rest
  | _ => none

end ApiTypings.TypeScript
