import ApiTypings.Proofs.TypeScript.Comments
import ApiTypings.Proofs.TypeScript.Literals

/-! # What a text declares

A reader for as much of a program as says which interfaces and aliases are declared in which
namespaces. It passes over comments and literals, follows the braces, and keeps what stands directly
before a word. What it reads of a text depends on where it stands before, so texts are read one after
the other.
-/

namespace ApiTypings.TypeScript

/-! ## Tokens -/

inductive Token where
  | word (w : String)
  | sign (c : Char)
  | literal
deriving DecidableEq

inductive Spot where
  /-- Neither in a comment nor in a literal, behind the start of a word. -/
  | code (word : List Char)
  | slash
  | line
  | block
  /-- In a comment behind a star. -/
  | star
  | quoted (mark : Char)
  /-- In a literal behind a backslash. -/
  | escaped (mark : Char)
deriving DecidableEq

/-- The parts of a qualified name make one word. -/
def isWordPart (c : Char) : Bool :=
  isNamePart c || c == '.' || (128 ≤ c.toNat && !Text.isBlank c)

def isQuote (c : Char) : Bool := c == '"' || c == '\'' || c == '\x60'

def wordTokens (w : List Char) : List Token :=
  if w = [] then [] else [.word (String.ofList w)]

def readSign (c : Char) : List Token × Spot :=
  if Text.isBlank c then ([], .code [])
  else if c = '/' then ([], .slash)
  else if isQuote c then ([], .quoted c)
  else ([.sign c], .code [])

def readCode (w : List Char) (c : Char) : List Token × Spot :=
  if isWordPart c then ([], .code (w ++ [c]))
  else (wordTokens w ++ (readSign c).1, (readSign c).2)

/-- The tokens that end before a character, and where the reader stands behind it. A line break ends
every literal but a template. -/
def Spot.next : Spot → Char → List Token × Spot
  | .code w, c => readCode w c
  | .slash, c =>
    if c = '/' then ([], .line)
    else if c = '*' then ([], .block)
    else (.sign '/' :: (readCode [] c).1, (readCode [] c).2)
  | .line, c => ([], if c = '\n' ∨ c = '\r' then .code [] else .line)
  | .block, c => ([], if c = '*' then .star else .block)
  | .star, c => ([], if c = '/' then .code [] else if c = '*' then .star else .block)
  | .quoted mark, c =>
    if c = mark ∨ (c = '\n' ∨ c = '\r') ∧ mark ≠ '\x60' then ([.literal], .code [])
    else ([], if c = '\\' then .escaped mark else .quoted mark)
  | .escaped mark, _ => ([], .quoted mark)

/-- The tokens of a text, and where the reader stands behind it. -/
def lex : Spot → List Char → List Token × Spot
  | p, [] => ([], p)
  | p, c :: rest =>
    let (ts, p) := p.next c
    let (us, p) := lex p rest
    (ts ++ us, p)

/-! ## Scopes -/

/-- What the words directly before ask for. -/
inductive Cue where
  | nothing
  /-- The name of an interface or an alias. -/
  | declaration
  /-- The name of a namespace. -/
  | space
  /-- The block of a namespace. -/
  | opening (name : String)
deriving DecidableEq

/-- The blocks around a place, and what is declared before it. -/
structure Scope where
  /-- The namespaces around, the outermost first. -/
  path : List String
  /-- The number of other blocks around, all of them within these namespaces. -/
  depth : Nat
  cue : Cue
  /-- Qualified names, in order. -/
  declared : List String
deriving DecidableEq

/-- What a word asks for where nothing else is asked for. -/
def Cue.ofWord (w : String) : Cue :=
  if w = "interface" ∨ w = "type" then .declaration
  else if w = "namespace" then .space
  else .nothing

namespace Scope

/-- Declarations count in namespaces only, not in other blocks. -/
def word (s : Scope) (w : String) : Scope :=
  { s with
    cue := if s.cue = .space then .opening w else .ofWord w
    declared :=
      if s.cue = .declaration ∧ s.depth = 0 then s.declared ++ [".".intercalate (s.path ++ [w])]
      else s.declared }

def openBlock (s : Scope) : Scope :=
  match s.cue, s.depth with
  | .opening name, 0 => { s with path := s.path ++ [name], cue := .nothing }
  | _, depth => { s with depth := depth + 1, cue := .nothing }

def closeBlock (s : Scope) : Scope :=
  match s.depth with
  | 0 => { s with path := s.path.dropLast, cue := .nothing }
  | depth + 1 => { s with depth, cue := .nothing }

def token (s : Scope) : Token → Scope
  | .word w => s.word w
  | .sign c =>
    if c = '\x7b' then s.openBlock
    else if c = '\x7d' then s.closeBlock
    else { s with cue := .nothing }
  | .literal => { s with cue := .nothing }

end Scope

structure Reader where
  spot : Spot
  scope : Scope

def Reader.read (r : Reader) (s : List Char) : Reader :=
  ⟨(lex r.spot s).2, (lex r.spot s).1.foldl Scope.token r.scope⟩

/-- The qualified names of the interfaces and aliases that a text in some namespaces declares. -/
def declaredIn (path : List String) (s : String) : List String :=
  (Reader.read ⟨.code [], path, 0, .nothing, []⟩ s.toList).scope.declared

example : declaredIn ["Api"] "namespace A \x7b type B = \"type C\"; /* type D */ interface E \x7b\x7d \x7d" =
    ["Api.A.B", "Api.A.E"] := by
  decide +kernel

/-! ## Reading in parts -/

variable {p q : Spot} {s t : List Char} {w : List Char} {c : Char} {ts : List Token}

theorem lex_append (p : Spot) (s t : List Char) :
    lex p (s ++ t) = ((lex p s).1 ++ (lex (lex p s).2 t).1, (lex (lex p s).2 t).2) := by
  induction s generalizing p with
  | nil => rfl
  | cons c s ih => simp [lex, ih]

theorem Reader.read_append (r : Reader) (s t : List Char) : r.read (s ++ t) = (r.read s).read t := by
  simp [read, lex_append]

theorem Reader.read_of_lex (h : lex p s = (ts, q)) (σ : Scope) :
    Reader.read ⟨p, σ⟩ s = ⟨q, ts.foldl Scope.token σ⟩ := by
  simp [read, h]

/-- A character that belongs to no word ends the one before it. -/
theorem lex_flush (hs : s.head?.all isWordPart = false) (w : List Char) :
    lex (.code w) s = (wordTokens w ++ (lex (.code []) s).1, (lex (.code []) s).2) := by
  cases s with
  | nil => cases hs
  | cons c s =>
    have hc : isWordPart c = false := hs
    simp [lex, Spot.next, readCode, hc, wordTokens]

theorem lex_word (h : ∀ c ∈ s, isWordPart c = true) (w : List Char) :
    lex (.code w) s = ([], .code (w ++ s)) := by
  induction s generalizing w with
  | nil => simp [lex]
  | cons c s ih =>
    obtain ⟨hc, h⟩ := List.forall_mem_cons.mp h
    simp [lex, Spot.next, readCode, hc, ih h]

/-! ## Comments -/

/-- Where a comment ends, code goes on. -/
theorem lex_block (h : afterTerminator s = some t) : lex .block s = lex (.code []) t := by
  fun_induction afterTerminator s with
  | case1 rest =>
    obtain rfl := Option.some.inj h
    rfl
  | case2 c rest hn ih =>
    rw [← ih h]
    by_cases hc : c = '*'
    · subst hc
      cases rest with
      | nil => cases h
      | cons d rest =>
        have hd : d ≠ '/' := fun hd => hn rest rfl (hd ▸ rfl)
        simp [lex, Spot.next, hd]
    · simp [lex, Spot.next, hc]
  | case3 => cases h

theorem lex_comment (h : afterComment s = some t) : lex (.code []) s = lex (.code []) t := by
  unfold afterComment at h
  split at h
  · exact lex_block h
  · cases h

/-! ## Texts that declare nothing -/

variable {σ τ υ : Scope}

theorem Cue.ofWord_ne (w name : String) : ofWord w ≠ .opening name := by
  unfold ofWord
  split_ifs <;> simp

/-- Where nothing is asked for, a word has no effect on what a sign or a literal behind it does. -/
theorem Scope.token_foldl {t : Token} (hσ : σ.cue = .nothing) (ht : ∀ v, t ≠ .word v)
    (w : List Char) : ((wordTokens w).foldl token σ).token t = σ.token t := by
  unfold wordTokens
  split_ifs with hw
  · rfl
  · obtain ⟨path, depth, cue, declared⟩ := σ
    obtain rfl : cue = .nothing := hσ
    have hc := Cue.ofWord_ne (String.ofList w)
    cases t with
    | word v => exact absurd rfl (ht v)
    | literal => simp [token, word]
    | sign c =>
      have ho : openBlock ⟨path, depth, .ofWord (String.ofList w), declared⟩ =
          openBlock ⟨path, depth, .nothing, declared⟩ := by
        unfold openBlock
        split
        · rename_i name h _
          exact absurd h (hc name)
        · rfl
      simp [token, word, ho, closeBlock]

theorem read_flush {t : Token} (hσ : σ.cue = .nothing) (hs : s.head?.all isWordPart = false)
    (h : lex (.code []) s = (t :: ts, q)) (ht : ∀ v, t ≠ .word v) (w : List Char) :
    Reader.read ⟨.code w, σ⟩ s = ⟨q, ts.foldl Scope.token (σ.token t)⟩ := by
  rw [Reader.read, lex_flush hs, h]
  simp [Scope.token_foldl hσ ht]

/-- From the start of a word to the start of a word. -/
def Reads (σ : Scope) (s : String) (τ : Scope) : Prop :=
  Reader.read ⟨.code [], σ⟩ s.toList = ⟨.code [], τ⟩

theorem Reads.append {s t : String} (hs : Reads σ s τ) (ht : Reads τ t υ) :
    Reads σ (s ++ t) υ := by
  rw [Reads, String.toList_append, Reader.read_append, hs, ht]

theorem reads_of_lex {s : String} (ts : List Token) (h : lex (.code []) s.toList = (ts, .code []))
    (σ : Scope) : Reads σ s (ts.foldl Scope.token σ) :=
  Reader.read_of_lex h σ

/-- A text that may stand in a type. It leaves the scope as it is, up to a last word. -/
def Quiet (s : String) : Prop :=
  ∀ σ : Scope, σ.cue = .nothing → ∃ v, Reader.read ⟨.code [], σ⟩ s.toList = ⟨.code v, σ⟩

/-- A sign or a literal ends the last word. -/
theorem Quiet.flush {s t : String} (h : Quiet s) (u : Token) (ts : List Token)
    (hσ : σ.cue = .nothing)
    (ht : t.toList.head?.all isWordPart = false)
    (hl : lex (.code []) t.toList = (u :: ts, .code [])) (hu : ∀ v, u ≠ .word v) :
    Reads σ (s ++ t) (ts.foldl Scope.token (σ.token u)) := by
  obtain ⟨v, hv⟩ := h σ hσ
  rw [Reads, String.toList_append, Reader.read_append, hv, read_flush hσ ht hl hu]

theorem quiet_of_reads {s : String} (h : ∀ σ : Scope, σ.cue = .nothing → Reads σ s σ) : Quiet s :=
  fun σ hσ => ⟨[], h σ hσ⟩

theorem Quiet.behind {s t : String} (hs : ∀ σ : Scope, σ.cue = .nothing → Reads σ s σ)
    (ht : Quiet t) : Quiet (s ++ t) := by
  intro σ hσ
  obtain ⟨v, hv⟩ := ht σ hσ
  exact ⟨v, by rw [String.toList_append, Reader.read_append, hs σ hσ, hv]⟩

/-! ## Plain texts -/

/-- A token that asks for nothing, and neither opens nor closes a block. -/
def Token.isPlain : Token → Bool
  | .word w => Cue.ofWord w = .nothing
  | .sign c => c != '\x7b' && c != '\x7d'
  | .literal => true

/-- Behind a spot the text has plain tokens, and leaves neither a comment nor a literal open. -/
def isPlainFrom (p : Spot) (s : List Char) : Bool :=
  match lex p s with
  | (ts, .code _) => ts.all Token.isPlain
  | _ => false

theorem isPlainFrom_iff :
    isPlainFrom p s = true ↔ ∃ v, (lex p s).2 = .code v ∧ (lex p s).1.all Token.isPlain = true := by
  unfold isPlainFrom
  split
  next hl => simp [hl]
  next hn =>
    refine iff_of_false Bool.false_ne_true ?_
    rintro ⟨v, hv, -⟩
    exact hn _ v (Prod.ext rfl hv)

theorem Scope.token_of_isPlain {t : Token} (hσ : σ.cue = .nothing) (h : t.isPlain = true) :
    σ.token t = σ := by
  obtain ⟨path, depth, cue, declared⟩ := σ
  obtain rfl : cue = .nothing := hσ
  cases t with
  | word w => simpa [token, word, Token.isPlain] using h
  | sign c =>
    obtain ⟨ho, hx⟩ : c ≠ '\x7b' ∧ c ≠ '\x7d' := by simpa [Token.isPlain] using h
    simp [token, ho, hx]
  | literal => rfl

theorem Scope.foldl_token_of_isPlain (hσ : σ.cue = .nothing) (h : ts.all Token.isPlain = true) :
    ts.foldl token σ = σ := by
  induction ts with
  | nil => rfl
  | cons t ts ih =>
    obtain ⟨ht, h⟩ := Bool.and_eq_true_iff.mp h
    rw [List.foldl_cons, token_of_isPlain hσ ht, ih h]

theorem Reader.read_of_isPlainFrom (h : isPlainFrom p s = true) (hσ : σ.cue = .nothing) :
    ∃ v, Reader.read ⟨p, σ⟩ s = ⟨.code v, σ⟩ := by
  obtain ⟨v, hv, hts⟩ := isPlainFrom_iff.mp h
  exact ⟨v, by rw [read, hv, Scope.foldl_token_of_isPlain hσ hts]⟩

theorem quiet_of_isPlainFrom {s : String} (h : isPlainFrom (.code []) s.toList = true) : Quiet s :=
  fun _ hσ => Reader.read_of_isPlainFrom h hσ

theorem Quiet.append_plain {s t : String} (h : Quiet s) (c : Char) (ts : List Token)
    (hσ : σ.cue = .nothing)
    (ht : t.toList.head?.all isWordPart = false)
    (hl : lex (.code []) t.toList = (.sign c :: ts, .code []))
    (hp : (.sign c :: ts).all Token.isPlain = true) : Reads σ (s ++ t) σ := by
  have hr := h.flush _ _ hσ ht hl (by simp)
  rwa [← List.foldl_cons, Scope.foldl_token_of_isPlain hσ hp] at hr

/-- A text stays plain if its first word is put behind the start of another one. -/
theorem isPlainFrom_code {w₀ : List Char} (hw : ∀ u, Cue.ofWord (String.ofList (w ++ u)) = .nothing)
    (h : isPlainFrom (.code w₀) s = true) : isPlainFrom (.code w) s = true := by
  induction s generalizing w₀ w with
  | nil => rfl
  | cons c s ih =>
    by_cases hc : isWordPart c = true
    · have hl : ∀ w, lex (.code w) (c :: s) = lex (.code (w ++ [c])) s := fun w => by
        simp [lex, Spot.next, readCode, hc]
      simp only [isPlainFrom, hl] at h ⊢
      exact ih (fun u => by simpa using hw (c :: u)) h
    · have hs : (c :: s).head?.all isWordPart = false := by simpa using hc
      rw [isPlainFrom_iff, lex_flush hs] at h ⊢
      obtain ⟨v, hv, hts⟩ := h
      rw [List.all_append, Bool.and_eq_true] at hts
      refine ⟨v, hv, ?_⟩
      have hn := hw []
      rw [List.append_nil] at hn
      rw [List.all_append, Bool.and_eq_true]
      refine ⟨?_, hts.2⟩
      unfold wordTokens
      split_ifs
      · rfl
      · simpa [Token.isPlain] using hn

theorem lex_escapeChars (h : OnOneLine s) : lex (.quoted '"') (escapeChars s) = ([], .quoted '"') := by
  induction s with
  | nil => rfl
  | cons c s ih =>
    obtain ⟨hc, h⟩ := onOneLine_cons_iff.mp h
    have hs : escapeChars (c :: s) = escapeChar c ++ escapeChars s := rfl
    have he : lex (.quoted '"') (escapeChar c) = ([], .quoted '"') := by
      unfold escapeChar
      split_ifs with hb
      · rfl
      · rw [not_or] at hb
        simp [lex, Spot.next, hb, hc]
    rw [hs, lex_append, he]
    simp [ih h]

theorem quiet_literal {value : String} (h : OnOneLine value.toList) : Quiet (literal value) := by
  have hq : lex (.code []) ['"'] = ([], .quoted '"') := by decide
  have hl : (literal value).toList = ['"'] ++ (escapeChars value.toList ++ ['"']) := by
    simp [literal, escaped]
  refine quiet_of_isPlainFrom (isPlainFrom_iff.mpr ⟨[], ?_⟩)
  rw [hl, lex_append, hq, lex_append, lex_escapeChars h]
  decide

end ApiTypings.TypeScript
