import Mathlib
import ApiTypings.Proofs.Generation.Conversion
import ApiTypings.Proofs.Text.Words
import ApiTypings.Proofs.TypeScript.Insertions

/-! # Comments

A comment ends at the first `*/` behind its opening mark. Free text has none when it is written into
a comment, and what is written around it adds none, so a comment ends where it was closed, whatever
follows.
-/

namespace ApiTypings

open Text

namespace TypeScript

/-! ## Text without an end mark -/

/-- A text in which no comment ends. -/
def Harmless (s : List Char) : Prop := ¬ ['*', '/'] <:+: s

variable {s t : List Char} {c : Char}

theorem harmless_cons :
    Harmless (c :: s) ↔ ¬ (c = '*' ∧ s.head? = some '/') ∧ Harmless s := by
  have hp : ['*', '/'] <+: c :: s ↔ c = '*' ∧ s.head? = some '/' := by
    cases s <;> simp [eq_comm]
  rw [Harmless, List.infix_cons_iff, hp, not_or, Harmless]

theorem harmless_nil : Harmless [] := by simp [Harmless]

/-- An end mark does not come about where two texts meet, unless a star meets a slash there. -/
theorem Harmless.append (hs : Harmless s) (ht : Harmless t)
    (h : s.getLast? = some '*' → t.head? ≠ some '/') : Harmless (s ++ t) := by
  induction s with
  | nil => exact ht
  | cons c s ih =>
    rw [harmless_cons] at hs
    rw [List.cons_append, harmless_cons]
    cases s with
    | nil => exact ⟨fun hc => h (by simp [hc.1]) hc.2, ht⟩
    | cons d s => exact ⟨hs.1, ih hs.2 (by simpa [List.getLast?_cons_cons] using h)⟩

theorem breakTerminators_cons (h : ¬ (c = '*' ∧ s.head? = some '/')) :
    breakTerminators (c :: s) = c :: breakTerminators s := by
  rw [breakTerminators]
  rintro rest rfl rfl
  exact h ⟨rfl, rfl⟩

theorem head?_breakTerminators (s : List Char) : (breakTerminators s).head? = s.head? := by
  fun_cases breakTerminators s <;> rfl

theorem harmless_breakTerminators (s : List Char) : Harmless (breakTerminators s) := by
  fun_induction breakTerminators s with
  | case1 rest ih => simpa [harmless_cons] using ih
  | case2 c rest hn ih =>
    refine harmless_cons.mpr ⟨?_, ih⟩
    rw [head?_breakTerminators]
    rintro ⟨rfl, hs⟩
    obtain ⟨t, rfl⟩ := List.head?_eq_some_iff.mp hs
    exact hn t rfl rfl
  | case3 => exact harmless_nil

theorem breakTerminators_of_harmless (h : Harmless s) : breakTerminators s = s := by
  induction s with
  | nil => rfl
  | cons c s ih =>
    rw [harmless_cons] at h
    rw [breakTerminators_cons h.1, ih h.2]

theorem breakTerminators_append_blank (s t : List Char) :
    breakTerminators (s ++ ' ' :: t) = breakTerminators s ++ ' ' :: breakTerminators t := by
  fun_induction breakTerminators s with
  | case1 rest ih => simp [breakTerminators, ih]
  | case2 c rest hn ih =>
    rw [List.cons_append, breakTerminators_cons, ih, List.cons_append]
    rintro ⟨rfl, hs⟩
    cases rest with
    | nil => simp at hs
    | cons d rest =>
      obtain rfl : d = '/' := by simpa using hs
      exact hn rest rfl rfl
  | case3 => rfl

theorem mem_breakTerminators (h : c ∈ breakTerminators s) : c ∈ s ∨ c = '\\' := by
  fun_induction breakTerminators s with
  | case1 rest ih => simp at h ⊢; tauto
  | case2 d rest hn ih =>
    rcases List.mem_cons.mp h with rfl | h
    · exact .inl List.mem_cons_self
    · exact (ih h).imp_left (List.mem_cons_of_mem d)
  | case3 => cases h

theorem isWord_breakTerminators (h : IsWord s) : IsWord (breakTerminators s) := by
  refine ⟨fun hn => h.1 ?_, fun c hc => ?_⟩
  · rw [← List.head?_eq_none_iff, ← head?_breakTerminators, hn]
    rfl
  · rcases mem_breakTerminators hc with hc | rfl
    · exact h.2 c hc
    · decide

/-! ## Comment text -/

/-- The words of a text, with the end marks in them broken. -/
def commentWords (s : String) : List (List Char) := (words s.toList).map breakTerminators

theorem isWord_of_mem_commentWords (s : String) : ∀ w ∈ commentWords s, IsWord w := by
  intro w h
  obtain ⟨v, hv, rfl⟩ := List.mem_map.mp h
  exact isWord_breakTerminators (isWord_of_mem_words hv)

theorem breakTerminators_intercalate (ws : List (List Char)) :
    breakTerminators ([' '].intercalate ws) = [' '].intercalate (ws.map breakTerminators) := by
  induction ws with
  | nil => rfl
  | cons w ws ih =>
    cases ws with
    | nil => simp
    | cons v ws =>
      rw [List.intercalate_cons_cons, List.append_assoc, List.singleton_append,
        breakTerminators_append_blank, ih]
      simp [List.intercalate_cons_cons]

theorem toList_commentText (s : String) :
    (commentText s).toList = [' '].intercalate (commentWords s) := by
  rw [commentText, String.toList_ofList, breakTerminators_intercalate, commentWords]

theorem commentText_blanks (s : String) :
    (∀ c ∈ (commentText s).toList, isBlank c = true → c = ' ') ∧
      (commentText s).toList.head? ≠ some ' ' ∧ (commentText s).toList.getLast? ≠ some ' ' := by
  have hw := isWord_of_mem_commentWords s
  rw [toList_commentText]
  exact ⟨fun _ => eq_blank_of_mem_intercalate hw, head?_intercalate_ne hw,
    getLast?_intercalate_ne hw⟩

theorem harmless_commentText (s : String) : Harmless (commentText s).toList := by
  rw [commentText, String.toList_ofList]
  exact harmless_breakTerminators _

theorem commentText_commentText (s : String) : commentText (commentText s) = commentText s := by
  have hw : words (commentText s).toList = commentWords s := by
    rw [toList_commentText, words_intercalate (isWord_of_mem_commentWords s)]
  rw [commentText, hw, ← toList_commentText, breakTerminators_of_harmless (harmless_commentText s),
    String.ofList_toList]

/-! ## Comments in a text -/

/-- The text behind the first end mark. -/
def afterTerminator : List Char → Option (List Char)
  | '*' :: '/' :: rest => some rest
  | _ :: rest => afterTerminator rest
  | [] => none

/-- The text behind a comment at the start of a text. -/
def afterComment : List Char → Option (List Char)
  | '/' :: '*' :: rest => afterTerminator rest
  | _ => none

theorem afterTerminator_append (hs : Harmless s) (t : List Char) :
    afterTerminator (s ++ '*' :: '/' :: t) = some t := by
  induction s with
  | nil => rfl
  | cons c s ih =>
    rw [harmless_cons] at hs
    rw [List.cons_append, afterTerminator, ih hs.2]
    rintro rest rfl hr
    refine hs.1 ⟨rfl, ?_⟩
    cases s with
    | nil => simp at hr
    | cons d s => simpa using (List.cons_eq_cons.mp hr).1

/-- The text of a comment between its marks, if the comment ends at the mark it was closed with. -/
def Closes (body : String) : Prop :=
  ∀ rest : String, afterComment ("/**" ++ body ++ "*/" ++ rest).toList = some rest.toList

theorem closes_of_harmless {body : String} (h : Harmless ('*' :: body.toList)) : Closes body := by
  intro rest
  have hm : ("/**" ++ body ++ "*/" ++ rest).toList =
      '/' :: '*' :: (('*' :: body.toList) ++ '*' :: '/' :: rest.toList) := by simp
  rw [hm, afterComment, afterTerminator_append h]

/-- A text with its comments in order. Each comment ends where it was closed, whatever follows. What
stands around the comments is either given or code without a slash, in which no comment begins. -/
inductive Commented (given : List String) : String → List String → Prop where
  | code {s : String} : '/' ∉ s.toList → Commented given s []
  | insertion {s : String} : s ∈ given → Commented given s []
  | comment {body : String} : Closes body → Commented given ("/**" ++ body ++ "*/") [body]
  | append {s t : String} {bs cs : List String} :
      Commented given s bs → Commented given t cs → Commented given (s ++ t) (bs ++ cs)

variable {given : List String}

theorem Commented.join {α : Type} {text : α → String} {comments : α → List String} {xs : List α}
    (h : ∀ x ∈ xs, Commented given (text x) (comments x)) :
    Commented given (String.join (xs.map text)) (xs.flatMap comments) := by
  induction xs with
  | nil => exact .code (s := "") (by decide)
  | cons x xs ih =>
    rw [List.forall_mem_cons] at h
    rw [List.map_cons, String.join_cons, List.flatMap_cons]
    exact h.1.append (ih h.2)

theorem Commented.append_silent {s t : String} {bs : List String} (hs : Commented given s bs)
    (ht : Commented given t []) : Commented given (s ++ t) bs := by
  simpa using hs.append ht

theorem Commented.append_code {s t : String} {bs : List String} (hs : Commented given s bs)
    (ht : '/' ∉ t.toList) : Commented given (s ++ t) bs :=
  hs.append_silent (.code ht)

theorem Commented.around {body before after : String} (h : Closes body)
    (hb : '/' ∉ before.toList) (ha : '/' ∉ after.toList) :
    Commented given (before ++ ("/**" ++ body ++ "*/") ++ after) [body] :=
  ((Commented.code hb).append (.comment h)).append_code ha

/-! ## Comments of one line -/

theorem harmless_of_not_mem (h : '/' ∉ s) : Harmless s := fun hi =>
  h (hi.subset (by simp))

theorem Harmless.append_code (hs : Harmless s) (ht : '/' ∉ t) : Harmless (s ++ t) :=
  hs.append (harmless_of_not_mem ht) fun _ hh => ht (List.mem_of_head? hh)

theorem Harmless.append_commentText (hs : Harmless s) (h : s.getLast? ≠ some '*') (x : String) :
    Harmless (s ++ (commentText x).toList) :=
  hs.append (harmless_commentText x) fun hl => absurd hl h

def lineBody (comment : String) : String := " " ++ commentText comment ++ " "

theorem closes_lineBody (comment : String) : Closes (lineBody comment) := by
  apply closes_of_harmless
  have hs : Harmless ['*', ' '] := harmless_of_not_mem (by decide)
  have hc := hs.append_commentText (by decide) comment
  simpa [lineBody] using hc.append_code (t := [' ']) (by decide)

theorem commentLine_eq (indent : ℕ) (comment : String) :
    commentLine indent comment =
      spaces indent ++ ("/**" ++ lineBody comment ++ "*/") ++ "\n" := by
  apply String.toList_injective
  simp [commentLine, lineBody]

theorem not_mem_spaces (indent : ℕ) : '/' ∉ (spaces indent).toList := by
  simp [spaces]

theorem commented_commentLine (given : List String) (indent : ℕ) (comment : String) :
    Commented given (commentLine indent comment) [lineBody comment] := by
  rw [commentLine_eq]
  exact .around (closes_lineBody comment) (not_mem_spaces indent) (by decide)

/-! ## Comments of endpoints -/

/-- The lines of the comment of an endpoint, each with its label. -/
def EndpointComment.lines (c : EndpointComment) : List (String × String) :=
  [(" * Name: ", c.name), (" * Path: ", c.path), (" * Method: ", c.method),
    (" * Description: ", c.description)]

def lineText (indent : ℕ) (line : String × String) : String :=
  "\n" ++ spaces indent ++ line.1 ++ commentText line.2

def EndpointComment.body (indent : ℕ) (c : EndpointComment) : String :=
  String.join (c.lines.map (lineText indent)) ++ "\n" ++ spaces indent ++ " "

theorem Harmless.append_lines {indent : ℕ} {lines : List (String × String)}
    (h : ∀ line ∈ lines, '/' ∉ line.1.toList ∧ line.1.toList.getLast? = some ' ')
    (hs : Harmless s) : Harmless (s ++ (String.join (lines.map (lineText indent))).toList) := by
  induction lines generalizing s with
  | nil => simpa using hs
  | cons line lines ih =>
    obtain ⟨⟨hm, hl⟩, h⟩ := List.forall_mem_cons.mp h
    have hc : '/' ∉ ("\n" ++ spaces indent ++ line.1).toList := by
      simp [not_mem_spaces, hm]
    have hb : (s ++ ("\n" ++ spaces indent ++ line.1).toList).getLast? = some ' ' := by
      rw [String.toList_append, ← List.append_assoc, List.getLast?_append, hl]
      rfl
    have hx := (hs.append_code hc).append_commentText (by rw [hb]; decide) line.2
    simpa [lineText] using ih h hx

theorem EndpointComment.closes_body (indent : ℕ) (c : EndpointComment) :
    Closes (c.body indent) := by
  apply closes_of_harmless
  have hs : Harmless ['*'] := harmless_of_not_mem (by decide)
  have hl : ∀ line ∈ c.lines, '/' ∉ line.1.toList ∧ line.1.toList.getLast? = some ' ' := by
    simp only [lines, List.forall_mem_cons, List.not_mem_nil, false_implies, implies_true, and_true]
    decide +kernel
  have hb : Harmless (['*'] ++ (String.join (c.lines.map (lineText indent))).toList ++
      ("\n" ++ spaces indent ++ " ").toList) :=
    (hs.append_lines hl).append_code (by simp [not_mem_spaces])
  simpa [body] using hb

theorem EndpointComment.text_eq (indent : ℕ) (c : EndpointComment) :
    c.text indent = spaces indent ++ ("/**" ++ c.body indent ++ "*/") ++ "\n" := by
  unfold text
  rw [← String.toList_inj]
  simp [body, lines, lineText]

theorem EndpointComment.commented (given : List String) (indent : ℕ) (c : EndpointComment) :
    Commented given (c.text indent) [c.body indent] := by
  rw [c.text_eq]
  exact .around (c.closes_body indent) (not_mem_spaces indent) (by decide)

/-! ## Types and members -/

theorem commented_literal {value : String} (h : escaped value ∈ given) :
    Commented given (literal value) [] :=
  ((Commented.code (by decide)).append (.insertion h)).append_code (by decide)

theorem Commented.intercalate {separator : String} (hs : '/' ∉ separator.toList)
    {xs : List String} (h : ∀ x ∈ xs, Commented given x []) :
    Commented given (separator.intercalate xs) [] := by
  induction xs with
  | nil => exact .code (by simp)
  | cons x xs ih =>
    obtain ⟨hx, h⟩ := List.forall_mem_cons.mp h
    cases xs with
    | nil => simpa using hx
    | cons y xs =>
      rw [String.intercalate_cons_cons]
      exact (hx.append_code hs).append (ih h)

theorem commented_literalUnion {values : List String} (h : ∀ x ∈ values, escaped x ∈ given) :
    Commented given (literalUnion values) [] := by
  refine .intercalate (by decide) fun x hx => ?_
  obtain ⟨value, hv, rfl⟩ := List.mem_map.mp hx
  exact commented_literal (h value hv)

theorem TypeExpr.commented {t : TypeExpr} (hn : ∀ x ∈ t.bare, x ∈ given)
    (hq : ∀ x ∈ t.quoted, escaped x ∈ given) : Commented given t.text [] := by
  induction t with
  | «alias» name => exact .insertion (hn name List.mem_cons_self)
  | schema name => exact .insertion (hn name List.mem_cons_self)
  | literals values => exact commented_literalUnion hq
  | array t ih => exact ((Commented.code (by decide)).append (ih hn hq)).append_code (by decide)
  | map t ih => exact ((Commented.code (by decide)).append (ih hn hq)).append_code (by decide)
  | _ => exact .code (by decide)

theorem commented_memberName {key : String} (h : escaped key ∈ given) :
    Commented given (memberName key) [] := by
  unfold memberName
  split_ifs with hk
  · refine .code fun hm => ?_
    have hc : isNamePart '/' = true := isNamePart_of_isIdentifier hk _ hm
    exact absurd hc (by decide)
  · exact commented_literal h

def Member.commentBody (m : Member) : String := lineBody m.comment

theorem Member.commented (indent : ℕ) {m : Member} (hn : ∀ x ∈ m.type.bare, x ∈ given)
    (hq : ∀ x ∈ m.key :: m.type.quoted, escaped x ∈ given) :
    Commented given (m.text indent) [m.commentBody] := by
  obtain ⟨hk, hq⟩ := List.forall_mem_cons.mp hq
  have ho : '/' ∉ (if m.optional then "?" else "").toList := by cases m.optional <;> decide
  have hm := ((commented_commentLine given indent m.comment).append_code
    (not_mem_spaces indent)).append_silent (commented_memberName hk)
  exact (((hm.append_code ho).append_code (by decide)).append_silent
    (m.type.commented hn hq)).append_code (by decide)

theorem commented_membersText (indent : ℕ) {ms : List Member}
    (hn : ∀ x ∈ memberBare ms, x ∈ given) (hq : ∀ x ∈ memberQuoted ms, escaped x ∈ given) :
    Commented given (membersText indent ms) (ms.map Member.commentBody) := by
  rw [membersText, List.map_eq_flatMap (f := Member.commentBody)]
  refine .join fun m hm => m.commented indent (fun x hx => hn x ?_) fun x hx => hq x ?_
  · exact List.mem_flatMap.mpr ⟨m, hm, hx⟩
  · exact List.mem_flatMap.mpr ⟨m, hm, hx⟩

/-! ## Comments of declarations -/

def Interface.comments (i : Interface) : List String :=
  lineBody i.comment :: i.members.map Member.commentBody

theorem Interface.commented {i : Interface} (hi : i.name ∈ given)
    (hn : ∀ x ∈ memberBare i.members, x ∈ given)
    (hq : ∀ x ∈ memberQuoted i.members, escaped x ∈ given) :
    Commented given i.text i.comments := by
  have hh := ((commented_commentLine given 4 i.comment).append_code (t := "    interface ")
    (by decide)).append_silent (.insertion hi)
  exact ((hh.append_code (by decide)).append (commented_membersText 6 hn hq)).append_code
    (by decide)

theorem LiteralAlias.commented {a : LiteralAlias} (ha : a.name ∈ given)
    (hq : ∀ x ∈ a.values, escaped x ∈ given) : Commented given a.text [lineBody a.comment] := by
  have hh := ((commented_commentLine given 4 a.comment).append_code (t := "    type ")
    (by decide)).append_silent (.insertion ha)
  exact ((hh.append_code (by decide)).append_silent (commented_literalUnion hq)).append_code
    (by decide)

def SchemaDeclarations.comments (d : SchemaDeclarations) : List String :=
  d.aliases.flatMap (fun a => [lineBody a.comment]) ++ d.interfaces.flatMap Interface.comments

theorem SchemaDeclarations.commented (d : SchemaDeclarations) :
    Commented d.insertions d.text d.comments := by
  have hn : ∀ x ∈ d.bare, x ∈ d.insertions := fun _ => List.mem_append_left _
  have hq : ∀ x ∈ d.quoted, escaped x ∈ d.insertions := fun x hx =>
    List.mem_append_right _ (List.mem_map_of_mem hx)
  refine .append (.join fun a ha => ?_) (.join fun i hi => ?_)
  · refine LiteralAlias.commented (hn _ ?_) fun x hx => hq x ?_
    · exact List.mem_append_left _ (List.mem_map_of_mem ha)
    · exact List.mem_append_left _ (List.mem_flatMap.mpr ⟨a, ha, hx⟩)
  · refine Interface.commented (hn _ ?_) (fun x hx => hn x ?_) fun x hx => hq x ?_
    · exact List.mem_append_right _ (List.mem_flatMap.mpr ⟨i, hi, List.mem_cons_self⟩)
    · exact List.mem_append_right _ (List.mem_flatMap.mpr ⟨i, hi, List.mem_cons_of_mem _ hx⟩)
    · exact List.mem_append_right _ (List.mem_flatMap.mpr ⟨i, hi, hx⟩)

/-! ## Comments of the types and the function of an endpoint -/

theorem commented_heading (given : List String) {name : String} (code : String) (h : commentText name = name)
    (hc : '/' ∉ code.toList) :
    Commented given ("      /** " ++ name ++ " */\n      " ++ code) [lineBody name] := by
  have hs : spaces 6 = "      " := by decide +kernel
  have hl : "      /** " ++ name ++ " */\n      " ++ code =
      commentLine 6 name ++ "      " ++ code := by
    rw [commentLine, h, hs, ← String.toList_inj]
    simp
  rw [hl]
  exact ((commented_commentLine given 6 name).append_code (by decide)).append_code hc

def Extension.comments (name : String) (e : Extension) : List String :=
  lineBody name :: e.members.map Member.commentBody

theorem Extension.commented {name : String} (h : commentText name = name) (hc : '/' ∉ name.toList)
    {e : Extension} (hn : ∀ x ∈ e.bare, x ∈ given)
    (hq : ∀ x ∈ memberQuoted e.members, escaped x ∈ given) :
    Commented given (e.text name) (e.comments name) := by
  obtain ⟨base, members⟩ := e
  obtain ⟨hb, hn⟩ := List.forall_mem_append.mp hn
  have hi : '/' ∉ ("interface " ++ name).toList := by simp [hc]
  have hh : Commented given ("      /** " ++ name ++ " */\n      interface " ++ name)
      [lineBody name] := by
    have hl : "      /** " ++ name ++ " */\n      interface " ++ name =
        "      /** " ++ name ++ " */\n      " ++ ("interface " ++ name) := by
      rw [← String.toList_inj]
      simp
    rw [hl]
    exact commented_heading given _ h hi
  have hm : Commented given (membersText 8 members) (members.map Member.commentBody) :=
    commented_membersText 8 hn hq
  cases base with
  | none =>
    rw [text_none]
    exact ((hh.append_code (by decide)).append hm).append_code (by decide)
  | some schema =>
    rw [text_some]
    have hs := (hh.append_code (t := " extends Api.Schema.") (by decide)).append_silent
      (.insertion (hb schema (Option.mem_toList.mpr rfl)))
    exact ((hs.append_code (by decide)).append hm).append_code (by decide)

def ResponseType.comments : ResponseType → List String
  | .object e => e.comments "Response"
  | .value _ => [lineBody "Response"]

theorem ResponseType.commented {t : ResponseType} (hn : ∀ x ∈ t.bare, x ∈ given)
    (hq : ∀ x ∈ t.quoted, escaped x ∈ given) : Commented given t.text t.comments := by
  have hr : commentText "Response" = "Response" := by decide +kernel
  cases t with
  | object e => exact Extension.commented hr (by decide) hn hq
  | value type =>
    have hh := commented_heading given "type Response = " hr (by decide)
    exact (hh.append_silent (type.commented hn hq)).append_code (by decide)

def EndpointTypes.comments (t : EndpointTypes) : List String :=
  t.comment.body 4 :: (t.request.comments "Request" ++ t.response.comments)

theorem EndpointTypes.commented (t : EndpointTypes) : Commented t.insertions t.text t.comments := by
  have hn : ∀ x ∈ t.bare, x ∈ t.insertions := fun _ h => by simp [EndpointTypes.insertions, h]
  have hq : ∀ x ∈ t.quoted, escaped x ∈ t.insertions := fun x h =>
    List.mem_cons_of_mem _ (List.mem_append_right _ (List.mem_map_of_mem h))
  obtain ⟨hn₁, hn₂⟩ := List.forall_mem_append.mp hn
  obtain ⟨hq₁, hq₂⟩ := List.forall_mem_append.mp hq
  have hh := ((EndpointComment.commented t.insertions 4 t.comment).append_code (t := "    namespace ")
    (by decide)).append_silent (.insertion List.mem_cons_self)
  have hn : commentText "Request" = "Request" := by decide +kernel
  have hr := Extension.commented hn (by decide) hn₁ hq₁
  exact ((((hh.append_code (by decide)).append hr).append_code (by decide)).append
    (ResponseType.commented hn₂ hq₂)).append_code (by decide)

theorem RequestFunction.commented (f : RequestFunction) :
    Commented f.insertions f.text [f.comment.body 0] := by
  have hn : Commented f.insertions f.name [] := .insertion (by simp [RequestFunction.insertions])
  have hu : Commented f.insertions (urlTemplate f.path) [] :=
    .insertion (by simp [RequestFunction.insertions])
  have hm : Commented f.insertions f.method [] := .insertion (by simp [RequestFunction.insertions])
  have hp : '/' ∉ (if f.queries then "params," else "data: params,").toList := by
    cases f.queries <;> decide
  have ht : Commented f.insertions ("Api.Paths." ++ f.name) [] :=
    (Commented.code (by decide)).append hn
  have hh := ((EndpointComment.commented f.insertions 0 f.comment).append_code (t := "export function ")
    (by decide)).append_silent hn
  have hs := (((hh.append_code (t := "(params: ") (by decide)).append_silent ht).append_code
    (t := ".Request): Promise<") (by decide)).append_silent ht
  have hr := ((hs.append_code (t := ".Response> \x7b\n") (by decide)).append_code
    (t := "  return request<") (by decide)).append_silent ht
  have hc := ((hr.append_code (t := ".Response>(\x7b\n") (by decide)).append_code
    (t := "    url: \x60") (by decide)).append_silent hu
  have hl := ((hc.append_code (t := "\x60,\n") (by decide)).append_code
    (t := "    method: \"") (by decide)).append_silent hm
  have hb := ((hl.append_code (t := "\",\n") (by decide)).append_code (t := "    ")
    (by decide)).append_code hp
  exact ((hb.append_code (by decide)).append_code (by decide)).append_code (by decide)

end TypeScript

open TypeScript

variable {r : Registry} {e : Endpoint} {expected : String} {success : Response}

def Schema.interfaceComments (s : Schema) : List String :=
  (s.description.getD "" :: s.properties.map fun x => x.2.description.getD "").map lineBody

theorem Schema.comments_interface (r : Registry) (s : Schema) :
    (s.interface r).value.comments = s.interfaceComments := by
  simp [interface, Interface.comments, interfaceComments, memberOf, Member.commentBody,
    Function.comp_def]

theorem comments_declareSchemas (r : Registry) (schemas : List Schema) :
    (declareSchemas r schemas).value.comments =
      (schemas.flatMap Schema.aliases).map (fun a => lineBody a.comment) ++
        schemas.flatMap Schema.interfaceComments := by
  have hi : (declareSchemas r schemas).value.interfaces =
      schemas.map fun s => (s.interface r).value := Warned.value_each _ _
  rw [SchemaDeclarations.comments, hi, List.flatMap_map, ← List.map_eq_flatMap]
  simp only [Schema.comments_interface]
  rfl

theorem Endpoint.comments_types (name : String) :
    (e.types r name success).value.comments =
      e.comment.body 4 :: lineBody "Request" ::
        ((requestType r e).value.members.map Member.commentBody ++
          (responseType r success.schema).value.comments) := by
  simp [types, EndpointTypes.comments, Extension.comments]

/-- Text in a comment is a line of words with single blanks between them and without an end mark, and
it stays as it is when it is written into a comment again. So every comment in a document ends where
it was closed, and besides these comments there is only what the document takes over and code
without a slash. -/
theorem comments_closed :
    (∀ s, (commentText s).toList = [' '].intercalate (commentWords s) ∧
      (∀ w ∈ commentWords s, w ≠ [] ∧ ∀ c ∈ w, isBlank c = false) ∧
      ((∀ c ∈ (commentText s).toList, isBlank c = true → c = ' ') ∧
        (commentText s).toList.head? ≠ some ' ' ∧ (commentText s).toList.getLast? ≠ some ' ') ∧
      ¬ ['*', '/'] <:+: (commentText s).toList ∧ commentText (commentText s) = commentText s) ∧
    (∀ r schemas, Commented (declareSchemas r schemas).value.insertions
      (declareSchemas r schemas).value.text
      ((schemas.flatMap Schema.aliases).map (fun a => lineBody a.comment) ++
        schemas.flatMap Schema.interfaceComments)) ∧
    ∀ (e : Endpoint) expected success, e.success? expected = some success →
      (∀ r names, ∃ types, (declareTypes r expected e names).result = .ok types ∧
        Commented types.insertions types.text (e.comment.body 4 :: lineBody "Request" ::
          ((requestType r e).value.members.map Member.commentBody ++
            (responseType r success.schema).value.comments))) ∧
      ∀ names, ∃ f, (declareFunction expected e names).result = .ok f ∧
        Commented f.insertions f.text [e.comment.body 0] := by
  refine ⟨fun s => ⟨toList_commentText s, isWord_of_mem_commentWords s, commentText_blanks s,
    harmless_commentText s, commentText_commentText s⟩, fun r schemas => ?_,
    fun e expected success he => ⟨fun r names => ?_, fun names => ?_⟩⟩
  · rw [← comments_declareSchemas]
    exact (declareSchemas r schemas).value.commented
  · refine ⟨_, Endpoint.result_declareTypes r names he, ?_⟩
    rw [← Endpoint.comments_types]
    exact EndpointTypes.commented _
  · exact ⟨_, Endpoint.result_declareFunction names he, RequestFunction.commented _⟩

/-- An endpoint whose texts have end marks in them. -/
def hostileEndpoint : Endpoint where
  path := "/*/"
  method := "get"
  name := " */ "
  description := "**/\n/"
  parameters := none
  body := none
  responses := [⟨"OK", none⟩]

theorem hostile_comments_closed :
    hostileEndpoint.success? "OK" = some ⟨"OK", none⟩ ∧
      ∃ f, (declareFunction "OK" hostileEndpoint .empty).result = .ok f ∧
        Commented f.insertions f.text ["\n * Name: *\\/\n * Path: /*\\/\n * Method: get\n" ++
          " * Description: **\\/ /\n "] := by
  have hs : hostileEndpoint.success? "OK" = some ⟨"OK", none⟩ := rfl
  obtain ⟨-, hf⟩ := comments_closed.2.2 hostileEndpoint "OK" _ hs
  have hb : hostileEndpoint.comment.body 0 = "\n * Name: *\\/\n * Path: /*\\/\n * Method: get\n" ++
      " * Description: **\\/ /\n " := by decide +kernel
  exact ⟨hs, hb ▸ hf .empty⟩

end ApiTypings
