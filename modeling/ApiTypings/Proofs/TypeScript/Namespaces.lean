import ApiTypings.Proofs.TypeScript.Scopes

/-! # What the namespace of an endpoint declares

The types of an endpoint are read as the declaration of a request and a response in the namespace of
its name, if that is one word and nothing that the types take over begins or ends something else.
-/

namespace ApiTypings.TypeScript

variable {σ : Scope}

/-! ## Types -/

/-- A name without braces, with all its comments and literals closed, and with no keyword of a
declaration before its last word. -/
def isPlainName (s : String) : Bool := isPlainFrom (.code []) s.toList

theorem quiet_intercalate {separator : String} {xs : List String} (h : ∀ x ∈ xs, Quiet x)
    (hs : ∀ x, Quiet x → ∀ σ : Scope, σ.cue = .nothing → Reads σ (x ++ separator) σ) :
    Quiet (separator.intercalate xs) := by
  induction xs with
  | nil => exact quiet_of_reads fun _ _ => rfl
  | cons x xs ih =>
    obtain ⟨hx, h⟩ := List.forall_mem_cons.mp h
    cases xs with
    | nil => simpa using hx
    | cons y xs =>
      rw [String.intercalate_cons_cons]
      exact Quiet.behind (hs x hx) (ih h)

theorem TypeExpr.quiet {t : TypeExpr} (hb : ∀ x ∈ t.bare, isPlainName x = true)
    (hq : ∀ x ∈ t.quoted, OnOneLine x.toList) : Quiet t.text := by
  induction t with
  | «alias» name => exact quiet_of_isPlainFrom (hb name List.mem_cons_self)
  | schema name => exact quiet_of_isPlainFrom (hb name List.mem_cons_self)
  | literals values =>
    refine quiet_intercalate (fun x hx => ?_) fun x hx σ hσ => ?_
    · obtain ⟨value, hv, rfl⟩ := List.mem_map.mp hx
      exact quiet_literal (hq value hv)
    · exact hx.append_plain '|' [] hσ (by decide) (by decide) (by decide)
  | array t ih =>
    rw [text_array]
    refine quiet_of_reads fun σ hσ => ?_
    have ho := reads_of_lex (s := "Array<") [.word "Array", .sign '<'] (by decide) σ
    rw [Scope.foldl_token_of_isPlain hσ (by decide)] at ho
    rw [String.append_assoc]
    exact ho.append
      ((ih hb hq).append_plain '>' [] hσ (by decide) (by decide) (by decide))
  | map t ih =>
    -- The values stand in a block of their own.
    rw [text_map]
    refine quiet_of_reads fun ⟨path, depth, cue, declared⟩ hσ => ?_
    obtain rfl : cue = .nothing := hσ
    have ho := reads_of_lex (s := "\x7b[key: string]: ")
      [.sign '\x7b', .sign '[', .word "key", .sign ':', .word "string", .sign ']', .sign ':']
      (by decide) ⟨path, depth, .nothing, declared⟩
    have hx := (ih hb hq).flush (σ := ⟨path, depth + 1, .nothing, declared⟩) (t := "\x7d")
      (.sign '\x7d') [] rfl (by decide) (by decide) (by simp)
    rw [String.append_assoc]
    exact ho.append hx
  | _ => exact quiet_of_isPlainFrom (by decide)

theorem quiet_memberName {key : String} (h : OnOneLine key.toList) : Quiet (memberName key) := by
  unfold memberName
  split_ifs with hk
  · have hw : ∀ c ∈ key.toList, isWordPart c = true := fun c hc => by
      simp [isWordPart, isNamePart_of_isIdentifier hk c hc]
    exact quiet_of_isPlainFrom (isPlainFrom_iff.mpr ⟨key.toList, by simp [lex_word hw]⟩)
  · exact quiet_literal h

/-! ## Members -/

theorem lex_spaces (indent : Nat) : lex (.code []) (spaces indent).toList = ([], .code []) := by
  rw [spaces, String.toList_ofList]
  induction indent with
  | zero => rfl
  | succ n ih =>
    have hn : Spot.next (.code []) ' ' = ([], .code []) := by decide
    simp [List.replicate_succ, lex, hn, ih]

theorem reads_spaces (σ : Scope) (indent : Nat) : Reads σ (spaces indent) σ :=
  reads_of_lex [] (lex_spaces indent) σ

theorem reads_comment {body : String} (h : Closes body) (σ : Scope) :
    Reads σ ("/**" ++ body ++ "*/") σ := by
  have hl := lex_comment (h "")
  rw [String.append_empty] at hl
  exact reads_of_lex [] hl σ

theorem reads_lineBreak (σ : Scope) : Reads σ "\n" σ :=
  reads_of_lex [] (by decide) σ

theorem reads_commentLine (σ : Scope) (indent : Nat) (comment : String) :
    Reads σ (commentLine indent comment) σ := by
  rw [commentLine_eq]
  exact ((reads_spaces σ indent).append (reads_comment (closes_lineBody comment) σ)).append
    (reads_lineBreak σ)

theorem EndpointComment.reads (c : EndpointComment) (indent : Nat) (σ : Scope) :
    Reads σ (c.text indent) σ := by
  rw [c.text_eq]
  exact ((reads_spaces σ indent).append (reads_comment (c.closes_body indent) σ)).append
    (reads_lineBreak σ)

/-- A semicolon ends the last word of a type. -/
theorem Quiet.reads {s : String} (h : Quiet s) (hσ : σ.cue = .nothing) :
    Reads σ (s ++ ";\n") σ :=
  h.append_plain ';' [] hσ (by decide) (by decide) (by decide)

/-- A colon ends the name of a member, with a question mark before it if it is optional. -/
theorem Quiet.reads_optional {s : String} (h : Quiet s) (optional : Bool) (hσ : σ.cue = .nothing) :
    Reads σ (s ++ ((if optional then "?" else "") ++ ": ")) σ := by
  cases optional with
  | false => exact h.append_plain ':' [] hσ (by decide) (by decide) (by decide)
  | true => exact h.append_plain '?' [.sign ':'] hσ (by decide) (by decide) (by decide)

theorem Member.reads (indent : Nat) {m : Member} (hb : ∀ x ∈ m.type.bare, isPlainName x = true)
    (hq : ∀ x ∈ m.key :: m.type.quoted, OnOneLine x.toList) (hσ : σ.cue = .nothing) :
    Reads σ (m.text indent) σ := by
  obtain ⟨hk, hq⟩ := List.forall_mem_cons.mp hq
  have hn := (quiet_memberName hk).reads_optional m.optional hσ
  have ht := (m.type.quiet hb hq).reads hσ
  have hr := (((reads_commentLine σ indent m.comment).append (reads_spaces σ indent)).append
    hn).append ht
  simpa only [Member.text, String.append_assoc] using hr

theorem reads_membersText (indent : Nat) {ms : List Member}
    (hb : ∀ x ∈ memberBare ms, isPlainName x = true)
    (hq : ∀ x ∈ memberQuoted ms, OnOneLine x.toList) (hσ : σ.cue = .nothing) :
    Reads σ (membersText indent ms) σ := by
  induction ms with
  | nil => rfl
  | cons m ms ih =>
    obtain ⟨hm, hb⟩ := List.forall_mem_append.mp hb
    obtain ⟨hn, hq⟩ := List.forall_mem_append.mp hq
    have hr := (Member.reads indent hm hn hσ).append (ih hb hq)
    simpa only [membersText, List.map_cons, String.join_cons] using hr

/-! ## Fragments -/

def messageTypes : List String := ["Request", "Response"]

/-- The scope behind a declaration, within as many blocks. -/
def Scope.declaring (path ds : List String) (type : String) (depth : Nat) : Scope :=
  ⟨path, depth, .nothing, ds ++ [".".intercalate (path ++ [type])]⟩

theorem Scope.foldl_declare {type : String} (keyword : String)
    (hk : Cue.ofWord keyword = .declaration) (ht : Cue.ofWord type = .nothing)
    (path ds : List String) (ts : List Token) :
    (.word keyword :: .word type :: ts).foldl token ⟨path, 0, .nothing, ds⟩ =
      ts.foldl token (declaring path ds type 0) := by
  simp [token, word, hk, ht, declaring]

theorem ofWord_of_mem {type : String} (h : type ∈ messageTypes) : Cue.ofWord type = .nothing := by
  simp only [messageTypes, List.mem_cons, List.not_mem_nil, or_false] at h
  rcases h with rfl | rfl <;> decide

/-- The line of an interface, and that line up to the name that it extends. -/
theorem lex_interface {type : String} (h : type ∈ messageTypes) :
    lex (.code []) ("      /** " ++ type ++ " */\n      interface " ++ type ++ " \x7b\n").toList =
        ([.word "interface", .word type, .sign '\x7b'], .code []) ∧
      lex (.code []) ("      /** " ++ type ++ " */\n      interface " ++ type ++
          " extends Api.Schema.").toList =
        ([.word "interface", .word type, .word "extends"], .code "Api.Schema.".toList) := by
  simp only [messageTypes, List.mem_cons, List.not_mem_nil, or_false] at h
  rcases h with rfl | rfl <;> decide

theorem ofWord_qualified (u : List Char) :
    Cue.ofWord (String.ofList ("Api.Schema.".toList ++ u)) = .nothing := by
  have hn : ∀ w : String, w.toList.head? ≠ some 'A' →
      String.ofList ("Api.Schema.".toList ++ u) ≠ w := by
    rintro w hw rfl
    exact hw (by rw [String.toList_ofList]; rfl)
  rw [Cue.ofWord, if_neg (not_or.mpr ⟨hn _ (by decide), hn _ (by decide)⟩), if_neg (hn _ (by decide))]

theorem reads_extends {type schema : String} (ht : type ∈ messageTypes) {path ds : List String}
    {τ : Scope}
    (h : Reader.read ⟨.code "Api.Schema.".toList, .declaring path ds type 0⟩
      (schema.toList ++ " \x7b\n".toList) = ⟨.code [], τ⟩) :
    Reads ⟨path, 0, .nothing, ds⟩ ("      /** " ++ type ++ " */\n      interface " ++ type ++
      " extends Api.Schema." ++ schema ++ " \x7b\n") τ := by
  obtain ⟨-, he⟩ := lex_interface ht
  rw [Reads, String.toList_append, String.toList_append, List.append_assoc, Reader.read_append,
    Reader.read_of_lex he,
    Scope.foldl_declare "interface" (by decide) (ofWord_of_mem ht) path ds]
  exact h

theorem Extension.reads {type : String} (ht : type ∈ messageTypes) {e : Extension}
    (hb : ∀ x ∈ e.bare, isPlainName x = true)
    (hq : ∀ x ∈ memberQuoted e.members, OnOneLine x.toList) (path ds : List String) :
    Reads ⟨path, 0, .nothing, ds⟩ (e.text type) (.declaring path ds type 0) := by
  obtain ⟨base, members⟩ := e
  obtain ⟨hs, hb⟩ := List.forall_mem_append.mp hb
  have hm : Reads (.declaring path ds type 1) (membersText 8 members) _ :=
    reads_membersText 8 hb hq rfl
  have hx : Reads (.declaring path ds type 1) "      \x7d\n" (.declaring path ds type 0) :=
    reads_of_lex [.sign '\x7d'] (by decide) _
  cases base with
  | none =>
    rw [text_none]
    have hh := reads_of_lex _ (lex_interface ht).1 ⟨path, 0, .nothing, ds⟩
    rw [Scope.foldl_declare "interface" (by decide) (ofWord_of_mem ht) path ds] at hh
    exact (hh.append hm).append hx
  | some schema =>
    rw [text_some]
    have ho : lex (.code []) " \x7b\n".toList = ([.sign '\x7b'], .code []) := by decide
    obtain ⟨v, hv⟩ := Reader.read_of_isPlainFrom (σ := .declaring path ds type 0)
      (isPlainFrom_code ofWord_qualified (hs schema (Option.mem_toList.mpr rfl))) rfl
    refine Reads.append (Reads.append (reads_extends ht ?_) hm) hx
    rw [Reader.read_append, hv, read_flush rfl (by decide) ho (by simp)]
    rfl

theorem ResponseType.reads {t : ResponseType} (hb : ∀ x ∈ t.bare, isPlainName x = true)
    (hq : ∀ x ∈ t.quoted, OnOneLine x.toList) (path ds : List String) :
    Reads ⟨path, 0, .nothing, ds⟩ t.text (.declaring path ds "Response" 0) := by
  cases t with
  | object e => exact Extension.reads (by decide) hb hq path ds
  | value type =>
    have hl : lex (.code []) "      /** Response */\n      type Response = ".toList =
        ([.word "type", .word "Response", .sign '='], .code []) := by decide
    have hh := reads_of_lex _ hl ⟨path, 0, .nothing, ds⟩
    rw [Scope.foldl_declare _ (by decide) (by decide)] at hh
    have ht := (type.quiet hb hq).reads (σ := .declaring path ds "Response" 0) rfl
    rw [text_value, String.append_assoc]
    exact hh.append ht

theorem reads_namespace {name : String} (hn : name ≠ "") (h : name.toList.all isWordPart = true)
    (path ds : List String) :
    Reads ⟨path, 0, .nothing, ds⟩ ("    namespace " ++ name ++ " \x7b\n")
      ⟨path ++ [name], 0, .nothing, ds⟩ := by
  have hs : lex (.code []) "    namespace ".toList = ([.word "namespace"], .code []) := by
    decide
  have ho : lex (.code []) " \x7b\n".toList = ([.sign '\x7b'], .code []) := by decide
  have hw : wordTokens name.toList = [.word name] := by simp [wordTokens, hn]
  have hl : lex (.code []) ("    namespace " ++ name ++ " \x7b\n").toList =
      ([.word "namespace", .word name, .sign '\x7b'], .code []) := by
    have hf : lex (.code name.toList) " \x7b\n".toList =
        ([.word name, .sign '\x7b'], .code []) := by
      rw [lex_flush (by decide), ho, hw]
      rfl
    simp only [String.toList_append, lex_append, hs, lex_word (List.all_eq_true.mp h), hf,
      List.nil_append, List.append_nil, List.cons_append]
  have hr := reads_of_lex _ hl ⟨path, 0, .nothing, ds⟩
  simpa [Scope.token, Scope.word, Cue.ofWord, Scope.openBlock] using hr

namespace EndpointTypes

/-- The name of the namespace is one word, and what its types take over is plain or on one line. -/
structure IsPlain (t : EndpointTypes) : Prop where
  name_ne : t.name ≠ ""
  name : t.name.toList.all isWordPart = true
  bare : ∀ x ∈ t.bare, isPlainName x = true
  quoted : ∀ x ∈ t.quoted, OnOneLine x.toList

instance (t : EndpointTypes) : Decidable t.IsPlain :=
  decidable_of_iff (t.name ≠ "" ∧ t.name.toList.all isWordPart = true ∧
      (∀ x ∈ t.bare, isPlainName x = true) ∧ ∀ x ∈ t.quoted, OnOneLine x.toList)
    ⟨fun ⟨h, hn, hb, hq⟩ => ⟨h, hn, hb, hq⟩, fun ⟨h, hn, hb, hq⟩ => ⟨h, hn, hb, hq⟩⟩

def qualified (path : List String) (t : EndpointTypes) : List String :=
  messageTypes.map fun type => ".".intercalate (path ++ [t.name] ++ [type])

theorem reads_of_types {t : EndpointTypes} {path ds ds₁ ds₂ : List String} (hn : t.name ≠ "")
    (hw : t.name.toList.all isWordPart = true)
    (hr : Reads ⟨path ++ [t.name], 0, .nothing, ds⟩ (t.request.text "Request")
      ⟨path ++ [t.name], 0, .nothing, ds₁⟩)
    (hs : Reads ⟨path ++ [t.name], 0, .nothing, ds₁⟩ t.response.text
      ⟨path ++ [t.name], 0, .nothing, ds₂⟩) :
    Reads ⟨path, 0, .nothing, ds⟩ t.text ⟨path, 0, .nothing, ds₂⟩ := by
  have hc := t.comment.reads 4 ⟨path, 0, .nothing, ds⟩
  have ho := reads_namespace hn hw path ds
  have hx : Reads ⟨path ++ [t.name], 0, .nothing, ds₂⟩ "    \x7d\n\n"
      ⟨path, 0, .nothing, ds₂⟩ := by
    have hx := reads_of_lex (s := "    \x7d\n\n") [.sign '\x7d'] (by decide)
      ⟨path ++ [t.name], 0, .nothing, ds₂⟩
    simpa [Scope.token, Scope.closeBlock] using hx
  have ht := ((((hc.append ho).append hr).append (reads_lineBreak _)).append hs).append hx
  simpa only [text, String.append_assoc] using ht

theorem reads {t : EndpointTypes} (h : t.IsPlain) (path ds : List String) :
    Reads ⟨path, 0, .nothing, ds⟩ t.text ⟨path, 0, .nothing, ds ++ t.qualified path⟩ := by
  obtain ⟨hb₁, hb₂⟩ := List.forall_mem_append.mp h.bare
  obtain ⟨hq₁, hq₂⟩ := List.forall_mem_append.mp h.quoted
  have hm : "Request" ∈ messageTypes := by decide
  have hr := Extension.reads hm hb₁ hq₁ (path ++ [t.name]) ds
  have hs := ResponseType.reads hb₂ hq₂ (path ++ [t.name])
    (ds ++ [".".intercalate (path ++ [t.name] ++ ["Request"])])
  have ht := reads_of_types h.name_ne h.name hr hs
  simpa only [qualified, messageTypes, List.map_cons, List.map_nil, List.append_assoc,
    List.singleton_append] using ht

theorem reads_join {ts : List EndpointTypes} (h : ∀ t ∈ ts, t.IsPlain) (path ds : List String) :
    Reads ⟨path, 0, .nothing, ds⟩ (String.join (ts.map text))
      ⟨path, 0, .nothing, ds ++ ts.flatMap (qualified path)⟩ := by
  induction ts generalizing ds with
  | nil =>
    rw [List.flatMap_nil, List.append_nil]
    rfl
  | cons t ts ih =>
    obtain ⟨ht, h⟩ := List.forall_mem_cons.mp h
    have hr := (reads ht path ds).append (ih h (ds ++ t.qualified path))
    simpa [String.join_cons] using hr

theorem declaredIn_join {ts : List EndpointTypes} (h : ∀ t ∈ ts, t.IsPlain) (path : List String) :
    declaredIn path (String.join (ts.map text)) = ts.flatMap (qualified path) := by
  have hr := reads_join h path []
  rw [declaredIn, hr]
  rfl

theorem declaredIn_text {t : EndpointTypes} (h : t.IsPlain) (path : List String) :
    declaredIn path t.text = t.qualified path := by
  have hr := reads h path []
  rw [declaredIn, hr]
  rfl

end EndpointTypes

end ApiTypings.TypeScript
