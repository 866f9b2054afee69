import ApiTypings.Proofs.Generation.Verbatim
import ApiTypings.Proofs.Naming.Freshness
import ApiTypings.Proofs.TypeScript.Namespaces

/-! # Agreement of the documents

The two ledgers of a conversion answer the same requests, so they are equal after every endpoint.
The namespaces and the functions therefore stand in the same order under the same names, and no name
is used twice. Every type that a function mentions is then declared once in the text of the
namespaces, unless a name that is written there takes the text apart.
-/

namespace ApiTypings

open TypeScript Naming

/-! ## Fragments -/

namespace TypeScript

/-- The types that the function of an endpoint mentions. -/
def mentions (name : String) : List String :=
  ["Api.Paths." ++ name ++ ".Request", "Api.Paths." ++ name ++ ".Response"]

/-- The fragment of a namespace with the types of a request and a response. -/
def IsNamespace (name : String) (comment : EndpointComment) (fragment : String) : Prop :=
  ∃ (request : Extension) (response : ResponseType),
    fragment = comment.text 4 ++ "    namespace " ++ name ++ " \x7b\n" ++
      request.text "Request" ++ "\n" ++ response.text ++ "    \x7d\n\n"

/-- The fragment of a function from the request to the response of the namespace of its name. -/
def IsFunction (name : String) (comment : EndpointComment) (fragment : String) : Prop :=
  let types := "Api.Paths." ++ name
  ∃ path method payload, fragment = comment.text 0 ++
    "export function " ++ name ++ "(params: " ++ types ++ ".Request): Promise<" ++ types ++
      ".Response> \x7b\n" ++
    "  return request<" ++ types ++ ".Response>(\x7b\n" ++
    "    url: \x60" ++ urlTemplate path ++ "\x60,\n" ++
    "    method: \"" ++ method ++ "\",\n" ++
    "    " ++ payload ++ "\n" ++
    "  \x7d);\n" ++
    "\x7d\n\n"

theorem EndpointTypes.isNamespace (t : EndpointTypes) : IsNamespace t.name t.comment t.text :=
  ⟨t.request, t.response, rfl⟩

theorem RequestFunction.isFunction (f : RequestFunction) : IsFunction f.name f.comment f.text :=
  ⟨f.path, f.method, if f.queries then "params," else "data: params,", rfl⟩

/-- Fragments of the two documents that belong together, under headings of a name and a comment. -/
structure Agree (headings : List (String × EndpointComment)) (paths services : List String) :
    Prop where
  namespaces : List.Forall₂ (fun h => IsNamespace h.1 h.2) headings paths
  functions : List.Forall₂ (fun h => IsFunction h.1 h.2) headings services
  names_nodup : (headings.map Prod.fst).Nodup

def EndpointTypes.heading (t : EndpointTypes) : String × EndpointComment := (t.name, t.comment)

def RequestFunction.heading (f : RequestFunction) : String × EndpointComment := (f.name, f.comment)

/-- Distinct names and equal headings suffice. -/
theorem agree_of_headings {ts : List EndpointTypes} {fs : List RequestFunction}
    (hd : (ts.map EndpointTypes.name).Nodup)
    (hh : ts.map EndpointTypes.heading = fs.map RequestFunction.heading) :
    Agree (ts.map EndpointTypes.heading) (ts.map EndpointTypes.text)
      (fs.map RequestFunction.text) := by
  have hn : (ts.map EndpointTypes.heading).map Prod.fst = ts.map EndpointTypes.name :=
    List.map_map
  refine ⟨?_, ?_, hn ▸ hd⟩
  · rw [List.forall₂_map_left_iff, List.forall₂_map_right_iff, List.forall₂_same]
    exact fun t _ => t.isNamespace
  · rw [hh, List.forall₂_map_left_iff, List.forall₂_map_right_iff, List.forall₂_same]
    exact fun f _ => f.isFunction

/-! ## Declared types -/

theorem EndpointTypes.qualified_eq (t : EndpointTypes) :
    t.qualified ["Api", "Paths"] = mentions t.name := by
  have hp : ∀ s : String, "Api." ++ ("Paths." ++ s) = "Api.Paths." ++ s := fun s => by
    rw [← String.append_assoc]
    rfl
  simp [qualified, mentions, messageTypes, String.intercalate_cons_cons, String.append_assoc, hp]

theorem ne_of_suffixes {s t : String} : s ++ ".Request" ≠ t ++ ".Response" := by
  intro h
  have hl := congrArg (fun s => s.toList.reverse.head?) h
  simp at hl

/-- What is mentioned tells the name, since the types of one namespace differ in their last letter. -/
theorem eq_of_mem_mentions {name name' m : String} (h : m ∈ mentions name)
    (h' : m ∈ mentions name') : name = name' := by
  simp only [mentions, List.mem_cons, List.not_mem_nil, or_false] at h h'
  rcases h with rfl | rfl <;> rcases h' with h | h
  · simpa using h
  · exact absurd h ne_of_suffixes
  · exact absurd h.symm ne_of_suffixes
  · simpa using h

theorem nodup_mentions {names : List String} (h : names.Nodup) :
    (names.flatMap mentions).Nodup := by
  refine List.nodup_flatMap.mpr ⟨fun name _ => ?_, h.imp fun hn m hm hm' => ?_⟩
  · exact List.nodup_cons.mpr ⟨fun hm => ne_of_suffixes (List.mem_singleton.mp hm),
      List.nodup_singleton _⟩
  · exact hn (eq_of_mem_mentions hm hm')

theorem declaredIn_document {body : String} {ds : List String}
    (h : Reads ⟨["Api", "Paths"], 0, .nothing, []⟩ body ⟨["Api", "Paths"], 0, .nothing, ds⟩) :
    declaredIn [] (Templates.namespaceHead "Paths" ++ body ++ Templates.namespaceTail) = ds := by
  have hh : Reads ⟨[], 0, .nothing, []⟩ (Templates.namespaceHead "Paths")
      ⟨["Api", "Paths"], 0, .nothing, []⟩ :=
    reads_of_lex [.word "declare", .word "namespace", .word "Api", .sign '\x7b',
      .word "namespace", .word "Paths", .sign '\x7b'] (by decide) _
  have ht := reads_of_lex (s := Templates.namespaceTail) [.sign '\x7d', .sign '\x7d'] (by decide)
    ⟨["Api", "Paths"], 0, .nothing, ds⟩
  have hd := (hh.append h).append ht
  rw [declaredIn, hd]
  rfl

end TypeScript

/-! ## The two ledgers -/

section Ledgers

variable {rules : ConversionRules} {r : Registry} {source : Source} {ids : List String}
  {n n' : Names} {cs : List Conversion}

theorem Names.claim_eq (e : Endpoint) (h : n.types = n.functions) :
    (n.claim e).types = (n.claim e).functions := by
  simp only [Names.claim, h]

theorem Converts.ledgers_eq (h : Converts rules r source ids n cs n') (hn : n.types = n.functions) :
    n'.types = n'.functions := by
  induction h with
  | nil => exact hn
  | convert _ _ _ ih => exact ih (Names.claim_eq _ hn)
  | skip _ _ _ _ ih => exact ih hn

theorem Converts.headings_eq (h : Converts rules r source ids n cs n')
    (hn : n.types = n.functions) :
    (cs.filterMap Conversion.types?).map EndpointTypes.heading =
      (cs.filterMap Conversion.function?).map RequestFunction.heading := by
  induction h with
  | nil => rfl
  | @convert _ _ e success n _ _ _ _ _ ih =>
    have hh : (e.types r (n.types.claimEndpoint e.path e.method).1 success).value.heading =
        (e.function (n.functions.claimEndpoint e.path e.method).1).heading := by
      rw [hn]
      rfl
    exact congrArg₂ List.cons hh (ih (Names.claim_eq e hn))
  | skip _ _ _ _ ih => exact ih hn

/-- The names of the namespaces are those that their ledger gave out. -/
theorem Converts.taken_types (h : Converts rules r source ids n cs n') :
    n'.types.taken =
      ((cs.filterMap Conversion.types?).map EndpointTypes.name).reverse ++ n.types.taken := by
  induction h with
  | nil => rfl
  | @convert _ _ e success n _ _ _ _ _ ih =>
    rw [ih]
    simp [Conversion.ofSuccess, Conversion.types?, Names.claim, Ledger.claimEndpoint,
      Endpoint.types]
  | skip _ _ _ _ ih => exact ih

theorem Converts.nodup_types (h : Converts rules r source ids n cs n')
    (hn : n.types.taken.Nodup) : n'.types.taken.Nodup := by
  induction h with
  | nil => exact hn
  | convert _ _ _ ih => exact ih (Ledger.nodup_claim hn)
  | skip _ _ _ _ ih => exact ih hn

end Ledgers

/-! ## Whole runs -/

/-- What the built-in template puts around the namespaces declares nothing. -/
theorem declaredIn_of_builtIn {body document : String} {ds : List String}
    (h : Renderer.builtIn.paths body = .ok document)
    (hr : Reads ⟨["Api", "Paths"], 0, .nothing, []⟩ body ⟨["Api", "Paths"], 0, .nothing, ds⟩) :
    declaredIn [] document = ds := by
  rw [Except.ok.inj (h.symm.trans (Templates.render_namespaceTemplate "Paths" body))]
  exact declaredIn_document hr

theorem count_qualified {ts : List EndpointTypes} (hn : (ts.map EndpointTypes.name).Nodup)
    {types : EndpointTypes} (ht : types ∈ ts) {m : String} (hm : m ∈ mentions types.name) :
    (ts.flatMap (EndpointTypes.qualified ["Api", "Paths"])).count m = 1 := by
  have hq : ts.flatMap (EndpointTypes.qualified ["Api", "Paths"]) =
      (ts.map EndpointTypes.name).flatMap mentions := by
    rw [List.flatMap_map]
    exact congrArg (ts.flatMap ·) (funext EndpointTypes.qualified_eq)
  rw [hq]
  refine List.count_eq_one_of_mem (nodup_mentions hn) (List.mem_flatMap.mpr ?_)
  exact ⟨types.name, List.mem_map_of_mem ht, hm⟩

/-- The documents of a run are made of fragments that agree, and the two ledgers are equal after
every endpoint, converted or skipped. A plain namespace declares a request and a response and
nothing else, and if all are plain, each type that a function mentions is declared once in the text
of them all. -/
theorem generate_documents_agree {c : Config} {t : Renderer} {source : Source}
    {documents : Documents} {report : Report}
    (h : (generate c t source).result = .ok (documents, report)) :
    ∃ schemas modules d, source.schemas.result = .ok schemas ∧
      source.tree.result = .ok modules ∧ (convert c.rules source).result = .ok d ∧
      t.paths (String.join (d.types.map EndpointTypes.text)) = .ok documents.paths ∧
      t.services (String.join (d.functions.map RequestFunction.text)) c.requestImport =
        .ok documents.services ∧
      Agree (d.types.map EndpointTypes.heading) (d.types.map EndpointTypes.text)
        (d.functions.map RequestFunction.text) ∧
      (∀ types ∈ d.types, types.IsPlain →
        declaredIn ["Api", "Paths"] types.text = mentions types.name) ∧
      ((∀ types ∈ d.types, types.IsPlain) →
        ∀ types ∈ d.types, ∀ m ∈ mentions types.name,
          (declaredIn ["Api", "Paths"]
            (String.join (d.types.map EndpointTypes.text))).count m = 1 ∧
          (t.paths = Renderer.builtIn.paths → (declaredIn [] documents.paths).count m = 1)) ∧
      ∀ ids rest, (endpointIds modules).value = ids ++ rest → ∃ names,
        (convertEndpoints c.rules (.ofSchemas schemas) source ids .empty).result =
          .ok (d.endpoints.take ids.length, names) ∧
        names.types = names.functions := by
  obtain ⟨d, hd, hr, -⟩ := generate_eq_ok_iff.mp h
  obtain ⟨schemas, modules, hs, hm, -, -, hc⟩ := convert_eq_ok_iff.mp hd
  obtain ⟨-, hp, hf⟩ := Declarations.render_eq_ok_iff.mp hr
  have hn : (d.types.map EndpointTypes.name).Nodup := by
    have ht := hc.nodup_types List.nodup_nil
    rw [hc.taken_types] at ht
    exact List.nodup_reverse.mp (List.nodup_append.mp ht).1
  refine ⟨schemas, modules, d, hs, hm, hd, hp, hf, agree_of_headings hn (hc.headings_eq rfl),
    fun types _ hi => ?_, fun hi types ht m hm => ⟨?_, fun hb => ?_⟩, fun ids rest he => ?_⟩
  · rw [EndpointTypes.declaredIn_text hi, EndpointTypes.qualified_eq]
  · rw [EndpointTypes.declaredIn_join hi]
    exact count_qualified hn ht hm
  · rw [declaredIn_of_builtIn (hb ▸ hp) (EndpointTypes.reads_join hi ["Api", "Paths"] [])]
    exact count_qualified hn ht hm
  · obtain ⟨names, hids⟩ := (he ▸ hc).take
    exact ⟨names, convertEndpoints_eq_ok_iff.mpr hids, hids.ledgers_eq rfl⟩

/-- A run with a skipped endpoint and two that want one name. -/
theorem sample_documents_agree :
    let source := { sampleSource with
      tree := pure [⟨some "users", none, ["1", "2", "4"].map fun id => ⟨none, some id, []⟩⟩] }
    ∃ documents report d,
      (generate .default .builtIn source).result = .ok (documents, report) ∧
      (convert Config.default.rules source).result = .ok d ∧
      Agree (d.types.map EndpointTypes.heading) (d.types.map EndpointTypes.text)
        (d.functions.map RequestFunction.text) ∧
      (∀ types ∈ d.types, ∀ m ∈ mentions types.name,
        (declaredIn [] documents.paths).count m = 1) ∧
      ∃ schemas names, (convertEndpoints Config.default.rules (.ofSchemas schemas) source
          ["1", "2"] .empty).result = .ok (d.endpoints.take 2, names) ∧
        names.types = names.functions := by
  intro source
  obtain ⟨documents, report, h⟩ :=
    exists_documents_of_isOk .default .builtIn source (by decide +kernel)
  obtain ⟨schemas, modules, d, -, hm, hd, -, -, ha, -, hc, hn⟩ := generate_documents_agree h
  obtain rfl := Except.ok.inj hm
  have hi : ∀ types ∈ d.types, types.IsPlain := by
    have hall : ∀ x ∈ (convert Config.default.rules source).result.toOption,
        ∀ types ∈ x.types, types.IsPlain := by
      decide +kernel
    exact hall d (by simp [hd, Except.toOption])
  exact ⟨documents, report, d, h, hd, ha, fun types ht m hm => (hc hi types ht m hm).2 rfl, schemas,
    hn ["1", "2"] ["4"] rfl⟩

/-- A name that takes apart the text that it is written in. -/
def intrudingName : String := "User \x7b \x7d interface Response \x7b \x7d interface Other"

def intrudingSource : Source where
  schemas := pure [⟨"s1", intrudingName, "User", none, [], none⟩]
  tree := pure [⟨some "users", none, [⟨none, some "1", []⟩]⟩]
  endpoint id := pure (sampleEndpoint id)

def intrudingTypes (c : EndpointComment) : EndpointTypes :=
  ⟨"AGetUsers", c, ⟨none, []⟩, .object ⟨some intrudingName, []⟩⟩

/-- The line of the response is read as three interfaces. -/
theorem reads_intruding (c : EndpointComment) :
    Reads ⟨["Api", "Paths"], 0, .nothing, []⟩ (intrudingTypes c).text
      ⟨["Api", "Paths"], 0, .nothing, ["Request", "Response", "Response", "Other"].map fun type =>
        ".".intercalate ["Api", "Paths", "AGetUsers", type]⟩ := by
  have hm : "Request" ∈ messageTypes := by decide
  have hr := Extension.reads hm (e := ⟨none, []⟩) (by decide) (by decide)
    ["Api", "Paths", "AGetUsers"] []
  have hl : lex (.code "Api.Schema.".toList) (intrudingName.toList ++ " \x7b\n".toList) =
      ([.word "Api.Schema.User", .sign '\x7b', .sign '\x7d', .word "interface", .word "Response",
        .sign '\x7b', .sign '\x7d', .word "interface", .word "Other", .sign '\x7b'],
        .code []) := by
    decide
  have hs : "Response" ∈ messageTypes := by decide
  have hh := fun ds => reads_extends hs (Reader.read_of_lex hl
    (.declaring ["Api", "Paths", "AGetUsers"] ds "Response" 0))
  have hx := reads_of_lex (s := "      \x7d\n") [.sign '\x7d'] (by decide)
  have hn : "AGetUsers" ≠ "" ∧ "AGetUsers".toList.all isWordPart = true := by decide
  refine EndpointTypes.reads_of_types hn.1 hn.2 hr ?_
  change Reads _ (Extension.text "Response" ⟨some intrudingName, []⟩) _
  rw [Extension.text_some]
  exact ((hh _).append (reads_membersText 8 (by decide) (by decide) rfl)).append (hx _)

/-- The namespace of an endpoint declares its response twice. -/
theorem exists_type_declared_twice :
    ¬ ∀ c source documents report d, (generate c .builtIn source).result = .ok (documents, report) →
      (convert c.rules source).result = .ok d →
        ∀ types ∈ d.types, ∀ m ∈ mentions types.name,
          (declaredIn [] documents.paths).count m = 1 := by
  intro h
  obtain ⟨documents, report, hg⟩ :=
    exists_documents_of_isOk .default .builtIn intrudingSource (by decide +kernel)
  obtain ⟨d, hd, hr, -⟩ := generate_eq_ok_iff.mp hg
  obtain ⟨-, hp, -⟩ := Declarations.render_eq_ok_iff.mp hr
  have ht : ∀ x ∈ (convert Config.default.rules intrudingSource).result.toOption,
      ∃ c ∈ x.types.map EndpointTypes.comment, x.types = [intrudingTypes c] := by
    decide +kernel
  obtain ⟨c, -, hc⟩ := ht d (by simp [hd, Except.toOption])
  have hb : d.pathsText = (intrudingTypes c).text := by
    simp [Declarations.pathsText, hc, String.join_cons]
  have hone := h .default intrudingSource documents report d hg hd (intrudingTypes c) (by simp [hc])
    "Api.Paths.AGetUsers.Response" (by simp [mentions, intrudingTypes])
  rw [declaredIn_of_builtIn hp (hb ▸ reads_intruding c)] at hone
  exact absurd hone (by decide)

end ApiTypings
