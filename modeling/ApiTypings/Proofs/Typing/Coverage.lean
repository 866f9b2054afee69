import ApiTypings.Decode.Tree
import ApiTypings.Proofs.Typing.Tree

/-! # Endpoints left out of a tree

The ids of a tree and its warnings are read off the nodes in document order. Every endpoint is listed,
reported or below a folder that is reported, unless it stands below an endpoint that is listed: what
is below such an endpoint is left out and nothing is said.
-/

namespace ApiTypings

/-! ## Occurrences -/

structure Occurrence where
  /-- The nodes above it, the module first. -/
  path : List Node
  node : Node

mutual

/-- A node and all nodes below it, in document order. -/
def Node.occurrences : List Node → Node → List Occurrence
  | path, ⟨name, endpoint, children⟩ =>
    ⟨path, ⟨name, endpoint, children⟩⟩ ::
      occurrencesIn (path ++ [⟨name, endpoint, children⟩]) children

def occurrencesIn : List Node → List Node → List Occurrence
  | _, [] => []
  | path, n :: rest => n.occurrences path ++ occurrencesIn path rest

end

theorem occurrences_eq (path : List Node) (n : Node) :
    n.occurrences path = ⟨path, n⟩ :: occurrencesIn (path ++ [n]) n.children := by
  obtain ⟨name, endpoint, children⟩ := n
  rw [Node.occurrences]

theorem occurrencesIn_eq (path ns : List Node) :
    occurrencesIn path ns = ns.flatMap (Node.occurrences path) := by
  induction ns with
  | nil => rw [occurrencesIn, List.flatMap_nil]
  | cons n ns ih => rw [occurrencesIn, ih, List.flatMap_cons]

mutual

theorem path_prefix_of_mem_occurrences {o : Occurrence} :
    ∀ (path : List Node) (n : Node), o ∈ n.occurrences path → path <+: o.path
  | path, ⟨name, endpoint, children⟩, h => by
    rw [Node.occurrences, List.mem_cons] at h
    rcases h with rfl | h
    · exact List.prefix_rfl
    · exact (List.prefix_append path _).trans (path_prefix_of_mem_occurrencesIn _ children h)

theorem path_prefix_of_mem_occurrencesIn {o : Occurrence} :
    ∀ path ns : List Node, o ∈ occurrencesIn path ns → path <+: o.path
  | path, [], h => by simp [occurrencesIn] at h
  | path, n :: ns, h => by
    rw [occurrencesIn, List.mem_append] at h
    rcases h with h | h
    · exact path_prefix_of_mem_occurrences path n h
    · exact path_prefix_of_mem_occurrencesIn path ns h

end

section Depth

variable {α : Type} {f : Occurrence → Option α}

theorem filterMap_occurrencesIn (path ns : List Node) :
    (occurrencesIn path ns).filterMap f = ns.flatMap fun n => (n.occurrences path).filterMap f := by
  rw [occurrencesIn_eq, List.filterMap_flatMap]

theorem filterMap_occurrences (path : List Node) (n : Node) :
    (n.occurrences path).filterMap f =
      (f ⟨path, n⟩).toList ++ (occurrencesIn (path ++ [n]) n.children).filterMap f := by
  rw [occurrences_eq, List.filterMap_cons]
  cases f ⟨path, n⟩ <;> rfl

variable (hf : ∀ o, 3 ≤ o.path.length → f o = none)

include hf

theorem filterMap_occurrencesIn_of_deep (path ns : List Node) (h : 3 ≤ path.length) :
    (occurrencesIn path ns).filterMap f = [] :=
  List.filterMap_eq_nil_iff.mpr fun o ho =>
    hf o (h.trans (path_prefix_of_mem_occurrencesIn path ns ho).length_le)

/-- What only modules, their children and the children of these have is found by three loops. -/
theorem filterMap_occurrencesIn_nil (modules : List Node) :
    (occurrencesIn [] modules).filterMap f = modules.flatMap fun m =>
      (f ⟨[], m⟩).toList ++ m.children.flatMap fun c =>
        (f ⟨[m], c⟩).toList ++ c.children.flatMap fun g => (f ⟨[m, c], g⟩).toList := by
  have hg : ∀ m c g : Node, (g.occurrences [m, c]).filterMap f = (f ⟨[m, c], g⟩).toList := by
    intro m c g
    have hd := filterMap_occurrencesIn_of_deep hf ([m, c] ++ [g]) g.children (by simp)
    rw [filterMap_occurrences, hd, List.append_nil]
  simp only [filterMap_occurrencesIn, filterMap_occurrences [], filterMap_occurrences [_],
    List.nil_append, List.singleton_append, hg]

end Depth

namespace Occurrence

/-- The id that an endpoint of a module or of a folder in it adds to the list. -/
def listed? : Occurrence → Option String
  | ⟨[_], n⟩ => n.endpoint
  | ⟨[_, f], n⟩ => if f.endpoint.isNone then n.endpoint else none
  | _ => none

/-- The warning for an endpoint in place of a module or for a folder in a folder. -/
def warning? : Occurrence → Option Warning
  | ⟨[], n⟩ => n.endpoint.map .outsideModule
  | ⟨[m, f], n⟩ =>
    if f.endpoint.isNone && n.endpoint.isNone then
      some (.nestedFolder (n.name.getD "") (m.name.getD ""))
    else none
  | _ => none

theorem listed?_of_deep {o : Occurrence} (h : 3 ≤ o.path.length) : o.listed? = none := by
  obtain ⟨path, n⟩ := o
  match path with
  | _ :: _ :: _ :: _ => rfl
  | [] | [_] | [_, _] => simp at h

theorem warning?_of_deep {o : Occurrence} (h : 3 ≤ o.path.length) : o.warning? = none := by
  obtain ⟨path, n⟩ := o
  match path with
  | _ :: _ :: _ :: _ => rfl
  | [] | [_] | [_, _] => simp at h

end Occurrence

open Occurrence

theorem value_endpointIds_eq (modules : List Node) :
    (endpointIds modules).value = (occurrencesIn [] modules).filterMap listed? := by
  rw [value_endpointIds, filterMap_occurrencesIn_nil fun _ => listed?_of_deep]
  refine List.flatMap_congr fun m _ => List.flatMap_congr fun c _ => ?_
  unfold Node.listed
  cases hc : c.endpoint with
  | some id => simp [listed?, hc]
  | none => simp [listed?, hc, List.filterMap_eq_flatMap_toList]

theorem warnings_endpointIds_eq (modules : List Node) :
    (endpointIds modules).warnings = (occurrencesIn [] modules).filterMap warning? := by
  rw [filterMap_occurrencesIn_nil fun _ => warning?_of_deep]
  simp only [endpointIds, Warned.warnings_map, Warned.warnings_each, Node.moduleIds,
    Warned.warnings_bind, Warned.warnings_pure, List.append_nil]
  refine List.flatMap_congr fun m _ => congrArg₂ _ ?_ (List.flatMap_congr fun c _ => ?_)
  · cases hm : m.endpoint <;> simp [warning?, hm]
  · cases hc : c.endpoint with
    | some id => simp [warning?, hc]
    | none =>
      simp only [warning?, hc, Node.folderIds, Warned.warnings_bind, Warned.warnings_each,
        Warned.warnings_pure, List.append_nil]
      refine List.flatMap_congr fun g _ => ?_
      cases g.endpoint <;> rfl

/-! ## Nodes above a node -/

namespace Occurrence

def IsBelow (o o' : Occurrence) : Prop := o'.path ++ [o'.node] <+: o.path

/-- A folder that a warning names. -/
def IsReported (o : Occurrence) : Prop :=
  ∃ folder module, o.warning? = some (.nestedFolder folder module)

theorem IsBelow.length_lt {o o' : Occurrence} (h : o.IsBelow o') :
    o'.path.length < o.path.length := by
  have hl := List.IsPrefix.length_le h
  rwa [List.length_append, List.length_singleton] at hl

end Occurrence

mutual

theorem mem_occurrences_of_isBelow {o o' : Occurrence} (hb : o.IsBelow o') :
    ∀ (path : List Node) (n : Node), o ∈ n.occurrences path → path.length ≤ o'.path.length →
      o' ∈ n.occurrences path
  | path, ⟨name, endpoint, children⟩, h, hl => by
    rw [Node.occurrences, List.mem_cons] at h ⊢
    rcases h with rfl | h
    · exact absurd hb.length_lt (by simpa using hl)
    · rcases Nat.lt_or_eq_of_le hl with hl | hl
      · refine .inr (mem_occurrencesIn_of_isBelow hb _ children h ?_)
        simpa using hl
      · -- Of two starts of one path that are equally long neither goes on behind the other.
        have hp := path_prefix_of_mem_occurrencesIn _ children h
        have he := (List.prefix_of_prefix_length_le hb hp (by simp [hl])).eq_of_length (by simp [hl])
        obtain ⟨path', n'⟩ := o'
        obtain ⟨rfl, hn⟩ := List.append_inj' he rfl
        exact .inl (congrArg _ (List.singleton_inj.mp hn))

theorem mem_occurrencesIn_of_isBelow {o o' : Occurrence} (hb : o.IsBelow o') :
    ∀ path ns : List Node, o ∈ occurrencesIn path ns → path.length ≤ o'.path.length →
      o' ∈ occurrencesIn path ns
  | path, [], h, _ => by simp [occurrencesIn] at h
  | path, n :: ns, h, hl => by
    rw [occurrencesIn, List.mem_append] at h ⊢
    exact h.imp (fun h => mem_occurrences_of_isBelow hb path n h hl)
      fun h => mem_occurrencesIn_of_isBelow hb path ns h hl

end

namespace Occurrence

variable {o : Occurrence} {modules : List Node}

theorem exists_mem_isBelow_iff (h : o ∈ occurrencesIn [] modules) {P : Occurrence → Prop} :
    (∃ o' ∈ occurrencesIn [] modules, o.IsBelow o' ∧ P o') ↔ ∃ o', o.IsBelow o' ∧ P o' :=
  ⟨fun ⟨o', _, hb, hp⟩ => ⟨o', hb, hp⟩,
    fun ⟨o', hb, hp⟩ => ⟨o', mem_occurrencesIn_of_isBelow hb [] modules h (Nat.zero_le _), hb, hp⟩⟩

theorem exists_listed_above_iff :
    (∃ o', o.IsBelow o' ∧ o'.listed?.isSome) ↔
      (∃ m c rest, o.path = m :: c :: rest ∧ c.endpoint.isSome) ∨
      ∃ m c g rest, o.path = m :: c :: g :: rest ∧ c.endpoint = none ∧ g.endpoint.isSome := by
  constructor
  · rintro ⟨⟨path, n⟩, ⟨rest, hr⟩, hl⟩
    match path with
    | [] => cases hl
    | [m] => exact .inl ⟨m, n, rest, hr.symm, hl⟩
    | [m, c] =>
      cases hc : c.endpoint with
      | none => exact .inr ⟨m, c, n, rest, hr.symm, hc, by simpa [listed?, hc] using hl⟩
      | some id => simp [listed?, hc] at hl
    | _ :: _ :: _ :: _ => cases hl
  · rintro (⟨m, c, rest, hr, hc⟩ | ⟨m, c, g, rest, hr, hc, hg⟩)
    · exact ⟨⟨[m], c⟩, ⟨rest, hr.symm⟩, hc⟩
    · exact ⟨⟨[m, c], g⟩, ⟨rest, hr.symm⟩, by simpa [listed?, hc] using hg⟩

theorem exists_reported_above_iff :
    (∃ o', o.IsBelow o' ∧ o'.IsReported) ↔
      ∃ m c g rest, o.path = m :: c :: g :: rest ∧ c.endpoint = none ∧ g.endpoint = none := by
  constructor
  · rintro ⟨⟨path, n⟩, ⟨rest, hr⟩, folder, module, hw⟩
    match path with
    | [] =>
      cases hn : n.endpoint <;> simp [warning?, hn] at hw
    | [m] => cases hw
    | [m, c] =>
      refine ⟨m, c, n, rest, hr.symm, ?_⟩
      cases hc : c.endpoint <;> cases hn : n.endpoint <;> simp [warning?, hc, hn] at hw ⊢
    | _ :: _ :: _ :: _ => cases hw
  · rintro ⟨m, c, g, rest, hr, hc, hg⟩
    exact ⟨⟨[m, c], g⟩, ⟨rest, hr.symm⟩, g.name.getD "", m.name.getD "", by simp [warning?, hc, hg]⟩

/-- An endpoint that adds its id to the list, that a warning names because it stands in place of a
module, or that stands below a folder that a warning names. -/
def IsAccounted (modules : List Node) (o : Occurrence) : Prop :=
  o.listed? = o.node.endpoint ∨
    (o.path = [] ∧ o.warning? = o.node.endpoint.map Warning.outsideModule) ∨
    ∃ o' ∈ occurrencesIn [] modules, o.IsBelow o' ∧ o'.IsReported

theorem isAccounted_iff (h : o ∈ occurrencesIn [] modules) (he : o.node.endpoint.isSome) :
    o.IsAccounted modules ↔
      ¬ ∃ o' ∈ occurrencesIn [] modules, o.IsBelow o' ∧ o'.listed?.isSome := by
  rw [IsAccounted, exists_mem_isBelow_iff h, exists_mem_isBelow_iff h, exists_listed_above_iff,
    exists_reported_above_iff]
  obtain ⟨path, n⟩ := o
  obtain ⟨id, hn⟩ : ∃ id, n.endpoint = some id := Option.isSome_iff_exists.mp he
  match path with
  | [] => simp [warning?]
  | [m] => simp [listed?]
  | [m, c] => cases hc : c.endpoint <;> simp [listed?, hc, hn]
  | m :: c :: g :: rest =>
    cases hc : c.endpoint <;> cases hg : g.endpoint <;> simp [listed?, hc, hg, hn]

end Occurrence

/-- The list and the warnings have what the nodes add to them in document order. An endpoint is listed,
reported or below a folder that is reported exactly if it does not stand below an endpoint that is
listed. -/
theorem endpointIds_accounts (modules : List Node) :
    (endpointIds modules).value = (occurrencesIn [] modules).filterMap listed? ∧
      (endpointIds modules).warnings = (occurrencesIn [] modules).filterMap warning? ∧
      ∀ o ∈ occurrencesIn [] modules, o.node.endpoint.isSome →
        (o.IsAccounted modules ↔
          ¬ ∃ o' ∈ occurrencesIn [] modules, o.IsBelow o' ∧ o'.listed?.isSome) :=
  ⟨value_endpointIds_eq modules, warnings_endpointIds_eq modules, fun _ => isAccounted_iff⟩

def sampleLeaf (id : String) : Node := ⟨none, some id, []⟩

def nestedFolder : Node := ⟨some "old", none, [sampleLeaf "2"]⟩

def nestedEndpoint : Node := ⟨none, some "3", [sampleLeaf "4"]⟩

def sampleFolder : Node := ⟨some "admin", none, [sampleLeaf "1", nestedFolder]⟩

def sampleModule : Node := ⟨some "users", none, [sampleFolder, nestedEndpoint]⟩

/-- Of the two endpoints that are not listed only one is below a folder that is reported. -/
theorem sampleModule_accounts :
    (endpointIds [sampleModule]).value = ["1", "3"] ∧
      (endpointIds [sampleModule]).warnings = [.nestedFolder "old" "users"] ∧
      Occurrence.IsAccounted [sampleModule] ⟨[sampleModule, sampleFolder, nestedFolder], sampleLeaf "2"⟩ ∧
      ¬ Occurrence.IsAccounted [sampleModule] ⟨[sampleModule, nestedEndpoint], sampleLeaf "4"⟩ := by
  obtain ⟨hi, hw, ha⟩ := endpointIds_accounts [sampleModule]
  have hm : ∀ o ∈ [⟨[sampleModule, sampleFolder, nestedFolder], sampleLeaf "2"⟩,
      ⟨[sampleModule], nestedEndpoint⟩, ⟨[sampleModule, nestedEndpoint], sampleLeaf "4"⟩],
      o ∈ occurrencesIn [] [sampleModule] := by
    simp [occurrencesIn, Node.occurrences, sampleModule, sampleFolder, nestedFolder,
      nestedEndpoint, sampleLeaf]
  refine ⟨hi.trans (by decide), hw.trans (by decide), (ha _ (hm _ (by simp)) rfl).mpr ?_,
    fun h => (ha _ (hm _ (by simp)) rfl).mp h ⟨_, hm ⟨[sampleModule], nestedEndpoint⟩ (by simp),
      ⟨[], rfl⟩, rfl⟩⟩
  rintro ⟨o', -, hb, hl⟩
  rcases exists_listed_above_iff.mp ⟨o', hb, hl⟩ with
    ⟨m, c, rest, hr, hc⟩ | ⟨m, c, g, rest, hr, -, hg⟩
  · cases hr
    cases hc
  · cases hr
    cases hg

def nestedEndpointJson : Json :=
  .array [.object [("name", .string "m"), ("children", .array [.object
    [("api", .object [("id", .string "3")]), ("children", .array [.object
      [("api", .object [("id", .string "4")])]])]])]]

/-- An endpoint below another endpoint is in no list, and there is no warning. -/
theorem exists_endpoint_unaccounted :
    ¬ ∀ j modules, decodeNodes j = .ok modules →
      ∀ o ∈ occurrencesIn [] modules, ∀ id, o.node.endpoint = some id →
        id ∈ (endpointIds modules).value ∨ (endpointIds modules).warnings ≠ [] := by
  intro h
  have hd : decodeNodes nestedEndpointJson = .ok [⟨some "m", none, [nestedEndpoint]⟩] := rfl
  have ho : ⟨[⟨some "m", none, [nestedEndpoint]⟩, nestedEndpoint], sampleLeaf "4"⟩ ∈
      occurrencesIn [] [⟨some "m", none, [nestedEndpoint]⟩] := by
    simp [occurrencesIn, Node.occurrences, nestedEndpoint, sampleLeaf]
  rcases h _ _ hd _ ho "4" rfl with h | h
  · exact absurd h (by decide)
  · exact h rfl

end ApiTypings
