import Mathlib
import ApiTypings.Typing.Tree

/-! # Endpoints in a tree

The ids of a tree are those of the children of modules and of the children of folders, in order.
Removing the endpoints with some ids from a tree removes these ids and no others.
-/

namespace ApiTypings

namespace Node

def listed (n : Node) : List String :=
  match n.endpoint with
  | some id => [id]
  | none => n.children.filterMap endpoint

theorem value_folderIds (m f : Node) :
    (m.folderIds f).value = f.children.filterMap endpoint := by
  simp only [folderIds, Warned.value_bind, Warned.value_each, Warned.value_pure]
  induction f.children with
  | nil => rfl
  | cons n ns ih => cases hn : n.endpoint <;> simp [hn, ih]

theorem value_moduleIds (m : Node) : m.moduleIds.value = m.children.flatMap listed := by
  simp only [moduleIds, Warned.value_bind, Warned.value_each, Warned.value_pure, List.flatMap]
  congr 1
  refine List.map_congr_left fun n _ => ?_
  unfold listed
  cases n.endpoint with
  | some id => rfl
  | none => exact value_folderIds m n

end Node

theorem value_endpointIds (modules : List Node) :
    (endpointIds modules).value = modules.flatMap fun m => m.children.flatMap Node.listed := by
  simp only [endpointIds, Warned.value_map, Warned.value_each, Node.value_moduleIds, List.flatMap]

/-! ## Trees without some endpoints -/

mutual

/-- A node without the endpoints with some ids, at any depth. -/
def Node.without (ids : List String) : Node → Node
  | ⟨name, endpoint, children⟩ =>
    ⟨name, endpoint.filter (· ∉ ids), nodesWithout ids children⟩

/-- An endpoint that is left out leaves nothing behind. -/
def nodesWithout (ids : List String) : List Node → List Node
  | [] => []
  | n :: rest =>
    if n.endpoint.any ids.contains then nodesWithout ids rest
    else n.without ids :: nodesWithout ids rest

end

section Without

variable (ids : List String)

@[simp] theorem Node.endpoint_without (n : Node) :
    (n.without ids).endpoint = n.endpoint.filter (· ∉ ids) := by
  cases n; rfl

@[simp] theorem Node.children_without (n : Node) :
    (n.without ids).children = nodesWithout ids n.children := by
  cases n; rfl

theorem filterMap_endpoint_nodesWithout (ns : List Node) :
    (nodesWithout ids ns).filterMap Node.endpoint =
      (ns.filterMap Node.endpoint).filter (· ∉ ids) := by
  induction ns with
  | nil => rfl
  | cons n ns ih =>
    cases hn : n.endpoint with
    | none => simp [nodesWithout, hn, ih]
    | some id => by_cases hi : id ∈ ids <;>
      simp [nodesWithout, Option.filter, hn, hi, ih]

theorem flatMap_listed_nodesWithout (ns : List Node) :
    (nodesWithout ids ns).flatMap Node.listed =
      (ns.flatMap Node.listed).filter (· ∉ ids) := by
  induction ns with
  | nil => rfl
  | cons n ns ih =>
    cases hn : n.endpoint with
    | none =>
      simp [nodesWithout, hn, ih, Node.listed, filterMap_endpoint_nodesWithout]
    | some id => by_cases hi : id ∈ ids <;>
      simp [nodesWithout, Node.listed, Option.filter, hn, hi, ih]

theorem value_endpointIds_without (modules : List Node) :
    (endpointIds (modules.map (Node.without ids))).value =
      (endpointIds modules).value.filter (· ∉ ids) := by
  rw [value_endpointIds, value_endpointIds, List.filter_flatMap, List.flatMap_map]
  simp [flatMap_listed_nodesWithout]

end Without

end ApiTypings
