import ApiTypings.Model.Document
import ApiTypings.Warning

/-! # Endpoints of the tree

Endpoints stand in modules or in the folders of modules. Those that stand elsewhere are left out
with a warning.
-/

namespace ApiTypings

namespace Node

def folderIds (module : Node) (folder : Node) : Warned (List String) := do
  let ids ← Warned.each (fun n : Node =>
    match n.endpoint with
    | some id => pure [id]
    | none => ⟨[], [.nestedFolder (n.name.getD "") (module.name.getD "")]⟩) folder.children
  return ids.flatten

def moduleIds (module : Node) : Warned (List String) := do
  let outside : List Warning := match module.endpoint with
    | some id => [.outsideModule id]
    | none => []
  let _ ← (⟨(), outside⟩ : Warned Unit)
  let ids ← Warned.each (fun n : Node =>
    match n.endpoint with
    | some id => pure [id]
    | none => module.folderIds n) module.children
  return ids.flatten

end Node

def endpointIds (modules : List Node) : Warned (List String) :=
  List.flatten <$> Warned.each Node.moduleIds modules

end ApiTypings
