import ApiTypings.Config.Text
import ApiTypings.Failure

/-! # Configuration files -/

namespace ApiTypings.Config

def defaultFile : Path := ⟨"foxtype.yaml"⟩

def load (fs : FileSystem) (p : Path) : Except Failure Config :=
  match fs.read p with
  | .error e => .error (.config (.unreadable p.text e))
  | .ok text =>
    match parse? text with
    | some c => .ok c
    | none => .error .settings

def save (c : Config) (p : Path) : FileAction Unit := FileAction.write p c.text

end ApiTypings.Config
