import ApiTypings.Text.Blank

/-! # Comment text

Free text inside a comment stands on one line, and no `*/` in it can end the comment.
-/

namespace ApiTypings.TypeScript

/-- A backslash between every `*` and a `/` right behind it. -/
def breakTerminators : List Char → List Char
  | '*' :: '/' :: rest => '*' :: '\\' :: '/' :: breakTerminators rest
  | c :: rest => c :: breakTerminators rest
  | [] => []

def commentText (s : String) : String :=
  String.ofList (breakTerminators ([' '].intercalate (Text.words s.toList)))

end ApiTypings.TypeScript
