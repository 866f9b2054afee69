import ApiTypings.TypeScript.Comment
import ApiTypings.TypeScript.TypeExpr

/-! # Declarations

Interfaces with members, and aliases for unions of literals. Every declaration and every member
stands below a comment of one line.
-/

namespace ApiTypings.TypeScript

def spaces (n : Nat) : String := String.ofList (List.replicate n ' ')

def commentLine (indent : Nat) (comment : String) : String :=
  spaces indent ++ "/** " ++ commentText comment ++ " */\n"

structure Member where
  key : String
  optional : Bool
  type : TypeExpr
  comment : String
deriving DecidableEq, Repr

def Member.text (indent : Nat) (m : Member) : String :=
  commentLine indent m.comment ++ spaces indent ++ memberName m.key ++
    (if m.optional then "?" else "") ++ ": " ++ m.type.text ++ ";\n"

def membersText (indent : Nat) (members : List Member) : String :=
  String.join (members.map (Member.text indent))

structure LiteralAlias where
  name : String
  values : List String
  comment : String
deriving DecidableEq, Repr

def LiteralAlias.text (a : LiteralAlias) : String :=
  commentLine 4 a.comment ++ "    type " ++ a.name ++ " = " ++ literalUnion a.values ++ ";\n\n"

structure Interface where
  name : String
  members : List Member
  comment : String
deriving DecidableEq, Repr

def Interface.text (i : Interface) : String :=
  commentLine 4 i.comment ++ "    interface " ++ i.name ++ " \x7b\n" ++ membersText 6 i.members ++
    "    \x7d\n\n"

/-- What the schema document declares: all aliases, then all interfaces. -/
structure SchemaDeclarations where
  aliases : List LiteralAlias
  interfaces : List Interface
deriving DecidableEq, Repr

def SchemaDeclarations.text (d : SchemaDeclarations) : String :=
  String.join (d.aliases.map LiteralAlias.text) ++ String.join (d.interfaces.map Interface.text)

end ApiTypings.TypeScript
