import ApiTypings.Number.Text
import ApiTypings.Text.Quoted

/-! # Documents

The values of JSON documents. The members of an object stand in source order, repeated keys
included. A part of a document may be well formed and yet stand for no value: a number out of
range, text with half a surrogate pair, or a container nested too deeply. Such a part can be
skipped, not read.
-/

namespace ApiTypings

/-- An integer of 64 bits, signed or unsigned, or a floating point number. -/
inductive JsonNumber where
  | integer (n : Int)
  | float (x : Number.Binary64)
deriving DecidableEq, Repr

inductive Json where
  | null
  | bool (b : Bool)
  | number (n : JsonNumber)
  | string (s : String)
  | array (items : List Json)
  | object (members : List (String × Json))
  | unreadable
deriving Inhabited

namespace Json

def isNull : Json → Bool
  | .null => true
  | _ => false

/-- Containers may stand inside one another up to this many levels. -/
def nestingLimit : Nat := 127

/-- How an error message names the value. -/
def shown : Json → String
  | .null => "null"
  | .bool b => "boolean `" ++ toString b ++ "`"
  | .number (.integer n) => "integer `" ++ toString n ++ "`"
  | .number (.float x) => "floating point `" ++ x.plainText ++ "`"
  | .string s => "string " ++ Text.quoted s
  | .array _ => "sequence"
  | .object _ => "map"
  | .unreadable => "unreadable"

mutual

/-- Whether every part of the value can be read. -/
def readable : Json → Bool
  | .unreadable => false
  | .array items => readableItems items
  | .object members => readableMembers members
  | _ => true

def readableItems : List Json → Bool
  | [] => true
  | j :: rest => readable j && readableItems rest

def readableMembers : List (String × Json) → Bool
  | [] => true
  | (_, j) :: rest => readable j && readableMembers rest

end

end Json

/-- The entries with a new value for a key: in place of the old value, or at the end. -/
def assign {α : Type} (key : String) (value : α) : List (String × α) → List (String × α)
  | [] => [(key, value)]
  | (k, v) :: rest => if k = key then (key, value) :: rest else (k, v) :: assign key value rest

/-- Entries with every key once. A repeated key stands where it stood first and has its last
value. -/
def mergeEntries {α : Type} (entries : List (String × α)) : List (String × α) :=
  entries.foldl (fun merged (k, v) => assign k v merged) []

end ApiTypings
