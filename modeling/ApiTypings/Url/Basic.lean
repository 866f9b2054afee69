import ApiTypings.Url.Host

/-! # Addresses

The parts of an address and its text. Most addresses have a path of segments below a host; the
path of others is a text of its own, and nothing can be resolved against those.
-/

namespace ApiTypings

/-- What stands between two slashes and the path. -/
structure Authority where
  username : List Char
  password : List Char
  host : List Char
  port : Option Nat
deriving DecidableEq, Repr

inductive UrlPath where
  | segments (ss : List (List Char))
  | opaqueText (s : List Char)
deriving DecidableEq, Repr

structure Url where
  scheme : List Char
  authority : Option Authority
  path : UrlPath
  query : Option (List Char)
  fragment : Option (List Char)
deriving DecidableEq, Repr

namespace Url

/-- The schemes whose addresses have a host, with their usual ports. -/
def defaultPort? (scheme : List Char) : Option (Option Nat) :=
  match String.ofList scheme with
  | "http" | "ws" => some (some 80)
  | "https" | "wss" => some (some 443)
  | "ftp" => some (some 21)
  | "file" => some none
  | _ => none

def isSpecial (scheme : List Char) : Bool := (defaultPort? scheme).isSome

def isFile (scheme : List Char) : Bool := scheme == "file".toList

def credentialsText (a : Authority) : List Char :=
  if a.username.isEmpty && a.password.isEmpty then []
  else a.username ++ (if a.password.isEmpty then [] else ':' :: a.password) ++ ['@']

def authorityText (a : Authority) : List Char :=
  "//".toList ++ credentialsText a ++ a.host ++
    (match a.port with
      | some p => ':' :: Nat.toDigits 10 p
      | none => [])

def UrlPath.chars : UrlPath → List Char
  | .segments ss => ss.flatMap ('/' :: ·)
  | .opaqueText s => s

/-- Before a path that starts with two slashes and has no host, a dot keeps it a path. -/
def pathText (u : Url) : List Char :=
  match u.authority, u.path with
  | none, .segments ([] :: s :: ss) => "/.".toList ++ UrlPath.chars (.segments ([] :: s :: ss))
  | _, p => UrlPath.chars p

def marked (mark : Char) : Option (List Char) → List Char
  | some s => mark :: s
  | none => []

/-- The part of the text that is asked from a server: path and query. -/
def target (u : Url) : String := String.ofList (u.pathText ++ marked '?' u.query)

def text (u : Url) : String :=
  String.ofList (u.scheme ++ ':' :: (u.authority.map authorityText).getD [] ++ u.pathText ++
    marked '?' u.query ++ marked '#' u.fragment)

end Url

end ApiTypings
