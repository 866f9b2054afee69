import ApiTypings.Url.Parse

/-! # Base addresses

An absolute address that its own text leads back to, so that it can be written down.
-/

namespace ApiTypings

structure BaseUrl where
  url : Url
  read_text : (Url.parse url.text).toOption = some url

namespace BaseUrl

instance : DecidableEq BaseUrl := fun a b =>
  decidable_of_iff (a.url = b.url) <| by cases a; cases b; simp

def text (b : BaseUrl) : String := b.url.text

def ofUrl? (u : Url) : Option BaseUrl :=
  if h : (Url.parse u.text).toOption = some u then some ⟨u, h⟩ else none

def parse? (text : String) : Option BaseUrl := (Url.parse text).toOption.bind ofUrl?

theorem parse?_text (b : BaseUrl) : parse? b.text = some b := by
  simp [parse?, text, b.read_text, ofUrl?]

end BaseUrl

end ApiTypings
