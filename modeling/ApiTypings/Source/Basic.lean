import ApiTypings.Decode.Endpoint
import ApiTypings.Decode.Schema
import ApiTypings.Decode.Tree
import ApiTypings.Run

/-! # Sources of documents

A source has the list of schemas, the tree of endpoints and a document for each endpoint.
-/

namespace ApiTypings

structure Source where
  schemas : Run (List Schema)
  tree : Run (List Node)
  endpoint (id : String) : Run Endpoint

variable {α : Type}

def openEnvelope (read : Json → Decoded α) (origin text : String) : Except Failure α :=
  match readEnvelope read text with
  | .ok a => .ok a
  | .error e => .error (.transport (.envelope origin e))

end ApiTypings
