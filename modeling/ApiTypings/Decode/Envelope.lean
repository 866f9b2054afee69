import ApiTypings.Decode.Record
import ApiTypings.Json.Reader

/-! # Envelopes

Every document arrives in an envelope that tells whether the request succeeded, and if not, why.
-/

namespace ApiTypings

variable {α : Type}

structure Envelope (α : Type) where
  success : Option Bool
  data : Option α
  errorMessage : Option String

def envelopeRecord (read : Json → Decoded α) : Record Json (Envelope α) where
  name := "Envelope"
  fields := [
    ⟨"success", true, fun j e => do return { e with success := ← j.orNull Json.asFlag }⟩,
    ⟨"data", false, fun j e => do return { e with data := ← j.orNull read }⟩,
    ⟨"errorMessage", true, fun j e => do return { e with errorMessage := ← j.orNull Json.asText }⟩]

def decodeText (read : Json → Decoded α) (text : String) : Decoded α :=
  match Json.parse text with
  | some j => read j
  | none => .error .malformed

inductive EnvelopeError where
  | undecodable (e : DecodeError)
  | refused (message : String)
  | empty
deriving DecidableEq, Repr

def EnvelopeError.message (origin : String) : EnvelopeError → String
  | .undecodable e => "Failed to parse document from " ++ origin ++ ": " ++ e.message
  | .refused m => origin ++ " reported failure: " ++ m
  | .empty => origin ++ " returned no data"

def Envelope.result (e : Envelope α) : Except EnvelopeError α :=
  if e.success = some false then .error (.refused (e.errorMessage.getD ""))
  else match e.data with
    | some a => .ok a
    | none => .error .empty

def readEnvelope (read : Json → Decoded α) (text : String) : Except EnvelopeError α :=
  match decodeText ((envelopeRecord read).read ⟨none, none, none⟩) text with
  | .error e => .error (.undecodable e)
  | .ok e => e.result

end ApiTypings
