import ApiTypings.Proofs.Decode.Members
import ApiTypings.Proofs.Source.Snapshot

/-! # Outcomes of an envelope

The payload of an envelope is read before its verdict is looked at. So a reported failure is
reported with its message exactly if the payload beside it can be read or is none; otherwise the
error is that of the payload.
-/

namespace ApiTypings

variable {α : Type}

namespace Envelope

variable {read : Json → Decoded α} {origin text message : String} {j v : Json} {e : Envelope α}
  {a : α} {members : List (String × Json)}

theorem successPart : (envelopeRecord read).Part "success" (Json.orNull Json.asFlag)
    (fun a e => { e with success := a }) success :=
  Record.part_of_component rfl (fun _ _ => rfl) (by simp [envelopeRecord])
    fun _ _ _ => ⟨rfl, rfl, rfl⟩

theorem dataPart : (envelopeRecord read).Part "data" (Json.orNull read)
    (fun a e => { e with data := a }) data :=
  Record.part_of_component rfl (fun _ _ => rfl) (by simp [envelopeRecord])
    fun _ _ _ => ⟨rfl, rfl, rfl⟩

theorem errorMessagePart : (envelopeRecord read).Part "errorMessage" (Json.orNull Json.asText)
    (fun a e => { e with errorMessage := a }) errorMessage :=
  Record.part_of_component rfl (fun _ _ => rfl) (by simp [envelopeRecord])
    fun _ _ _ => ⟨rfl, rfl, rfl⟩

theorem envelopeRecord_nodup : ((envelopeRecord read).fields.map Field.name).Nodup := by
  change ["success", "data", "errorMessage"].Nodup
  decide

/-! ## Success -/

theorem success_eq_some_iff (h : (envelopeRecord read).read ⟨none, none, none⟩ j = .ok e)
    {b : Bool} :
    e.success = some b ↔ (envelopeRecord read).member? "success" j = some (.bool b) := by
  rw [(successPart.read envelopeRecord_nodup h).eq_some_iff]
  constructor
  · rintro ⟨v, hv, -, hb⟩
    cases v with
    | bool c => rw [hv, Except.ok.inj hb]
    | _ => cases hb
  · exact fun hv => ⟨_, hv, Json.noConfusion, rfl⟩

theorem result_eq_ok_iff : e.result = .ok a ↔ e.success ≠ some false ∧ e.data = some a := by
  unfold result
  split_ifs with hs
  · simp [hs]
  · cases hd : e.data <;> simp [hs]

theorem readEnvelope_of_read (hj : Json.parse text = some j)
    (he : (envelopeRecord read).read ⟨none, none, none⟩ j = .ok e) :
    readEnvelope read text = e.result := by
  simp [readEnvelope, decodeText, hj, he]

theorem readEnvelope_of_error (hj : Json.parse text = some j) {e : DecodeError}
    (he : (envelopeRecord read).read ⟨none, none, none⟩ j = .error e) :
    readEnvelope read text = .error (.undecodable e) := by
  simp [readEnvelope, decodeText, hj, he]

theorem readEnvelope_eq_ok_iff : readEnvelope read text = .ok a ↔
    ∃ j, Json.parse text = some j ∧
      (∃ e, (envelopeRecord read).read ⟨none, none, none⟩ j = .ok e) ∧
      (envelopeRecord read).member? "success" j ≠ some (.bool false) ∧
      ∃ v, (envelopeRecord read).member? "data" j = some v ∧ v ≠ .null ∧ read v = .ok a := by
  unfold readEnvelope decodeText
  cases hj : Json.parse text with
  | none => simp
  | some j =>
    cases he : (envelopeRecord read).read ⟨none, none, none⟩ j with
    | error e => simp [he]
    | ok e =>
      have hs := success_eq_some_iff he (b := false)
      have hd := (dataPart.read envelopeRecord_nodup he).eq_some_iff (a := a)
      simp [he, result_eq_ok_iff, hs, hd]

/-! ## Failure -/

/-- What is said by the message of a failure: nothing if it is left out or `null`. -/
inductive Says : Option Json → String → Prop where
  | absent : Says none ""
  | null : Says (some .null) ""
  | text (message : String) : Says (some (.string message)) message

theorem Says.exists_asText (h : Says (some v) message) : ∃ o, v.orNull Json.asText = .ok o := by
  cases h with
  | null => exact ⟨none, rfl⟩
  | text => exact ⟨some message, rfl⟩

theorem Says.getD_eq {written : Option Json} {after : Option String} (h : Says written message)
    (hh : Record.Holds (Json.orNull Json.asText) written none after) :
    after.getD "" = message := by
  cases h with
  | absent =>
    obtain rfl : after = none := hh
    rfl
  | null =>
    obtain rfl := Except.ok.inj hh
    rfl
  | text =>
    obtain rfl := Except.ok.inj hh
    rfl

/-- A reported failure: an object with the verdict `false` and a message, none of them twice. -/
structure Refuses (members : List (String × Json)) (message : String) : Prop where
  nodup : ((members.map Prod.fst).filter (· ∈ ["success", "data", "errorMessage"])).Nodup
  success : members.lookup "success" = some (.bool false)
  message : Says (members.lookup "errorMessage") message

namespace Refuses

theorem nodup_fieldKeys (h : Refuses members message) :
    ((envelopeRecord read).fieldKeys members).Nodup := by
  rw [Record.fieldKeys_eq_filter]
  exact h.nodup

/-- Beside the payload everything in a reported failure can be read. -/
theorem exists_read (h : Refuses members message) {m : String × Json} (hm : m ∈ members)
    (hd : m.1 = "data" → ∃ o, m.2.orNull read = .ok o) {f : Field Json (Envelope α)}
    (hf : (envelopeRecord read).field? m.1 = some f) (e : Envelope α) :
    ∃ e', f.read m.2 e = .ok e' := by
  obtain ⟨key, v⟩ := m
  have hv : members.lookup key = some v := Record.lookup_of_nodup h.nodup_fieldKeys hf hm
  have hk : key ∈ ["success", "data", "errorMessage"] := by
    obtain ⟨hmem, rfl⟩ := Record.field?_eq_some hf
    exact List.mem_map_of_mem (f := Field.name) hmem
  simp only [List.mem_cons, List.not_mem_nil, or_false] at hk
  rcases hk with rfl | rfl | rfl
  · obtain rfl := Option.some.inj (h.success.symm.trans hv)
    exact ⟨_, successPart.read_field hf (v := .bool false) rfl e⟩
  · obtain ⟨o, ho⟩ := hd rfl
    exact ⟨_, dataPart.read_field hf ho e⟩
  · obtain ⟨o, ho⟩ := (hv ▸ h.message).exists_asText
    exact ⟨_, errorMessagePart.read_field hf ho e⟩

theorem readEnvelope_eq (h : Refuses members message)
    (hj : Json.parse text = some (.object members))
    (hd : ∀ v, members.lookup "data" = some v → ∃ o, v.orNull read = .ok o) :
    readEnvelope read text = .error (.refused message) := by
  obtain ⟨e, he⟩ : ∃ e,
      (envelopeRecord read).readMembers [] ⟨none, none, none⟩ members = .ok e := by
    refine Record.exists_readMembers h.nodup_fieldKeys (by simp) fun m hm f hf => ?_
    refine h.exists_read hm (fun hk => hd m.2 ?_) hf
    exact hk ▸ Record.lookup_of_nodup h.nodup_fieldKeys hf hm
  have hs : e.success = some false := (success_eq_some_iff (j := .object members) he).mpr h.success
  have hm := h.message.getD_eq (errorMessagePart.readMembers List.not_mem_nil he)
  rw [readEnvelope_of_read hj he, result, if_pos hs, hm]

theorem readEnvelope_eq_undecodable (h : Refuses members message)
    (hj : Json.parse text = some (.object members)) (hd : members.lookup "data" = some v)
    {e : DecodeError} (he : v.orNull read = .error e) :
    readEnvelope read text = .error (.undecodable e) := by
  obtain ⟨before, after, rfl, hk⟩ := List.lookup_eq_some_iff.mp hd
  have hk : "data" ∉ before.map Prod.fst := by
    intro hm
    obtain ⟨m, hm, hk'⟩ := List.mem_map.mp hm
    simpa [hk'] using hk m hm
  have hnodup : ((envelopeRecord read).fieldKeys (before ++ ("data", v) :: after)).Nodup :=
    h.nodup_fieldKeys
  obtain ⟨x, hx⟩ : ∃ x, (envelopeRecord read).readMembers [] ⟨none, none, none⟩ before = .ok x := by
    refine Record.exists_readMembers ?_ (by simp) fun m hm f hf => ?_
    · exact hnodup.sublist (((List.sublist_append_left before _).map Prod.fst).filter _)
    · refine h.exists_read (List.mem_append_left _ hm) (fun he => ?_) hf
      exact absurd (he ▸ List.mem_map_of_mem hm) hk
  have hread : (envelopeRecord read).readMembers [] ⟨none, none, none⟩
      (before ++ ("data", v) :: after) = .error e := by
    refine Record.readMembers_error rfl (fun y => ?_) List.not_mem_nil hk hx
    change (v.orNull read >>= _) = _
    rw [he]
    rfl
  exact readEnvelope_of_error hj hread

end Refuses

end Envelope

open Envelope

theorem openEnvelope_eq_error {read : Json → Decoded α} {origin text : String} {f : Failure}
    (h : openEnvelope read origin text = .error f) : ∃ e, f = .transport (.envelope origin e) := by
  unfold openEnvelope at h
  split at h
  · cases h
  · exact ⟨_, (Except.error.inj h).symm⟩

/-- The payload of an envelope is to be had exactly if the envelope can be read, reports no failure
and has a payload other than `null`; any other outcome is an error of transport. A reported failure
is reported with its message exactly if there is no payload beside it that cannot be read. If there
is one, its error is reported. -/
theorem openEnvelope_outcome (read : Json → Decoded α) (origin text : String) :
    (∀ a, openEnvelope read origin text = .ok a ↔ ∃ j, Json.parse text = some j ∧
      (∃ e, (envelopeRecord read).read ⟨none, none, none⟩ j = .ok e) ∧
      (envelopeRecord read).member? "success" j ≠ some (.bool false) ∧
      ∃ v, (envelopeRecord read).member? "data" j = some v ∧ v ≠ .null ∧ read v = .ok a) ∧
    (∀ f, openEnvelope read origin text = .error f → ∃ e, f = .transport (.envelope origin e)) ∧
    ∀ members message, Json.parse text = some (.object members) → Refuses members message →
      (TransportError.envelope origin (.refused message)).message =
        origin ++ " reported failure: " ++ message ∧
      (openEnvelope read origin text = .error (.transport (.envelope origin (.refused message))) ↔
        ∀ v, members.lookup "data" = some v → v = .null ∨ ∃ a, read v = .ok a) ∧
      ∀ v e, members.lookup "data" = some v → v ≠ .null → read v = .error e →
        openEnvelope read origin text =
          .error (.transport (.envelope origin (.undecodable e))) := by
  refine ⟨fun a => Snapshot.openEnvelope_eq_ok_iff.trans readEnvelope_eq_ok_iff,
    fun f => openEnvelope_eq_error, fun members message hj h => ⟨rfl, ?_⟩⟩
  have hbad : ∀ v e, members.lookup "data" = some v → v ≠ .null → read v = .error e →
      openEnvelope read origin text = .error (.transport (.envelope origin (.undecodable e))) := by
    intro v e hd hv he
    have ho : v.orNull read = .error e := by
      cases v with
      | null => exact absurd rfl hv
      | _ => exact congrArg (some <$> ·) he
    rw [openEnvelope, h.readEnvelope_eq_undecodable hj hd ho]
  refine ⟨⟨fun ho v hd => ?_, fun hd => ?_⟩, hbad⟩
  · by_contra hn
    rw [not_or, not_exists] at hn
    cases hr : read v with
    | ok a => exact hn.2 a hr
    | error e => cases ho.symm.trans (hbad v e hd hn.1 hr)
  · rw [openEnvelope, h.readEnvelope_eq hj fun v hv => ?_]
    rcases hd v hv with rfl | ⟨a, ha⟩
    · exact ⟨none, rfl⟩
    · cases v with
      | null => exact ⟨none, rfl⟩
      | _ => exact ⟨some a, congrArg (some <$> ·) ha⟩

def failureText : String :=
  "\x7b\"success\": false, \"data\": [], \"errorMessage\": \"gone\"\x7d"

def failureTextOfObject : String :=
  "\x7b\"success\": false, \"data\": \x7b\x7d, \"errorMessage\": \"gone\"\x7d"

def failureMembers (data : Json) : List (String × Json) :=
  [("success", .bool false), ("data", data), ("errorMessage", .string "gone")]

theorem parse_failureText :
    Json.parse failureText = some (.object (failureMembers (.array []))) := by
  cbv

theorem parse_failureTextOfObject :
    Json.parse failureTextOfObject = some (.object (failureMembers (.object []))) := by
  cbv

theorem refuses_failureMembers (data : Json) : Refuses (failureMembers data) "gone" where
  nodup := by
    change ["success", "data", "errorMessage"].Nodup
    decide
  success := rfl
  message := .text "gone"

theorem openEnvelope_failure :
    openEnvelope decodeSchemas "x" failureText =
        .error (.transport (.envelope "x" (.refused "gone"))) ∧
      openEnvelope decodeSchemas "x" failureTextOfObject =
        .error (.transport (.envelope "x" (.undecodable (.wrongType "map" .sequence)))) := by
  constructor
  · obtain ⟨-, -, h⟩ := openEnvelope_outcome decodeSchemas "x" failureText
    refine (h _ _ parse_failureText (refuses_failureMembers _)).2.1.mpr fun v hv => .inr ⟨[], ?_⟩
    obtain rfl := Option.some.inj hv
    rfl
  · obtain ⟨-, -, h⟩ := openEnvelope_outcome decodeSchemas "x" failureTextOfObject
    exact (h _ _ parse_failureTextOfObject (refuses_failureMembers _)).2.2 _ _ rfl
      Json.noConfusion rfl

/-- A failure beside data of the wrong shape is not reported. -/
theorem exists_failure_not_reported : ∃ data,
    Json.parse failureTextOfObject = some (.object (failureMembers data)) ∧
    Refuses (failureMembers data) "gone" ∧
    openEnvelope decodeSchemas "x" failureTextOfObject ≠
      .error (.transport (.envelope "x" (.refused "gone"))) := by
  refine ⟨.object [], parse_failureTextOfObject, refuses_failureMembers _, fun h => ?_⟩
  have hr : readEnvelope decodeSchemas failureTextOfObject =
      .error (.undecodable (.wrongType "map" .sequence)) :=
    (refuses_failureMembers _).readEnvelope_eq_undecodable parse_failureTextOfObject rfl rfl
  rw [openEnvelope, hr] at h
  cases h

end ApiTypings
