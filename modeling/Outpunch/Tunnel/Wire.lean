import Outpunch.Client.Session

/-!
# Tunnel — the wire format

A message is written with its own type as a member, and read by that member.  So a message has to
carry the tag of its variant to be read back (`Message.tag`); every message the program writes
does (`Produced`), and so does every message it reads (`tagged_of_parse`).  Reading is a left
inverse of writing on these messages, and what was read once is read again from its own
serialisation.
-/

namespace Outpunch

open Json (field fieldOr asStr)

namespace Message

/-- The tag `parse_message` knows the variant by. -/
def tag : Message → String
  | .auth _ => "auth"
  | .authOk _ => "auth_ok"
  | .authError _ => "auth_error"
  | .request _ => "request"
  | .response _ => "response"

def msgType : Message → String
  | .auth m => m.msgType
  | .authOk m => m.msgType
  | .authError m => m.msgType
  | .request m => m.msgType
  | .response m => m.msgType

def toValue : Message → Json
  | .auth m => m.toValue
  | .authOk m => m.toValue
  | .authError m => m.toValue
  | .request m => m.toValue
  | .response m => m.toValue

def serialize (serde : SerdeJson) (m : Message) : String := serde.toString m.toValue

end Message

/-- The texts the program writes, and the messages they are of. -/
inductive Produced (serde : SerdeJson) (encode : List UInt8 → String) :
    String → Message → Prop where
  /-- `dispatch` sends what `build_tunnel_request` makes. -/
  | request (q : String) (incoming : IncomingRequest) :
      Produced serde encode (serializeRequest serde (buildTunnelRequest q incoming))
        (.request (buildTunnelRequest q incoming))
  /-- The client sends what `forward_request` makes. -/
  | forwarded (req : TunnelRequest) (result : HttpResult) :
      Produced serde encode (serializeResponse serde (forwardResponse encode req result))
        (.response (forwardResponse encode req result))
  | error (q : String) (status : UInt16) (text : String) :
      Produced serde encode (serializeResponse serde (errorResponse q status text))
        (.response (errorResponse q status text))
  /-- `handle_auth` replies. -/
  | authOk : Produced serde encode (authOkText serde) (.authOk { msgType := "auth_ok" })
  | authError (text : String) : Produced serde encode (authErrorText serde text)
      (.authError { msgType := "auth_error", message := text })
  /-- `authenticate` asks. -/
  | auth (config : ClientConfig) : Produced serde encode (Session.authText serde config)
      (.auth { msgType := "auth", token := config.secret, service := config.service })

variable {serde : SerdeJson} {encode : List UInt8 → String}

/-- What the program writes is the serialisation of a message with the tag of its variant. -/
theorem Produced.tagged {text : String} {m : Message} (h : Produced serde encode text m) :
    text = m.serialize serde ∧ m.msgType = m.tag := by
  cases h with
  | forwarded req result => exact ⟨rfl, (forwardResponse_spec encode req result).1⟩
  | _ => exact ⟨rfl, rfl⟩

/-! ### From the message to the text and back -/

theorem parseMessage_serialize (hserde : serde.RoundTrips) {m : Message} (h : m.msgType = m.tag) :
    parseMessage serde (m.serialize serde) = .ok m := by
  cases m with
  | auth m => exact parseMessage_auth hserde h
  | authOk m => exact parseMessage_authOk hserde h
  | authError m => exact parseMessage_authError hserde h
  | request m => exact parseMessage_request hserde h
  | response m => exact parseMessage_response hserde h

/-! ### From the text to the message and back -/

/-- The fields of a message are read one after the other, the `type` member first. -/
theorem type_of_bind {α : Type} {v : Json} {f : String → Option α} {m : α}
    (h : (field asStr v "type").bind f = some m) :
    ∃ t, (v.get "type").bind asStr = some t ∧ f t = some m := Option.bind_eq_some_iff.mp h

theorem AuthMessage.type_of_ofValue {v : Json} {m : AuthMessage} (h : ofValue v = some m) :
    (v.get "type").bind asStr = some m.msgType := by
  obtain ⟨t, ht, h⟩ := type_of_bind h
  obtain ⟨token, -, h⟩ := Option.bind_eq_some_iff.mp h
  obtain ⟨service, -, h⟩ := Option.bind_eq_some_iff.mp h
  cases h
  exact ht

theorem AuthOk.type_of_ofValue {v : Json} {m : AuthOk} (h : ofValue v = some m) :
    (v.get "type").bind asStr = some m.msgType := by
  obtain ⟨t, ht, h⟩ := type_of_bind h
  cases h
  exact ht

theorem AuthError.type_of_ofValue {v : Json} {m : AuthError} (h : ofValue v = some m) :
    (v.get "type").bind asStr = some m.msgType := by
  obtain ⟨t, ht, h⟩ := type_of_bind h
  obtain ⟨message, -, h⟩ := Option.bind_eq_some_iff.mp h
  cases h
  exact ht

theorem TunnelRequest.type_of_ofValue {v : Json} {m : TunnelRequest} (h : ofValue v = some m) :
    (v.get "type").bind asStr = some m.msgType := by
  obtain ⟨t, ht, h⟩ := type_of_bind h
  obtain ⟨requestId, -, h⟩ := Option.bind_eq_some_iff.mp h
  obtain ⟨service, -, h⟩ := Option.bind_eq_some_iff.mp h
  obtain ⟨method, -, h⟩ := Option.bind_eq_some_iff.mp h
  obtain ⟨path, -, h⟩ := Option.bind_eq_some_iff.mp h
  obtain ⟨query, -, h⟩ := Option.bind_eq_some_iff.mp h
  obtain ⟨headers, -, h⟩ := Option.bind_eq_some_iff.mp h
  obtain ⟨body, -, h⟩ := Option.bind_eq_some_iff.mp h
  cases h
  exact ht

theorem TunnelResponse.type_of_ofValue {v : Json} {m : TunnelResponse} (h : ofValue v = some m) :
    (v.get "type").bind asStr = some m.msgType := by
  obtain ⟨t, ht, h⟩ := type_of_bind h
  obtain ⟨requestId, -, h⟩ := Option.bind_eq_some_iff.mp h
  obtain ⟨status, -, h⟩ := Option.bind_eq_some_iff.mp h
  obtain ⟨headers, -, h⟩ := Option.bind_eq_some_iff.mp h
  obtain ⟨body, -, h⟩ := Option.bind_eq_some_iff.mp h
  obtain ⟨bodyEncoding, -, h⟩ := Option.bind_eq_some_iff.mp h
  cases h
  exact ht

/-- A message type that is read was read from the value. -/
theorem fromValue_eq_ok {α β : Type} {name : String} {read : Json → Option α} {v : Json}
    {f : α → β} {b : β} (h : f <$> fromValue serde name read v = .ok b) :
    ∃ a, read v = some a ∧ f a = b := by
  unfold fromValue at h
  cases hr : read v with
  | none => rw [hr] at h; cases h
  | some a => rw [hr] at h; cases h; exact ⟨a, rfl, rfl⟩

/-- What is read as a variant has its tag, and the type the value says. -/
theorem parseTagged_eq_ok {v : Json} {t : String} {m : Message}
    (h : parseTagged serde v t = .ok m) :
    m.tag = t ∧ (v.get "type").bind asStr = some m.msgType := by
  unfold parseTagged at h
  split at h
  · obtain ⟨a, ha, rfl⟩ := fromValue_eq_ok h
    exact ⟨rfl, AuthMessage.type_of_ofValue ha⟩
  · obtain ⟨a, ha, rfl⟩ := fromValue_eq_ok h
    exact ⟨rfl, AuthOk.type_of_ofValue ha⟩
  · obtain ⟨a, ha, rfl⟩ := fromValue_eq_ok h
    exact ⟨rfl, AuthError.type_of_ofValue ha⟩
  · obtain ⟨a, ha, rfl⟩ := fromValue_eq_ok h
    exact ⟨rfl, TunnelRequest.type_of_ofValue ha⟩
  · obtain ⟨a, ha, rfl⟩ := fromValue_eq_ok h
    exact ⟨rfl, TunnelResponse.type_of_ofValue ha⟩
  · cases h

/-- **What is read has the tag of its variant.** -/
theorem tagged_of_parse {raw : String} {m : Message} (h : parseMessage serde raw = .ok m) :
    m.msgType = m.tag := by
  unfold parseMessage at h
  split at h
  · cases h
  · rename_i v hv
    split at h
    · cases h
    · rename_i t ht
      obtain ⟨htag, htype⟩ := parseTagged_eq_ok h
      exact Option.some.inj (htype.symm.trans (ht.trans (congrArg some htag.symm)))

/-- **Wire format round trip.**  A message with the tag of its variant is read back from its
serialisation, and so is every message the program writes from the text it writes.  Whatever is
read has the tag of its variant, and is read again from its own serialisation. -/
theorem wire_round_trip (encode : List UInt8 → String) (hserde : serde.RoundTrips) :
    (∀ m : Message, m.msgType = m.tag → parseMessage serde (m.serialize serde) = .ok m) ∧
    (∀ text m, Produced serde encode text m → parseMessage serde text = .ok m) ∧
    (∀ raw m, parseMessage serde raw = .ok m →
      m.msgType = m.tag ∧ parseMessage serde (m.serialize serde) = .ok m) := by
  refine ⟨fun m => parseMessage_serialize hserde, fun text m h => ?_, fun raw m h => ?_⟩
  · obtain ⟨rfl, htag⟩ := h.tagged
    exact parseMessage_serialize hserde htag
  · have htag := tagged_of_parse h
    exact ⟨htag, parseMessage_serialize hserde htag⟩

/-- A response that leaves its optional members out is read with their defaults. -/
theorem wire_round_trip_defaults :
    parseMessage compactJson
        "\x7b\"type\":\"response\",\"request_id\":\"q\",\"status\":204,\"body\":null\x7d" =
      .ok (.response
        { msgType := "response", requestId := "q", status := 204, headers := ∅, body := none,
          bodyEncoding := none }) ∧
    parseMessage compactJson ((Message.response
        { msgType := "response", requestId := "q", status := 204, headers := ∅, body := none,
          bodyEncoding := none }).serialize compactJson) =
      .ok (.response
        { msgType := "response", requestId := "q", status := 204, headers := ∅, body := none,
          bodyEncoding := none }) := by
  have h : parseMessage compactJson
      "\x7b\"type\":\"response\",\"request_id\":\"q\",\"status\":204,\"body\":null\x7d" =
      .ok (.response
        { msgType := "response", requestId := "q", status := 204, headers := ∅, body := none,
          bodyEncoding := none }) := by decide +kernel
  exact ⟨h, ((wire_round_trip (fun _ => "") compactJson_roundTrips).2.2 _ _ h).2⟩

end Outpunch
