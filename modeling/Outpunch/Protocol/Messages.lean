import Outpunch.Protocol.Json

/-!
# Protocol — messages

`protocol.rs`: what an adapter passes to the core (`IncomingRequest`), the five messages of the
wire protocol with the derived `Serialize` (`toValue`) and `Deserialize` (`ofValue`) of each, and
`parseMessage`, which picks the message type by the `type` member.

A message whose `msgType` is the tag of its own type is read back as it was written
(`parseMessage_request` and its siblings), given that `serde_json` reads back what it writes.
-/

namespace Outpunch

open Json (field fieldOr asStr asU16 asStringMap asOptionString ofStringMap ofOptionString)

/-- What the adapter passes to the core. -/
structure IncomingRequest where
  service : String
  method : String
  path : String
  query : StringMap
  headers : StringMap
  body : Option String
  deriving DecidableEq

/-- A request on its way to the client. -/
structure TunnelRequest where
  msgType : String
  requestId : String
  service : String
  method : String
  path : String
  query : StringMap
  headers : StringMap
  body : Option String
  deriving DecidableEq

/-- A response on its way to the server. -/
structure TunnelResponse where
  msgType : String
  requestId : String
  status : UInt16
  headers : StringMap
  body : Option String
  bodyEncoding : Option String
  deriving DecidableEq

structure AuthMessage where
  msgType : String
  token : String
  service : String
  deriving DecidableEq

structure AuthOk where
  msgType : String
  deriving DecidableEq

structure AuthError where
  msgType : String
  message : String
  deriving DecidableEq

/-- A parsed message from the WebSocket. -/
inductive Message where
  | auth (m : AuthMessage)
  | authOk (m : AuthOk)
  | authError (m : AuthError)
  | request (m : TunnelRequest)
  | response (m : TunnelResponse)
  deriving DecidableEq

/-! ### `Serialize` and `Deserialize` -/

def AuthMessage.toValue (m : AuthMessage) : Json :=
  .object [("type", .str m.msgType), ("token", .str m.token), ("service", .str m.service)]

def AuthMessage.ofValue (v : Json) : Option AuthMessage := do
  return {
    msgType := ← field asStr v "type"
    token := ← field asStr v "token"
    service := ← field asStr v "service" }

def AuthOk.toValue (m : AuthOk) : Json := .object [("type", .str m.msgType)]

def AuthOk.ofValue (v : Json) : Option AuthOk := do
  return { msgType := ← field asStr v "type" }

def AuthError.toValue (m : AuthError) : Json :=
  .object [("type", .str m.msgType), ("message", .str m.message)]

def AuthError.ofValue (v : Json) : Option AuthError := do
  return {
    msgType := ← field asStr v "type"
    message := ← field asStr v "message" }

def TunnelRequest.toValue (m : TunnelRequest) : Json :=
  .object [("type", .str m.msgType), ("request_id", .str m.requestId),
    ("service", .str m.service), ("method", .str m.method), ("path", .str m.path),
    ("query", ofStringMap m.query), ("headers", ofStringMap m.headers),
    ("body", ofOptionString m.body)]

def TunnelRequest.ofValue (v : Json) : Option TunnelRequest := do
  return {
    msgType := ← field asStr v "type"
    requestId := ← field asStr v "request_id"
    service := ← field asStr v "service"
    method := ← field asStr v "method"
    path := ← field asStr v "path"
    query := ← fieldOr ∅ asStringMap v "query"
    headers := ← fieldOr ∅ asStringMap v "headers"
    body := ← fieldOr none asOptionString v "body" }

def TunnelResponse.toValue (m : TunnelResponse) : Json :=
  .object [("type", .str m.msgType), ("request_id", .str m.requestId),
    ("status", .int m.status.toNat), ("headers", ofStringMap m.headers),
    ("body", ofOptionString m.body), ("body_encoding", ofOptionString m.bodyEncoding)]

def TunnelResponse.ofValue (v : Json) : Option TunnelResponse := do
  return {
    msgType := ← field asStr v "type"
    requestId := ← field asStr v "request_id"
    status := ← field asU16 v "status"
    headers := ← fieldOr ∅ asStringMap v "headers"
    body := ← fieldOr none asOptionString v "body"
    bodyEncoding := ← fieldOr none asOptionString v "body_encoding" }

/-! ### The functions of `protocol.rs` -/

section Functions

variable (serde : SerdeJson)

/-- `serde_json::from_value` into the message type called `name`. -/
def fromValue {α : Type} (name : String) (read : Json → Option α) (value : Json) :
    Except String α :=
  match read value with
  | some m => .ok m
  | none => .error ("invalid " ++ name ++ " message: " ++ serde.fromValueError name value)

/-- The `match msg_type` of `parse_message`. -/
def parseTagged (value : Json) : String → Except String Message
  | "auth" => .auth <$> fromValue serde "auth" AuthMessage.ofValue value
  | "auth_ok" => .authOk <$> fromValue serde "auth_ok" AuthOk.ofValue value
  | "auth_error" => .authError <$> fromValue serde "auth_error" AuthError.ofValue value
  | "request" => .request <$> fromValue serde "request" TunnelRequest.ofValue value
  | "response" => .response <$> fromValue serde "response" TunnelResponse.ofValue value
  | other => .error ("unknown message type: " ++ other)

/-- `parse_message`. -/
def parseMessage (raw : String) : Except String Message :=
  match serde.fromStr raw with
  | .error e => .error ("invalid JSON: " ++ e)
  | .ok value =>
    match (value.get "type").bind asStr with
    | none => .error "missing 'type' field"
    | some msgType => parseTagged serde value msgType

/-- `serialize_request`. -/
def serializeRequest (req : TunnelRequest) : String := serde.toString req.toValue

/-- `serialize_response`. -/
def serializeResponse (resp : TunnelResponse) : String := serde.toString resp.toValue

/-- The `auth_ok` reply, as `handle_auth` writes it. -/
def authOkText : String := serde.toString (AuthOk.toValue { msgType := "auth_ok" })

/-- An `auth_error` reply, as `handle_auth` writes it. -/
def authErrorText (message : String) : String :=
  serde.toString (AuthError.toValue { msgType := "auth_error", message })

end Functions

/-- `build_tunnel_request`, with the request id it generates. -/
def buildTunnelRequest (requestId : String) (incoming : IncomingRequest) : TunnelRequest where
  msgType := "request"
  requestId := requestId
  service := incoming.service
  method := incoming.method
  path := incoming.path
  query := incoming.query
  headers := incoming.headers
  body := incoming.body

/-- `error_response`. -/
def errorResponse (requestId : String) (status : UInt16) (message : String) :
    TunnelResponse where
  msgType := "response"
  requestId := requestId
  status := status
  headers := .ofList [("Content-Type", "application/json")]
  body := some ("\x7b\"error\":\"" ++ message ++ "\"\x7d")
  bodyEncoding := none

/-! ### Reading back what was written -/

section Members

attribute [local simp] field fieldOr Json.get Json.lookupLast asStr

theorem AuthMessage.ofValue_toValue (m : AuthMessage) : ofValue m.toValue = some m := by
  simp [ofValue, toValue]

theorem AuthOk.ofValue_toValue (m : AuthOk) : ofValue m.toValue = some m := by
  simp [ofValue, toValue]

theorem AuthError.ofValue_toValue (m : AuthError) : ofValue m.toValue = some m := by
  simp [ofValue, toValue]

theorem TunnelRequest.ofValue_toValue (m : TunnelRequest) : ofValue m.toValue = some m := by
  simp [ofValue, toValue]

theorem TunnelResponse.ofValue_toValue (m : TunnelResponse) : ofValue m.toValue = some m := by
  simp [ofValue, toValue]

/-- The `type` member of a written message is its `msg_type`. -/
theorem AuthMessage.type_toValue (m : AuthMessage) :
    (m.toValue.get "type").bind asStr = some m.msgType := by
  simp [toValue]

theorem AuthOk.type_toValue (m : AuthOk) :
    (m.toValue.get "type").bind asStr = some m.msgType := by
  simp [toValue]

theorem AuthError.type_toValue (m : AuthError) :
    (m.toValue.get "type").bind asStr = some m.msgType := by
  simp [toValue]

theorem TunnelRequest.type_toValue (m : TunnelRequest) :
    (m.toValue.get "type").bind asStr = some m.msgType := by
  simp [toValue]

theorem TunnelResponse.type_toValue (m : TunnelResponse) :
    (m.toValue.get "type").bind asStr = some m.msgType := by
  simp [toValue]

theorem AuthMessage.plain_toValue (m : AuthMessage) : m.toValue.Plain := by
  refine .object (by simp) fun p hp => ?_
  simp only [List.mem_cons, List.not_mem_nil, or_false] at hp
  rcases hp with rfl | rfl | rfl <;> exact .str _

theorem AuthOk.plain_toValue (m : AuthOk) : m.toValue.Plain := by
  refine .object (by simp) fun p hp => ?_
  obtain rfl := List.mem_singleton.mp hp
  exact .str _

theorem AuthError.plain_toValue (m : AuthError) : m.toValue.Plain := by
  refine .object (by simp) fun p hp => ?_
  simp only [List.mem_cons, List.not_mem_nil, or_false] at hp
  rcases hp with rfl | rfl <;> exact .str _

theorem TunnelRequest.plain_toValue (m : TunnelRequest) : m.toValue.Plain := by
  refine .object (by simp) fun p hp => ?_
  simp only [List.mem_cons, List.not_mem_nil, or_false] at hp
  rcases hp with rfl | rfl | rfl | rfl | rfl | rfl | rfl | rfl
  iterate 5 exact .str _
  · exact .map _
  · exact .map _
  · exact Json.member_ofOptionString _

theorem TunnelResponse.plain_toValue (m : TunnelResponse) : m.toValue.Plain := by
  refine .object (by simp) fun p hp => ?_
  simp only [List.mem_cons, List.not_mem_nil, or_false] at hp
  rcases hp with rfl | rfl | rfl | rfl | rfl | rfl
  · exact .str _
  · exact .str _
  · exact .u16 _
  · exact .map _
  · exact Json.member_ofOptionString _
  · exact Json.member_ofOptionString _

end Members

section RoundTrip

variable {serde : SerdeJson}

theorem fromValue_of_read {α : Type} {name : String} {read : Json → Option α} {v : Json} {m : α}
    (h : read v = some m) : fromValue serde name read v = .ok m := by
  simp only [fromValue, h]

variable (hserde : serde.RoundTrips)
include hserde

/-- A text written from a value is parsed by the `type` member of the value. -/
theorem parseMessage_toString {v : Json} (hv : v.Plain) {tag : String}
    (htag : (v.get "type").bind asStr = some tag) :
    parseMessage serde (serde.toString v) = parseTagged serde v tag := by
  simp only [parseMessage, hserde v hv, htag]

theorem parseMessage_auth {m : AuthMessage} (h : m.msgType = "auth") :
    parseMessage serde (serde.toString m.toValue) = .ok (.auth m) := by
  rw [parseMessage_toString hserde m.plain_toValue (h ▸ m.type_toValue)]
  exact congrArg (Message.auth <$> ·) (fromValue_of_read m.ofValue_toValue)

theorem parseMessage_authOk {m : AuthOk} (h : m.msgType = "auth_ok") :
    parseMessage serde (serde.toString m.toValue) = .ok (.authOk m) := by
  rw [parseMessage_toString hserde m.plain_toValue (h ▸ m.type_toValue)]
  exact congrArg (Message.authOk <$> ·) (fromValue_of_read m.ofValue_toValue)

theorem parseMessage_authError {m : AuthError} (h : m.msgType = "auth_error") :
    parseMessage serde (serde.toString m.toValue) = .ok (.authError m) := by
  rw [parseMessage_toString hserde m.plain_toValue (h ▸ m.type_toValue)]
  exact congrArg (Message.authError <$> ·) (fromValue_of_read m.ofValue_toValue)

theorem parseMessage_request {m : TunnelRequest} (h : m.msgType = "request") :
    parseMessage serde (serializeRequest serde m) = .ok (.request m) := by
  rw [serializeRequest, parseMessage_toString hserde m.plain_toValue (h ▸ m.type_toValue)]
  exact congrArg (Message.request <$> ·) (fromValue_of_read m.ofValue_toValue)

theorem parseMessage_response {m : TunnelResponse} (h : m.msgType = "response") :
    parseMessage serde (serializeResponse serde m) = .ok (.response m) := by
  rw [serializeResponse, parseMessage_toString hserde m.plain_toValue (h ▸ m.type_toValue)]
  exact congrArg (Message.response <$> ·) (fromValue_of_read m.ofValue_toValue)

/-- The replies of `handle_auth` are read as what they are. -/
theorem parseMessage_authOkText :
    parseMessage serde (authOkText serde) = .ok (.authOk { msgType := "auth_ok" }) :=
  parseMessage_authOk hserde rfl

theorem parseMessage_authErrorText (message : String) :
    parseMessage serde (authErrorText serde message) =
      .ok (.authError { msgType := "auth_error", message }) :=
  parseMessage_authError hserde rfl

end RoundTrip

/-! ### `TunnelError` -/

/-- Why a tunnel request failed before the client produced a response. -/
inductive TunnelError where
  | notConnected
  | connectionLost
  | disconnected
  | timeout
  deriving DecidableEq

/-- `TunnelError::status`. -/
def TunnelError.status : TunnelError → UInt16
  | .timeout => 504
  | _ => 502

/-- `Display` of a `TunnelError`. -/
def TunnelError.text : TunnelError → String
  | .notConnected => "no client connected for service"
  | .connectionLost => "client connection lost"
  | .disconnected => "client disconnected"
  | .timeout => "tunnel timeout"

/-- What `handle_request` makes of the result of `dispatch`. -/
def handleRequestResult (requestId : String) :
    Except TunnelError TunnelResponse → TunnelResponse
  | .ok response => response
  | .error err => errorResponse requestId err.status err.text

end Outpunch
