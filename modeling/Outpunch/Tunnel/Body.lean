import Outpunch.Client.Forward
import Outpunch.Node.Handler

/-!
# Tunnel — request bodies

The body of a public request becomes a string on its way to the client: `handle_tunnel` repairs
what is not UTF-8, the wire carries the text, and `forward_request` sends its UTF-8.  So the local
service gets the bytes that were received exactly when these were UTF-8 (`request_body_fidelity`).

The core only stores the limit for bodies, and leaves it to the adapters to enforce it; the axum
adapter does, and the Node adapter reads on (`body_limit_enforced`).
-/

namespace Outpunch

/-- What the request sends; one without body sends nothing. -/
def HttpRequest.payload (r : HttpRequest) : List UInt8 := r.body.getD []

/-- The client reads the request on the wire, and sends these bytes to the local service. -/
def SendsBody (serde : SerdeJson) (client : ClientConfig) (req : TunnelRequest)
    (body : List UInt8) : Prop :=
  ∃ received, parseMessage serde (serializeRequest serde req) = .ok (.request received) ∧
    (httpRequest client received).payload = body

/-! ### The bytes of a body -/

section

variable {serde : SerdeJson}

theorem bytes_eq_encode (s : String) : bytes s = Utf8.encode s.toList := by
  have h : (Utf8.encode s.toList).toByteArray = s.toByteArray :=
    (Utf8.toByteArray_encode _).trans String.utf8Encode_toList
  rw [bytes, ← h, List.data_toByteArray]

theorem bytes_fromUtf8Lossy (body : List UInt8) :
    bytes (fromUtf8Lossy body) = Utf8.encode (Utf8.decodeLossy body) := by
  rw [bytes_eq_encode, fromUtf8Lossy, String.toList_ofList]

/-- What the client sends of a request is its text. -/
theorem sendsBody_iff (hserde : serde.RoundTrips) {client : ClientConfig} {req : TunnelRequest}
    (htype : req.msgType = "request") {body : List UInt8} :
    SendsBody serde client req body ↔ (req.body.map bytes).getD [] = body := by
  have hwire := parseMessage_request hserde htype
  constructor
  · rintro ⟨received, hread, hbody⟩
    cases hwire.symm.trans hread
    exact hbody
  · exact fun hbody => ⟨req, hwire, hbody⟩

/-- **A request body arrives exactly when it is UTF-8**, however it is split: every body within the
limit is handed over, and the bytes the client sends to the local service are those received when
they are the UTF-8 of some text, and no others. -/
theorem request_body_fidelity (hserde : serde.RoundTrips) {config : ServerConfig}
    {req : AxumRequest} {l : List (List UInt8)} (hreq : req.body = chunks l)
    (hlen : l.flatten.length ≤ config.maxBodySize) (client : ClientConfig) (q : RequestId) :
    ∃ incoming, handleTunnel config req = .ok incoming ∧
      (SendsBody serde client (buildTunnelRequest q incoming) l.flatten ↔
        Utf8.Valid l.flatten) := by
  have hread : toBytes config.maxBodySize req.body = some l.flatten := by
    rw [hreq, toBytes_chunks, if_pos hlen]
  refine ⟨_, handleTunnel_eq_ok.mpr ⟨_, hread, rfl⟩, ?_⟩
  rw [sendsBody_iff hserde rfl, ← Utf8.encode_decodeLossy_iff]
  dsimp only [buildTunnelRequest]
  by_cases hempty : l.flatten = []
  · rw [hempty]
    exact iff_of_true rfl rfl
  · rw [if_neg (by rwa [List.isEmpty_iff]), Option.map_some, bytes_fromUtf8Lossy, Option.getD_some]

/-- A text posted in two pieces, cut inside a character. -/
theorem request_body_fidelity_split :
    ∃ incoming, handleTunnel {} ⟨"app", "", "POST", none, [], chunks [[0x68, 0xC3], [0xA9]]⟩ =
        .ok incoming ∧
      SendsBody compactJson {} (buildTunnelRequest "q" incoming) [0x68, 0xC3, 0xA9] := by
  obtain ⟨incoming, hin, hbody⟩ := @request_body_fidelity compactJson compactJson_roundTrips {}
    ⟨"app", "", "POST", none, [], chunks [[0x68, 0xC3], [0xA9]]⟩ _ rfl (by decide) {} "q"
  exact ⟨incoming, hin, hbody.mpr (by decide +kernel)⟩

/-- A byte that is no text is replaced. -/
theorem binary_body_repaired :
    ∃ incoming, handleTunnel {} ⟨"app", "", "POST", none, [], chunks [[0xFF]]⟩ = .ok incoming ∧
      ¬ SendsBody compactJson {} (buildTunnelRequest "q" incoming) [0xFF] := by
  refine ⟨_, rfl, ?_⟩
  rw [sendsBody_iff compactJson_roundTrips rfl]
  decide +kernel

end

/-! ### The limit -/

/-- A request at an adapter that takes a limit for bodies. -/
inductive AdapterRequest where
  | axum (config : ServerConfig) (req : AxumRequest)
  | node (options : AdapterOptions) (req : NodeRequest)

namespace AdapterRequest

/-- The limit the server was configured with. -/
def limit : AdapterRequest → Nat
  | .axum config _ => config.maxBodySize
  | .node options _ => options.serverConfig.maxBodySize

def body : AdapterRequest → List BodyFrame
  | .axum _ req => req.body
  | .node _ req => req.body

/-- The adapter takes the request for one to a service.  The axum adapter is called with no
other. -/
def IsTunnel : AdapterRequest → Prop
  | .axum _ _ => True
  | .node options req => ∃ service path,
      nodeRoute (options.tunnelPrefix.getD "/tunnel") req.url.pathname = some (service, path) ∧
        service ≠ ""

/-- The adapter answers with an error, and does not hand the request to the core. -/
def Rejects : AdapterRequest → Prop
  | .axum config req => ∃ reply, handleTunnel config req = .error reply ∧ 400 ≤ reply.status
  | .node options req => ∃ reply, nodeHandleRequest options req = .replied reply ∧
      400 ≤ reply.status

/-- The request is at the axum adapter. -/
def IsAxum : AdapterRequest → Prop
  | .axum _ _ => True
  | .node _ _ => False

end AdapterRequest

theorem handleTunnel_too_large {config : ServerConfig} {req : AxumRequest}
    {l : List (List UInt8)} (hbody : req.body = chunks l)
    (hlen : config.maxBodySize < l.flatten.length) :
    handleTunnel config req =
      .error { status := 400, headers := [], body := bytes "request body too large" } := by
  rw [handleTunnel, hbody, toBytes_chunks, if_neg (Nat.not_le.mpr hlen)]

/-- The Node adapter hands over whatever has an end. -/
theorem exists_handed_of_chunks {options : AdapterOptions} {req : NodeRequest}
    {l : List (List UInt8)} (hbody : req.body = chunks l) {service path : String}
    (hroute : nodeRoute (options.tunnelPrefix.getD "/tunnel") req.url.pathname =
      some (service, path)) (hservice : service ≠ "") :
    ∃ incoming, nodeHandleRequest options req = .handed incoming := by
  have hread : readToEnd req.body = some l.flatten := by rw [hbody, readToEnd_chunks]
  exact ⟨_, nodeHandleRequest_eq_handed.mpr ⟨_, _, _, hroute, hservice, hread, rfl⟩⟩

/-- **The limit for bodies is enforced by the axum adapter only**: of the requests whose body is
larger, however it is split, it rejects every one, and the Node adapter none. -/
theorem body_limit_enforced {r : AdapterRequest} (htunnel : r.IsTunnel) {l : List (List UInt8)}
    (hbody : r.body = chunks l) (hlen : r.limit < l.flatten.length) : r.Rejects ↔ r.IsAxum := by
  cases r with
  | axum config req =>
      exact iff_of_true ⟨_, handleTunnel_too_large hbody hlen, by decide⟩ trivial
  | node options req =>
      obtain ⟨service, path, hroute, hservice⟩ := htunnel
      refine iff_of_false ?_ id
      rintro ⟨reply, hreply, -⟩
      obtain ⟨incoming, hhanded⟩ := exists_handed_of_chunks hbody hroute hservice
      cases hhanded.symm.trans hreply

/-- Three bytes in two chunks, where two are allowed. -/
theorem body_limit_enforced_axum :
    (AdapterRequest.axum { maxBodySize := 2 }
      ⟨"app", "", "POST", none, [], chunks [[1, 2], [3]]⟩).Rejects :=
  (@body_limit_enforced (.axum { maxBodySize := 2 }
    ⟨"app", "", "POST", none, [], chunks [[1, 2], [3]]⟩) trivial _ rfl (by decide)).mpr trivial

/-- The Node adapter hands them over. -/
theorem body_limit_ignored :
    ¬ (AdapterRequest.node { maxBodySize := some 2 }
      ⟨⟨"/tunnel/app", []⟩, some "POST", [], chunks [[1, 2], [3]]⟩).Rejects := by
  rintro ⟨reply, hreply, -⟩
  have hroute : nodeRoute "/tunnel" "/tunnel/app" = some ("app", "") := by decide +kernel
  have hservice : "app" ≠ "" := by decide
  obtain ⟨incoming, hhanded⟩ := @exists_handed_of_chunks { maxBodySize := some 2 }
    ⟨⟨"/tunnel/app", []⟩, some "POST", [], chunks [[1, 2], [3]]⟩ _ rfl _ _ hroute hservice
  cases hhanded.symm.trans hreply

end Outpunch
