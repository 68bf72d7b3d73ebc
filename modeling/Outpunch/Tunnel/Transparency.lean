import Outpunch.Axum.Rendering
import Outpunch.Tunnel.Body
import Outpunch.Tunnel.Headers
import Outpunch.Tunnel.Trust

/-!
# Tunnel — a request and its reply, end to end

What the caller of the public route gets is an error of the tunnel, or what `forward_request` of one
client made of the answer to the request, which it sent once; that client has the secret
(`tunnel_relays`).  Of what passes, a header map keeps one value for a name, and a text keeps a body
that is text.  Where the caller's request and the answer have no more to lose (`Carriable`), the
one is sent and the other rendered as it is.
-/

namespace Outpunch

variable {serde : SerdeJson} {encode : List UInt8 → String} {config : ServerConfig}
  {tr : List TunnelEvent} {t : Tunnel} {c : ConnId} {q : RequestId}

/-! ### The request -/

/-- A request with these lines and this body that the tunnel can carry: no name is repeated among
the lines it forwards, and the body is text. -/
structure AxumRequest.Carriable (req : AxumRequest) (hs : HeaderLines) (l : List (List UInt8)) :
    Prop where
  method : isToken req.method
  headers : req.headers = hs.headerMap
  distinct : ((forwardable hs).pairs.map Prod.fst).Nodup
  body : req.body = chunks l
  text : Utf8.Valid l.flatten

/-- The request to the local service is the caller's, at the URL of the path and the query that was
parsed; the headers of the connection are left out. -/
structure HttpRequest.Conveys (http : HttpRequest) (client : ClientConfig) (req : AxumRequest)
    (hs : HeaderLines) (l : List (List UInt8)) : Prop where
  method : http.method = req.method
  url : http.url = forwardUrl client.forwardTo req.path (parseQuery req.rawQuery).toList
  accepted : http.accepted
  headers : http.headers.Perm (forwardable hs).pairs
  body : http.payload = l.flatten

theorem conveys_httpRequest {req : AxumRequest} {incoming : IncomingRequest}
    (hin : handleTunnel config req = .ok incoming) (client : ClientConfig) (q : RequestId)
    {hs : HeaderLines} {l : List (List UInt8)} (h : req.Carriable hs l) :
    (httpRequest client (buildTunnelRequest q incoming)).Conveys client req hs l := by
  obtain ⟨body, hread, rfl⟩ := handleTunnel_eq_ok.mp hin
  have hheaders : extractHeaders req.headers = .ofList (forwardable hs).pairs := by
    rw [h.headers, extractHeaders_eq]
  refine ⟨if_pos h.method, rfl,
    List.all_eq_true.mpr fun p hp => (isHeader_of_collected hheaders hp).1, ?_, ?_⟩
  · change (extractHeaders req.headers).toList.Perm _
    rw [hheaders]
    exact Collect.toList_ofList_perm_iff.mpr h.distinct
  · have hflat : l.flatten = body := by
      rw [h.body, toBytes_chunks] at hread
      exact Option.some.inj (Option.ite_none_right_eq_some.mp hread).2
    have htext := h.text
    rw [hflat] at htext ⊢
    change ((if body.isEmpty then none else some (fromUtf8Lossy body)).map bytes).getD [] = body
    by_cases hempty : body = []
    · rw [hempty]; rfl
    · rw [if_neg (by rwa [List.isEmpty_iff]), Option.map_some, bytes_fromUtf8Lossy,
        Option.getD_some]
      exact (Utf8.encode_decodeLossy_iff _).mpr htext

/-! ### The response -/

/-- The reply in place of a response. -/
def errorReply (status : UInt16) (message : String) : HttpReply where
  status := status
  headers := [("content-type", "application/json")]
  body := bytes ("\x7b\"error\":\"" ++ message ++ "\"\x7d")

/-- An answer with these lines and this body that the tunnel can carry: its status is one of HTTP,
no name is repeated among its lines, or longer than a header name can be, and its body was read to
the end. -/
structure HttpResponse.Carriable (response : HttpResponse) (rs : HeaderLines) (body : List UInt8) :
    Prop where
  least : 100 ≤ response.status
  greatest : response.status < 1000
  headers : response.headers = rs.headerMap
  distinct : (rs.pairs.map Prod.fst).Nodup
  lengths : ∀ p ∈ rs.pairs, p.1.length ≤ 65535
  body : response.body = some body

/-- The reply is the answer. -/
structure HttpReply.Conveys (reply : HttpReply) (response : HttpResponse) (rs : HeaderLines)
    (body : List UInt8) : Prop where
  status : reply.status = response.status
  headers : reply.headers.Perm rs.pairs
  body : reply.body = body

/-- The error responses are rendered. -/
theorem buildResponse_errorResponse {room : HeaderRoom} (hroom : ∀ h, room [] h)
    (decode : String → Option (List UInt8)) (q : RequestId) {status : UInt16}
    (hs : parseStatus status = status) (message : String) {order : List (String × String)}
    (horder : order.Perm (errorResponse q status message).headers.toList) :
    buildResponse room decode (errorResponse q status message) order =
      errorReply status message := by
  have hmap : (errorResponse q status message).headers.toList =
      [("Content-Type", "application/json")] := by
    change (Std.ExtTreeMap.ofList _ compare).toList = _
    decide +kernel
  have hname : lowerName "Content-Type" = "content-type" := by decide +kernel
  have hline : isHeaderLine ("Content-Type", "application/json") := by decide +kernel
  rw [hmap] at horder
  obtain rfl := List.perm_singleton.mp horder
  rw [buildResponse_eq, if_pos (by simp [HeaderRoom.takes, hline, hroom])]
  simp only [List.map_cons, List.map_nil, hname, errorReply]
  rw [HttpReply.mk.injEq]
  exact ⟨hs, rfl, rfl⟩

/-- What can be carried of an answer is rendered as it is, where its lines find room. -/
theorem conveys_buildResponse {decode : String → Option (List UInt8)}
    (hcodec : ∀ body, decode (encode body) = some body) (req : TunnelRequest)
    {response : HttpResponse} {rs : HeaderLines} {body : List UInt8}
    (h : response.Carriable rs body) {room : HeaderRoom} {order : List (String × String)}
    (horder : order.Perm (forwardResponse encode req (.ok response)).headers.toList)
    (hroom : room.takes [] order) :
    (buildResponse room decode (forwardResponse encode req (.ok response)) order).Conveys
      response rs body := by
  obtain ⟨status, headers, sent⟩ := response
  obtain ⟨hleast, hgreatest, rfl, hdistinct, hlengths, rfl⟩ := h
  have hheaders := headers_forwardResponse encode req status (some body) rs
  have hperm : order.Perm rs.pairs :=
    horder.trans (hheaders ▸ Collect.toList_ofList_perm_iff.mpr hdistinct)
  have hall : order.all isHeaderLine = true := List.all_eq_true.mpr fun p hp =>
    (Bool.and_eq_true _ _).mpr ⟨HeaderLines.isHeader_of_mem (hperm.subset hp),
      decide_eq_true (hlengths p (hperm.subset hp))⟩
  have hlower : order.map (fun h => (lowerName h.1, h.2)) = order := by
    calc order.map (fun h => (lowerName h.1, h.2))
        = order.map id := List.map_congr_left fun p hp =>
          Prod.ext (HeaderLines.lowerName_of_mem (hperm.subset hp)) rfl
      _ = order := List.map_id _
  rw [buildResponse_eq, if_pos (by rw [hall, hroom]; rfl)]
  refine ⟨if_pos (by simpa using ⟨hleast, hgreatest⟩), ?_, ?_⟩
  · rw [hlower]
    exact hperm
  · change (decode (encode body)).getD _ = _
    rw [hcodec, Option.getD_some]

/-! ### A run -/

/-- The request `q` was sent once, by `client`, whose HTTP client got `answer`. -/
structure Served (serde : SerdeJson) (config : ServerConfig) (tr : List TunnelEvent)
    (q : RequestId) (incoming : IncomingRequest) (client : ClientConfig) (answer : HttpResult) :
    Prop where
  requested : .request q incoming ∈ coreEvents tr
  once : ((starts serde tr).map fun p => p.2.requestId).count q = 1
  session : ∃ c, .accept c (some client) ∈ tr ∧
    .client c (.forwarded (buildTunnelRequest q incoming) answer) ∈ tr
  secret : client.secret = config.secret
  service : client.service = incoming.service

section

variable (hserde : serde.RoundTrips)
include hserde

/-- What a dispatch returns was served. -/
theorem served_of_returned (hclients : ∀ c, .accept c none ∉ tr)
    (h : TunnelRun serde encode config tr t) {r : TunnelResponse}
    (hret : .ret q (.ok r) ∈ coreEvents tr) : ∃ incoming client answer,
      Served serde config tr q incoming client answer ∧
        r = forwardResponse encode (buildTunnelRequest q incoming) answer := by
  obtain ⟨tr₁, tr₂, rfl⟩ := List.append_of_mem ((mem_coreEvents (by simp)).mp hret)
  rw [List.append_cons] at h hclients ⊢
  obtain ⟨u, hr, -⟩ := Lts.Run.split _ tr₂ h
  obtain ⟨c, incoming, answer, hst, hin, hfwd, rfl⟩ := forwarded_of_returned hserde
    (fun c hc => hclients c (by simp [hc])) hr
  have later : ∀ {e : TunnelEvent}, e ∈ tr₁ → e ∈ tr₁ ++ [.axum (.server (.ret q (.ok
      (forwardResponse encode (buildTunnelRequest q incoming) answer))))] ++ tr₂ := fun he => by
    simp [he]
  have hfwd := later hfwd
  have hst : (c, buildTunnelRequest q incoming) ∈ starts serde (tr₁ ++ [.axum (.server (.ret q
      (.ok (forwardResponse encode (buildTunnelRequest q incoming) answer))))] ++ tr₂) := by
    rw [List.append_assoc, starts, Lts.record_append]
    exact List.mem_append_left _ hst
  have hin := (mem_coreEvents (by simp)).mpr (later ((mem_coreEvents (by simp)).mp hin))
  obtain ⟨session, hs⟩ := session_of_client h hfwd
  -- its connection was assigned the request, and so has proved the secret
  obtain ⟨q', incoming', hin', ha, heq⟩ := request_of_started hserde h (mem_started.mpr hst)
  obtain rfl : q = q' := congrArg TunnelRequest.requestId heq
  obtain ⟨hsecret, hservice⟩ := config_of_proved hserde h hs (proved_of_assign h ha hin)
  refine ⟨incoming, session.config, answer, ⟨hin, ?_, ⟨c, ?_, hfwd⟩, hsecret, hservice⟩, rfl⟩
  · exact List.count_eq_one_of_mem (starts_nodup hserde h) (List.mem_map.mpr ⟨_, hst, rfl⟩)
  · exact (introduced_of_run h hs).accepted

end

/-- **What a request and its reply become.**  In every run with tunnel clients for peers, the reply
to a public request is an error of the tunnel, or what `forward_request` of a client that has the
secret made of the answer to this request, which it sent once. -/
theorem tunnel_relays (hserde : serde.RoundTrips) (hclients : ∀ c, .accept c none ∉ tr)
    (h : TunnelRun serde Base64.encode config tr t)
    {result : Except TunnelError TunnelResponse} (hret : .ret q result ∈ coreEvents tr)
    {room : HeaderRoom} (hroom : ∀ h, room [] h) {order : List (String × String)}
    (horder : order.Perm (handleRequestResult q result).headers.toList) :
    let reply := buildResponse room Base64.decode (handleRequestResult q result) order
    (∃ err, result = .error err ∧ reply = errorReply err.status err.text) ∨
    ∃ incoming client answer, Served serde config tr q incoming client answer ∧
      result = .ok (forwardResponse Base64.encode (buildTunnelRequest q incoming) answer) ∧
      (∀ req hs l, handleTunnel config req = .ok incoming → req.Carriable hs l →
        (httpRequest client (buildTunnelRequest q incoming)).Conveys client req hs l) ∧
      ∀ response rs body, answer = .ok response → response.Carriable rs body →
        room.takes [] order → reply.Conveys response rs body := by
  intro reply
  cases result with
  | error err =>
      have hstatus : parseStatus err.status = err.status := by cases err <;> decide
      exact .inl ⟨err, rfl, buildResponse_errorResponse hroom Base64.decode q hstatus err.text
        horder⟩
  | ok r =>
      obtain ⟨incoming, client, answer, hserved, rfl⟩ := served_of_returned hserde hclients h hret
      refine .inr ⟨incoming, client, answer, hserved, rfl,
        fun req hs l hin hcarry => conveys_httpRequest hin client q hcarry, ?_⟩
      rintro response rs body rfl hcarry htakes
      exact conveys_buildResponse Base64.decode_encode _ hcarry horder htakes

/-- The lines of an answer. -/
def pageLines : HeaderLines :=
  [(⟨"x-page", by decide +kernel, by decide +kernel⟩, ⟨"1", by decide +kernel⟩)]

/-- An answer with a body that is no text. -/
def page : HttpResponse where
  status := 404
  headers := pageLines.headerMap
  body := some [0xFF, 0]

theorem page_carriable : page.Carriable pageLines [0xFF, 0] where
  least := by decide
  greatest := by decide
  headers := rfl
  distinct := by decide +kernel
  lengths := by decide +kernel
  body := rfl

/-- A client connects, and a request is forwarded to a service that answers it so. -/
def pageTunnel : List TunnelEvent :=
  joining 1 ++ authenticating 1 ++
    (dispatching compactJson 1 "q" demoRequest).map (fun e => .axum (.server e)) ++
    forwarding Base64.encode 1 1 (buildTunnelRequest "q" demoRequest) (.ok page)

/-- Its caller gets the page. -/
theorem tunnel_relays_page : ∃ incoming client,
    Served compactJson demoConfig pageTunnel "q" incoming client (.ok page) ∧
      (buildResponse roomForMany Base64.decode (handleRequestResult "q" (.ok
        (forwardResponse Base64.encode (buildTunnelRequest "q" demoRequest) (.ok page))))
        [("x-page", "1")]).Conveys page pageLines [0xFF, 0] := by
  obtain ⟨t, h⟩ := @exists_tunnelRun compactJson Base64.encode demoConfig pageTunnel
    (by decide +kernel)
  have hclients : ∀ c, TunnelEvent.accept c none ∉ pageTunnel := by
    simp [pageTunnel, joining, authenticating, forwarding, goingDown, comingUp, pushing,
      answering, dispatching]
  have hanswer : ∀ {c req answer}, .client c (.forwarded req answer) ∈ pageTunnel →
      answer = .ok page := by
    intro c req answer hfwd
    simp [pageTunnel, joining, authenticating, forwarding, goingDown, comingUp, pushing,
      answering, dispatching] at hfwd
    exact hfwd.2.2
  have hret : .ret "q" (.ok (forwardResponse Base64.encode (buildTunnelRequest "q" demoRequest)
      (.ok page))) ∈ coreEvents pageTunnel := by
    rw [mem_coreEvents (by simp)]
    decide +kernel
  have horder : [("x-page", "1")].Perm (handleRequestResult "q" (.ok (forwardResponse Base64.encode
      (buildTunnelRequest "q" demoRequest) (.ok page)))).headers.toList := by
    decide +kernel
  have hroom : ∀ h, roomForMany [] h := fun _ => rfl
  rcases tunnel_relays compactJson_roundTrips hclients h hret hroom horder
    with ⟨err, herr, -⟩ | ⟨incoming, client, answer, hserved, -, -, hconveys⟩
  · cases herr
  · obtain ⟨c, -, hfwd⟩ := hserved.session
    obtain rfl := hanswer hfwd
    exact ⟨incoming, client, hserved,
      hconveys page pageLines _ rfl page_carriable (by decide +kernel)⟩

end Outpunch
