import Outpunch.Library.Url
import Outpunch.Protocol.Http
import Outpunch.Server.State

/-!
# Axum — the tunnel routes

`handle_tunnel` of the axum adapter: it reads the body up to the limit, takes the query apart and
the headers over, and hands an `IncomingRequest` to the core; what the core returns is made an
HTTP response again (`tunnelResponseToAxum`).  `AxumRequest` is what the extractors give it.

The base64 decoder is outside (`decode`).
-/

namespace Outpunch

/-- What a body stream yields. -/
inductive BodyFrame where
  | data (bytes : List UInt8)
  | error
  deriving DecidableEq

/-- What `tunnel_handler` is called with. -/
structure AxumRequest where
  service : String
  path : String
  method : String
  rawQuery : Option String
  headers : HeaderMap
  body : List BodyFrame
  deriving DecidableEq

/-- An HTTP response. -/
structure HttpReply where
  status : UInt16
  headers : List (String × String)
  body : List UInt8
  deriving DecidableEq

/-- `axum::body::to_bytes`: `none` where the stream fails or holds more than `limit` bytes. -/
def toBytes (limit : Nat) : List BodyFrame → Option (List UInt8)
  | [] => some []
  | .data bytes :: rest =>
    if bytes.length ≤ limit then (toBytes (limit - bytes.length) rest).map (bytes ++ ·) else none
  | .error :: _ => none

/-- `String::from_utf8_lossy`. -/
def fromUtf8Lossy (body : List UInt8) : String := .ofList (Utf8.decodeLossy body)

/-- A pair of texts, as strings. -/
def stringPair (p : List Char × List Char) : String × String := (.ofList p.1, .ofList p.2)

/-- The pairs `parse_query` finds: the pieces between the `&` that have a `=`. -/
def queryPairs (qs : String) : List (String × String) :=
  ((qs.toList.splitOn '&').filterMap (Url.splitOnce '=')).map stringPair

/-- `parse_query`. -/
def parseQuery : Option String → StringMap
  | none => ∅
  | some qs => .ofList (queryPairs qs)

/-- The headers `extract_headers` leaves out. -/
def skippedHeaders : List String := ["host", "connection", "upgrade", "transfer-encoding"]

/-- `extract_headers`. -/
def extractHeaders (headers : HeaderMap) : StringMap :=
  .ofList ((headers.filter fun h => !skippedHeaders.contains h.1).filterMap fun h =>
    h.2.map fun value => (h.1, value))

/-- `handle_tunnel` up to the core: the request it hands over, or its own reply. -/
def handleTunnel (config : ServerConfig) (req : AxumRequest) :
    Except HttpReply IncomingRequest :=
  match toBytes config.maxBodySize req.body with
  | none => .error { status := 400, headers := [], body := bytes "request body too large" }
  | some body => .ok
    { service := req.service
      method := req.method
      path := req.path
      query := parseQuery req.rawQuery
      headers := extractHeaders req.headers
      body := if body.isEmpty then none else some (fromUtf8Lossy body) }

/-- The body of a response, as bytes. -/
def responseBody (decode : String → Option (List UInt8)) (resp : TunnelResponse) : List UInt8 :=
  match resp.body, resp.bodyEncoding with
  | some encoded, some "base64" => (decode encoded).getD (bytes encoded)
  | some plain, _ => bytes plain
  | none, _ => []

/-- `tunnel_response_to_axum`: a header the `http` crate does not accept spoils the response.  This
is for headers that a header map holds, as all that come from a service do; a name that is too long
and a map that is full are those of `buildResponse`. -/
def tunnelResponseToAxum (decode : String → Option (List UInt8)) (resp : TunnelResponse) :
    HttpReply :=
  if resp.headers.toList.all isHeader then
    { status := parseStatus resp.status
      headers := resp.headers.toList.map fun h => (lowerName h.1, h.2)
      body := responseBody decode resp }
  else { status := 500, headers := [], body := bytes "internal error" }

/-! ### Reading a body -/

/-- The chunks of a body, as the stream yields them. -/
def chunks (l : List (List UInt8)) : List BodyFrame := l.map .data

/-- **A body is read whole, or it is too large**, however it is split. -/
theorem toBytes_chunks (limit : Nat) (l : List (List UInt8)) :
    toBytes limit (chunks l) = if l.flatten.length ≤ limit then some l.flatten else none := by
  induction l generalizing limit with
  | nil => exact (if_pos (Nat.zero_le _)).symm
  | cons c l ih =>
      have ih := ih (limit - c.length)
      rw [chunks, List.map_cons, toBytes, List.flatten_cons, List.length_append]
      rw [chunks] at ih
      by_cases hc : c.length ≤ limit
      · rw [if_pos hc, ih]
        by_cases hl : l.flatten.length ≤ limit - c.length
        · rw [if_pos hl, if_pos (by omega)]; rfl
        · rw [if_neg hl, if_neg (by omega)]; rfl
      · rw [if_neg hc, if_neg (by omega)]

/-- What `handle_tunnel` hands over, when it does. -/
theorem handleTunnel_eq_ok {config : ServerConfig} {req : AxumRequest}
    {incoming : IncomingRequest} : handleTunnel config req = .ok incoming ↔
      ∃ body, toBytes config.maxBodySize req.body = some body ∧ incoming =
        { service := req.service
          method := req.method
          path := req.path
          query := parseQuery req.rawQuery
          headers := extractHeaders req.headers
          body := if body.isEmpty then none else some (fromUtf8Lossy body) } := by
  unfold handleTunnel
  cases toBytes config.maxBodySize req.body with
  | none => exact ⟨fun h => (by cases h), fun ⟨_, h, _⟩ => (by cases h)⟩
  | some body =>
      refine ⟨fun h => ⟨body, rfl, (Except.ok.inj h).symm⟩, ?_⟩
      rintro ⟨_, ⟨⟩, rfl⟩
      rfl

end Outpunch
