import Outpunch.Axum.Handler
import Outpunch.Client.Forward
import Outpunch.Library.Collect

/-!
# Tunnel — headers

Headers cross the tunnel in a map, once in each direction: `extract_headers` collects those of the
public request and the client sets the entries, `forward_request` collects those of the local
response and the axum adapter sets the entries.  A map holds one value for each name, so all the
lines arrive exactly when no name is repeated among them (`header_fidelity`).
-/

namespace Outpunch

/-- The lines of a request that are to be forwarded. -/
def forwardable (hs : HeaderLines) : HeaderLines :=
  hs.filter fun h => !skippedHeaders.contains h.1.text

/-- The lines of a public request reach the local service: the tunnel request carries them, and the
request the client makes of what it reads on the wire sets them. -/
def RequestHeadersKept (serde : SerdeJson) (config : ClientConfig) (hs : HeaderLines)
    (req : TunnelRequest) : Prop :=
  req.headers.toList.Perm (forwardable hs).pairs ∧
    ∃ received, parseMessage serde (serializeRequest serde req) = .ok (.request received) ∧
      (httpRequest config received).accepted ∧
      (httpRequest config received).headers.Perm (forwardable hs).pairs

/-- The lines of a local response reach the caller: they are in the response that is made of what
is read on the wire. -/
def ResponseHeadersKept (serde : SerdeJson) (decode : String → Option (List UInt8))
    (rs : HeaderLines) (resp : TunnelResponse) : Prop :=
  ∃ received, parseMessage serde (serializeResponse serde resp) = .ok (.response received) ∧
    rs.pairs.Subperm (tunnelResponseToAxum decode received).headers

section

variable {serde : SerdeJson} {hs rs : HeaderLines}

/-! ### The request -/

/-- `extract_headers` collects the lines that are to be forwarded. -/
theorem extractHeaders_eq (hs : HeaderLines) :
    extractHeaders hs.headerMap = .ofList (forwardable hs).pairs := by
  have hkept : (hs.headerMap.filter fun h => !skippedHeaders.contains h.1) =
      (forwardable hs).headerMap := by
    unfold forwardable HeaderLines.headerMap HeaderLines.pairs
    rw [List.map_map, List.map_map, List.filter_map]
    rfl
  rw [extractHeaders, hkept, HeaderLines.filterMap_headerMap]

/-- A map collected from lines holds headers, as both ends write them. -/
theorem isHeader_of_collected {m : StringMap} (h : m = .ofList hs.pairs) {p : String × String}
    (hp : p ∈ m.toList) : isHeader p ∧ lowerName p.1 = p.1 := by
  have hmem := (Collect.toList_ofList_subperm hs.pairs).subset (h ▸ hp)
  exact ⟨HeaderLines.isHeader_of_mem hmem, HeaderLines.lowerName_of_mem hmem⟩

/-- **The lines of a request arrive exactly when no name is repeated among them.** -/
theorem requestHeadersKept_iff (hserde : serde.RoundTrips) {config : ClientConfig}
    {req : TunnelRequest} (htype : req.msgType = "request")
    (hreq : req.headers = extractHeaders hs.headerMap) :
    RequestHeadersKept serde config hs req ↔ ((forwardable hs).pairs.map Prod.fst).Nodup := by
  rw [extractHeaders_eq] at hreq
  have hwire := parseMessage_request hserde htype
  have hsent : (httpRequest config req).accepted :=
    List.all_eq_true.mpr fun p hp => (isHeader_of_collected hreq hp).1
  rw [RequestHeadersKept]
  refine Iff.trans (and_iff_left_of_imp fun hperm => ⟨req, hwire, hsent, hperm⟩) ?_
  rw [hreq, Collect.toList_ofList_perm_iff]

/-! ### The response -/

/-- What the adapter sets of the headers of a response that were collected from lines. -/
theorem headers_tunnelResponseToAxum (decode : String → Option (List UInt8))
    {resp : TunnelResponse} (h : resp.headers = .ofList rs.pairs) :
    (tunnelResponseToAxum decode resp).headers = resp.headers.toList := by
  have hall : resp.headers.toList.all isHeader = true :=
    List.all_eq_true.mpr fun p hp => (isHeader_of_collected h hp).1
  rw [tunnelResponseToAxum, if_pos hall]
  calc resp.headers.toList.map (fun h => (lowerName h.1, h.2))
      = resp.headers.toList.map id :=
        List.map_congr_left fun p hp => Prod.ext (isHeader_of_collected h hp).2 rfl
    _ = resp.headers.toList := List.map_id _

/-- **The lines of a response arrive exactly when no name is repeated among them.** -/
theorem responseHeadersKept_iff (hserde : serde.RoundTrips)
    {decode : String → Option (List UInt8)} {resp : TunnelResponse}
    (htype : resp.msgType = "response") (hresp : resp.headers = .ofList rs.pairs) :
    ResponseHeadersKept serde decode rs resp ↔ (rs.pairs.map Prod.fst).Nodup := by
  have hwire := parseMessage_response hserde htype
  have hset := headers_tunnelResponseToAxum decode hresp
  constructor
  · rintro ⟨received, hread, hsub⟩
    cases hwire.symm.trans hread
    rw [hset, hresp] at hsub
    exact Collect.nodup_of_length_le hsub.length_le
  · intro hnodup
    refine ⟨resp, hwire, ?_⟩
    rw [hset, hresp]
    exact (Collect.toList_ofList_perm_iff.mpr hnodup).symm.subperm

/-- The headers of a response `forward_request` makes of lines. -/
theorem headers_forwardResponse (encode : List UInt8 → String) (req : TunnelRequest)
    (status : UInt16) (body : Option (List UInt8)) (rs : HeaderLines) :
    (forwardResponse encode req (.ok ⟨status, rs.headerMap, body⟩)).headers = .ofList rs.pairs :=
  congrArg (Std.ExtTreeMap.ofList · compare) rs.filterMap_headerMap

/-- **Headers cross the tunnel exactly when no name is repeated**: of the request among the lines
that are to be forwarded, and of the response among all of them. -/
theorem header_fidelity (hserde : serde.RoundTrips) (encode : List UInt8 → String)
    (decode : String → Option (List UInt8)) {config : ServerConfig} {req : AxumRequest}
    {incoming : IncomingRequest} (hreq : req.headers = hs.headerMap)
    (hin : handleTunnel config req = .ok incoming) (client : ClientConfig) (q : RequestId)
    (status : UInt16) (body : Option (List UInt8)) :
    (RequestHeadersKept serde client hs (buildTunnelRequest q incoming) ↔
      ((forwardable hs).pairs.map Prod.fst).Nodup) ∧
    (ResponseHeadersKept serde decode rs
        (forwardResponse encode (buildTunnelRequest q incoming)
          (.ok { status, headers := rs.headerMap, body })) ↔
      (rs.pairs.map Prod.fst).Nodup) := by
  obtain ⟨_, -, rfl⟩ := handleTunnel_eq_ok.mp hin
  refine ⟨requestHeadersKept_iff hserde rfl (congrArg extractHeaders hreq), ?_⟩
  exact responseHeadersKept_iff hserde rfl (headers_forwardResponse encode _ status body rs)

end

/-- Lines without repeated names. -/
def plainLines : HeaderLines :=
  [(⟨"accept", by decide +kernel, by decide +kernel⟩, ⟨"text/html", by decide +kernel⟩),
    (⟨"host", by decide +kernel, by decide +kernel⟩, ⟨"tunnel.example", by decide +kernel⟩)]

/-- They arrive, the `host` line apart. -/
theorem header_fidelity_plain :
    RequestHeadersKept compactJson {} plainLines
        (buildTunnelRequest "q" ⟨"app", "GET", "", ∅, extractHeaders plainLines.headerMap, none⟩) ∧
      ResponseHeadersKept compactJson (fun _ => none) plainLines
        (forwardResponse (fun _ => "")
          (buildTunnelRequest "q" ⟨"app", "GET", "", ∅, extractHeaders plainLines.headerMap, none⟩)
          (.ok { status := 200, headers := plainLines.headerMap, body := none })) := by
  have h := @header_fidelity compactJson plainLines plainLines compactJson_roundTrips (fun _ => "")
    (fun _ => none) {} ⟨"app", "", "GET", none, plainLines.headerMap, []⟩ _ rfl rfl {} "q" 200 none
  exact ⟨h.1.mpr (by decide +kernel), h.2.mpr (by decide +kernel)⟩

/-- Two cookies are set. -/
def twoCookies : HeaderLines :=
  [(⟨"set-cookie", by decide +kernel, by decide +kernel⟩, ⟨"session=1", by decide +kernel⟩),
    (⟨"set-cookie", by decide +kernel, by decide +kernel⟩, ⟨"theme=dark", by decide +kernel⟩)]

/-- Of two `set-cookie` lines of a local service one reaches the caller. -/
theorem set_cookie_lost :
    ¬ ResponseHeadersKept compactJson (fun _ => none) twoCookies
      (forwardResponse (fun _ => "")
        (buildTunnelRequest "q" ⟨"app", "GET", "", ∅, ∅, none⟩)
        (.ok { status := 200, headers := twoCookies.headerMap, body := none })) := by
  rw [responseHeadersKept_iff compactJson_roundTrips rfl
    (headers_forwardResponse _ _ 200 none twoCookies)]
  decide +kernel

end Outpunch
