import Outpunch.Server.Ownership
import Outpunch.Tunnel.Sessions

/-!
# Tunnel — a request and its execution

A request is put on one connection at most, and there once, so over all clients and connections
it is forwarded at most once; and what is forwarded is the request as it was made
(`started_isPrefix`).  A response that a dispatch returns was sent up by the session of its
connection, which had it from the `forward_request` of that request.
-/

namespace Outpunch

open Session (authText requestOf)

variable {serde : SerdeJson} {encode : List UInt8 → String} {config : ServerConfig}
  {tr : List TunnelEvent} {t t' : Tunnel} {c : ConnId} {q : RequestId} {r : TunnelResponse}

/-! ### Forwarded once -/

/-- What the client of `c` starts to forward are requests sent on `c`, in order. -/
theorem started_isPrefix (h : TunnelRun serde encode config tr t) (c : ConnId) :
    (started serde c tr).IsPrefix
      (((sentTo c (coreEvents tr)).map Prod.snd).filterMap (requestOf serde)) := by
  cases hs : t.sessions c with
  | none =>
      rw [(absent_of_run h hs).2]
      exact List.nil_prefix
  | some s =>
      rw [(sessionOk_of_run h hs).starts]
      have hpre := ((taken_isPrefix h c).drop 1).filterMap (requestOf serde)
      rw [List.drop_one, List.drop_one] at hpre
      rcases enqueued_shape (serverRun (axumRun h)) c with hnil | ⟨message, herr⟩ | hok
      · rw [hnil] at hpre
        exact hpre.trans List.nil_prefix
      · rw [herr] at hpre
        exact hpre.trans List.nil_prefix
      · rwa [hok] at hpre

section

variable (hserde : serde.RoundTrips)
include hserde

theorem requestOf_serializeRequest (q : RequestId) (incoming : IncomingRequest) :
    requestOf serde (serializeRequest serde (buildTunnelRequest q incoming)) =
      some (buildTunnelRequest q incoming) := by
  rw [requestOf, parseMessage_request hserde rfl]

/-- What was sent on `c`, as the client reads it. -/
theorem requestIds_sentTo {tr : List Event} {w : World} (h : ServerRun serde config tr w)
    (c : ConnId) : (((sentTo c tr).map Prod.snd).filterMap (requestOf serde)).map
      TunnelRequest.requestId = (sentTo c tr).map Prod.fst := by
  rw [List.filterMap_map, List.map_filterMap, ← List.filterMap_eq_map]
  refine List.filterMap_congr fun ⟨q, json⟩ hmem => ?_
  obtain ⟨-, incoming, -, rfl⟩ := sent_of_run h (mem_sentTo.mp hmem)
  rw [Function.comp_apply, requestOf_serializeRequest hserde]
  rfl

/-- The requests the client of `c` starts to forward are distinct. -/
theorem started_nodup (h : TunnelRun serde encode config tr t) (c : ConnId) :
    ((started serde c tr).map TunnelRequest.requestId).Nodup := by
  have hcore := serverRun (axumRun h)
  refine ((started_isPrefix h c).map _).sublist.nodup ?_
  rw [requestIds_sentTo hserde hcore]
  exact sentTo_nodup hcore c

/-- What is forwarded is a request as it was made, sent on the connection it was assigned to. -/
theorem request_of_started (h : TunnelRun serde encode config tr t) {req : TunnelRequest}
    (hreq : req ∈ started serde c tr) :
    ∃ q incoming, .request q incoming ∈ coreEvents tr ∧ .assign q c c ∈ coreEvents tr ∧
      req = buildTunnelRequest q incoming := by
  obtain ⟨text, htext, hr⟩ := List.mem_filterMap.mp ((started_isPrefix h c).subset hreq)
  obtain ⟨⟨q, json⟩, hmem, rfl⟩ := List.mem_map.mp htext
  obtain ⟨ha, incoming, hin, rfl⟩ := sent_of_run (serverRun (axumRun h)) (mem_sentTo.mp hmem)
  rw [requestOf_serializeRequest hserde] at hr
  exact ⟨q, incoming, hin, ha, (Option.some.inj hr).symm⟩

/-- **A request is forwarded at most once**, over all clients and connections. -/
theorem starts_nodup (h : TunnelRun serde encode config tr t) :
    ((starts serde tr).map fun p => p.2.requestId).Nodup := by
  refine h.invariant (fun tr _ => ((starts serde tr).map fun p => p.2.requestId).Nodup)
    List.nodup_nil fun {tr t e t'} hr ih hs => ?_
  cases he : e.starts serde with
  | none => rwa [starts, Lts.record_snoc_of_none he]
  | some p =>
      obtain ⟨c, req⟩ := p
      rw [starts, Lts.record_snoc_of_some he, List.map_append]
      refine ih.append (List.nodup_singleton _) (List.disjoint_singleton.mpr fun hmem => ?_)
      obtain ⟨⟨c', req'⟩, hmem', hid⟩ := List.mem_map.mp hmem
      have hrun : TunnelRun serde encode config (tr ++ [e]) t' := hr.snoc hs
      have hst : started serde c (tr ++ [e]) = started serde c tr ++ [req] :=
        Lts.record_snoc_of_some (by rw [he]; exact if_pos rfl)
      -- an earlier start of it was on this connection, which sends it once
      have hold : req' ∈ started serde c' (tr ++ [e]) := by
        rw [started, Lts.record_append]
        exact List.mem_append_left _ (mem_started.mpr hmem')
      obtain ⟨q, incoming, -, ha, rfl⟩ := request_of_started hserde hrun
        (hst ▸ List.mem_concat_self)
      obtain ⟨q', incoming', -, ha', rfl⟩ := request_of_started hserde hrun hold
      obtain rfl : q' = q := hid
      obtain rfl := assigned_unique (serverRun (axumRun hrun)) ha' ha
      have hnd := started_nodup hserde hrun c'
      rw [hst, List.map_append] at hnd
      exact List.disjoint_of_nodup_append hnd (List.mem_map.mpr ⟨_, mem_started.mpr hmem', rfl⟩)
        (List.mem_singleton_self _)

/-! ### The response -/

/-- A response that a session has sent is the result of a request it forwarded. -/
theorem forwarded_of_sentUp (h : TunnelRun serde encode config tr t) {s : Session}
    (hs : t.sessions c = some s) {text : String} (hput : text ∈ sentUp serde c tr)
    (hparse : parseMessage serde text = .ok (.response r)) :
    ∃ req result, req ∈ started serde c tr ∧ .client c (.forwarded req result) ∈ tr ∧
      r = forwardResponse encode req result := by
  have hok := sessionOk_of_run h hs
  rcases hok.sent text hput with ⟨client, htext⟩ | ⟨r', ⟨req, result, hmem, rfl⟩, htext⟩
  · rw [htext, authText, parseMessage_auth hserde rfl] at hparse
    cases hparse
  · rw [htext, parseMessage_response hserde (forwardResponse_spec encode req result).1] at hparse
    cases hparse
    exact ⟨req, result, hok.forwarded req result hmem, hmem, rfl⟩

/-- **What a dispatch returns is what its request was answered with.**  The response was taken
from the WebSocket of the connection the dispatch was assigned to, and the session there got it
from `forward_request`. -/
theorem forwarded_of_returned (hclients : ∀ c, .accept c none ∉ tr)
    (h : TunnelRun serde encode config (tr ++ [.axum (.server (.ret q (.ok r)))]) t) :
    ∃ c incoming result, (c, buildTunnelRequest q incoming) ∈ starts serde tr ∧
      .request q incoming ∈ coreEvents tr ∧
      .client c (.forwarded (buildTunnelRequest q incoming) result) ∈ tr ∧
      r = forwardResponse encode (buildTunnelRequest q incoming) result := by
  obtain ⟨u, hr, -⟩ := h.snoc_inv
  have hcore : ServerRun serde config (coreEvents tr ++ [.ret q (.ok r)]) t.axum.server :=
    coreEvents_server tr _ ▸ serverRun (axumRun h)
  obtain ⟨w, hcore, hs⟩ := hcore.snoc_inv
  obtain ⟨d, -, hd, -, hresp⟩ := hs.ret_ok_inv
  obtain ⟨hq, c, m, -, hrecv, hparse⟩ := answered_of_run hcore hd hresp
  -- the text was on the WebSocket, and the session there put it up
  have hpush := push_of_relayRecv hcore (hrecv.subset List.mem_cons_self)
  have htake : m.text ∈ linkTexts serde LinkEvent.takesUp c tr :=
    Lts.mem_record.mpr ⟨_, (mem_coreEvents (by simp)).mp hpush, if_pos rfl⟩
  have hput := putsUp_of_takesUp hr htake
  have hlink : u.links c ≠ none := by
    rcases linkOk_of_run hr c with ⟨-, hno⟩ | ⟨-, l, hl, -⟩
    · obtain ⟨e, he, htext⟩ := Lts.mem_record.mp hput
      rw [TunnelEvent.linkText_of_ne (hno e he)] at htext
      cases htext
    · rw [hl]; simp
  obtain ⟨s, hs⟩ := Option.ne_none_iff_exists'.mp (session_of_link hr hclients hlink)
  obtain ⟨req, result, hst, hmem, rfl⟩ := forwarded_of_sentUp hserde hr hs hput hparse
  obtain ⟨q', incoming, hin, -, rfl⟩ := request_of_started hserde hr hst
  obtain rfl : q' = q := (forwardResponse_spec encode _ result).2.symm.trans hq
  exact ⟨c, incoming, result, mem_started.mp hst, hin, hmem, rfl⟩

/-- **End-to-end correlation.**  Over all clients and connections of a run, no request is
forwarded twice; and a request is forwarded as it was made, with the service, method, path, query,
headers and body the adapter passed.  Where every peer is the tunnel client, what `handle_request`
returns is an error of the tunnel, or the result of the one `forward_request` of that request. -/
theorem end_to_end_correlation (h : TunnelRun serde encode config tr t) :
    ((starts serde tr).map fun p => p.2.requestId).Nodup ∧
    (∀ c req, (c, req) ∈ starts serde tr → ∃ incoming,
      .axum (.server (.request req.requestId incoming)) ∈ tr ∧
        req = buildTunnelRequest req.requestId incoming) ∧
    ((∀ c, .accept c none ∉ tr) → ∀ pre q result post,
      tr = pre ++ .axum (.server (.ret q result)) :: post →
      (∃ err, result = .error err) ∨ ∃ c incoming answer,
        .axum (.server (.request q incoming)) ∈ tr ∧
        (c, buildTunnelRequest q incoming) ∈ starts serde pre ∧
        .client c (.forwarded (buildTunnelRequest q incoming) answer) ∈ pre ∧
        handleRequestResult q result =
          forwardResponse encode (buildTunnelRequest q incoming) answer) := by
  refine ⟨starts_nodup hserde h, fun c req hst => ?_, fun hclients pre q result post htr => ?_⟩
  · obtain ⟨q, incoming, hin, -, rfl⟩ := request_of_started hserde h (mem_started.mpr hst)
    exact ⟨incoming, (mem_coreEvents (by simp)).mp hin, rfl⟩
  · cases result with
    | error err => exact .inl ⟨err, rfl⟩
    | ok r =>
        subst htr
        rw [List.append_cons] at h hclients
        obtain ⟨u, hr, -⟩ := Lts.Run.split _ post h
        obtain ⟨c, incoming, answer, hst, hin, hmem, rfl⟩ := forwarded_of_returned hserde
          (fun c hc => hclients c (by simp [hc])) hr
        exact .inr ⟨c, incoming, answer,
          List.mem_append_left _ ((mem_coreEvents (by simp)).mp hin), hst, hmem, rfl⟩

end

/-- A request is forwarded to a client that connected, and its caller gets the result. -/
theorem end_to_end_correlation_session :
    ∃ c incoming answer,
      (c, buildTunnelRequest "q" incoming) ∈ starts compactJson demoTunnel.dropLast ∧
      forwardResponse (fun _ => "") (buildTunnelRequest "q" demoRequest) demoResult =
        forwardResponse (fun _ => "") (buildTunnelRequest "q" incoming) answer := by
  obtain ⟨t, h⟩ := @exists_tunnelRun compactJson (fun _ => "") demoConfig demoTunnel
    (by decide +kernel)
  obtain ⟨-, -, hret⟩ := end_to_end_correlation compactJson_roundTrips h
  have hclients : ∀ c, TunnelEvent.accept c none ∉ demoTunnel := by
    simp [demoTunnel, joining, authenticating, forwarding, goingDown, comingUp, pushing, answering,
      dispatching]
  rcases hret hclients demoTunnel.dropLast "q"
      (.ok (forwardResponse (fun _ => "") (buildTunnelRequest "q" demoRequest) demoResult))
      [] rfl with
    ⟨err, herr⟩ | ⟨c, incoming, answer, -, hst, -, heq⟩
  · cases herr
  · exact ⟨c, incoming, answer, hst, heq⟩

end Outpunch
