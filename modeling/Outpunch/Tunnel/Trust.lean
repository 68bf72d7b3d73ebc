import Outpunch.Server.Gate
import Outpunch.Server.Isolation
import Outpunch.Tunnel.Correlation
import Outpunch.Tunnel.Handshake

/-!
# Tunnel — whom a request is shown to

Whoever the peers of the connections are, the server shows a request to a peer only after the peer
has sent the secret, in an auth message for the service the request is for; and what a dispatch
returns is a text of such a peer (`secret_guards`).  Of a tunnel client this says that it was
configured with the secret and for the service.
-/

namespace Outpunch

open Session (authText requestOf)

variable {serde : SerdeJson} {encode : List UInt8 → String} {config : ServerConfig}
  {tr : List TunnelEvent} {t t' : Tunnel} {c : ConnId} {q : RequestId}

/-- The peer of `c` has sent the secret, for the service `s`. -/
def Proved (serde : SerdeJson) (config : ServerConfig) (c : ConnId) (s : String)
    (tr : List TunnelEvent) : Prop :=
  config.secret ≠ "" ∧ ∃ text ∈ sentUp serde c tr, ∃ msg,
    parseMessage serde text = .ok (.auth msg) ∧ msg.token = config.secret ∧ msg.service = s

/-! ### What the server takes of a peer -/

/-- What `handle_auth` took was pushed. -/
theorem push_of_authRecv {l : List Event} {w : World} (h : ServerRun serde config l w) {m : Pushed}
    (hm : .conn c (.authRecv m) ∈ l) : .conn c (.push m) ∈ l := by
  obtain ⟨tr₁, tr₂, u, u', rfl, hr, hs, -⟩ := h.of_mem hm
  obtain ⟨k, k', hk, hstep, -⟩ := hs.conn_inv
  cases hstep with
  | authRecv _ hi =>
      exact List.mem_append_left _ (push_of_carried hr hk (.inr (hi ▸ List.mem_cons_self)))

/-- What was pushed on `c` its peer had sent. -/
theorem sentUp_of_push (h : TunnelRun serde encode config tr t) {m : Pushed}
    (hm : .conn c (.push m) ∈ coreEvents tr) : m.text ∈ sentUp serde c tr :=
  putsUp_of_takesUp h (Lts.mem_record.mpr ⟨_, (mem_coreEvents (by simp)).mp hm, if_pos rfl⟩)

/-- A peer whose connection registered has sent the secret. -/
theorem proved_of_register (h : TunnelRun serde encode config tr t) {s : String}
    (hreg : .register c s ∈ coreEvents tr) : Proved serde config c s tr := by
  have hcore := serverRun (axumRun h)
  obtain ⟨m, hone, hv⟩ := admitted_of_register hcore hreg
  obtain ⟨e, he, hd⟩ := Lts.mem_record.mp (hone ▸ List.mem_singleton_self _)
  obtain ⟨rfl, -⟩ := Event.decides_eq_some.mp hd
  obtain ⟨msg, hm, hsecret, htoken, hs⟩ := verdict_authRecv.mp hv
  exact ⟨hsecret, m.text, sentUp_of_push h (push_of_authRecv hcore he), msg, hm, htoken, hs⟩

/-- So has one a request was assigned to. -/
theorem proved_of_assign (h : TunnelRun serde encode config tr t) {tx : OutgoingTx}
    (ha : .assign q c tx ∈ coreEvents tr) {incoming : IncomingRequest}
    (hin : .request q incoming ∈ coreEvents tr) : Proved serde config c incoming.service tr := by
  have hcore := serverRun (axumRun h)
  obtain ⟨incoming', hin', hreg⟩ := register_of_assign hcore ha
  rw [requested_unique hcore hin hin']
  exact proved_of_register h hreg

/-! ### What a tunnel client sends -/

/-- What a session sends is the auth message of its configuration, and responses. -/
structure Introduced (serde : SerdeJson) (c : ConnId) (tr : List TunnelEvent) (s : Session) :
    Prop where
  accepted : .accept c (some s.config) ∈ tr
  responses : ∀ r ∈ s.responses, r.msgType = "response"
  sent : ∀ text ∈ sentUp serde c tr, text = authText serde s.config ∨
    ∃ r, r.msgType = "response" ∧ text = serializeResponse serde r

namespace Introduced

variable {s s' : Session}

/-- A step that keeps the configuration, and sends nothing. -/
theorem quiet {e : TunnelEvent} (h : Introduced serde c tr s) (hc : s'.config = s.config)
    (hr : ∀ r ∈ s'.responses, r ∈ s.responses)
    (he : e.linkText serde LinkEvent.putsUp c = none) : Introduced serde c (tr ++ [e]) s' := by
  refine ⟨hc ▸ List.mem_append_left _ h.accepted, fun r hmem => h.responses r (hr r hmem), ?_⟩
  have hsent : sentUp serde c (tr ++ [e]) = sentUp serde c tr := Lts.record_snoc_of_none he
  rw [hsent, hc]
  exact h.sent

/-- A step that sends `text`. -/
theorem send {e : TunnelEvent} {text : String} (h : Introduced serde c tr s)
    (hc : s'.config = s.config) (hr : ∀ r ∈ s'.responses, r ∈ s.responses)
    (he : e.linkText serde LinkEvent.putsUp c = some text)
    (ht : text = authText serde s.config ∨
      ∃ r, r.msgType = "response" ∧ text = serializeResponse serde r) :
    Introduced serde c (tr ++ [e]) s' := by
  refine ⟨hc ▸ List.mem_append_left _ h.accepted, fun r hmem => h.responses r (hr r hmem), ?_⟩
  have hsent : sentUp serde c (tr ++ [e]) = sentUp serde c tr ++ [text] :=
    Lts.record_snoc_of_some he
  rw [hsent, hc]
  intro text' htext
  rcases List.mem_append.mp htext with htext | htext
  · exact h.sent text' htext
  · exact List.mem_singleton.mp htext ▸ ht

theorem move {e : ClientEvent} (h : Introduced serde c tr s)
    (hm : Session.Move serde encode s e s') : Introduced serde c (tr ++ [.client c e]) s' := by
  have link : (TunnelEvent.client c e).linkText serde LinkEvent.putsUp c =
      (e.onLink serde).bind LinkEvent.putsUp := TunnelEvent.linkText_client ..
  cases hm with
  | authSend _ => exact h.send rfl (fun _ hr => hr) link (.inl rfl)
  | @respond r rest _ hq =>
      have hresp : ∀ r' ∈ r :: rest, r'.msgType = "response" := hq ▸ h.responses
      refine h.send rfl (fun r' hr => hq ▸ List.mem_cons_of_mem _ hr) link (.inr ⟨r, ?_, rfl⟩)
      exact hresp r List.mem_cons_self
  | @forwarded req result _ =>
      have hquiet : Introduced serde c (tr ++ [.client c (.forwarded req result)]) s :=
        h.quiet rfl (fun _ hr => hr) link
      refine ⟨hquiet.accepted, fun r hr => ?_, hquiet.sent⟩
      rcases List.mem_append.mp hr with hr | hr
      · exact h.responses r hr
      · exact List.mem_singleton.mp hr ▸ (forwardResponse_spec encode req result).1
  | unexpected _ _ _ _ | authSendFailed _ | sendFailed _ =>
      exact h.quiet rfl (by simp [Session.stop]) link
  | @authFailed item _ _ _ | @closed item _ _ =>
      refine h.quiet rfl (by simp [Session.stop]) (link.trans ?_)
      rcases item with _ | _ | _ | _ | _ <;> rfl
  | @ignored item _ _ =>
      refine h.quiet rfl (fun _ hr => hr) (link.trans ?_)
      rcases item with _ | _ | _ | _ | _ <;> rfl
  | authSent _ | authenticated _ _ | requested _ _ | joined _ | ping _ | sent _ =>
      exact h.quiet rfl (fun _ hr => hr) link

end Introduced

/-- **A session speaks for its configuration.** -/
theorem introduced_of_run (h : TunnelRun serde encode config tr t) {s : Session}
    (hs : t.sessions c = some s) : Introduced serde c tr s := by
  refine session_invariant (fun tr s => Introduced serde c tr s) (fun {tr client} hno => ?_)
    (fun ih hm => ih.move hm) (fun ih he => ?_) h hs
  · have hnil : sentUp serde c (tr ++ [.accept c (some client)]) = [] := by
      refine Lts.record_eq_nil.mpr fun e he => e.linkText_other ?_ (fun _ => rfl) fun _ => rfl
      rcases List.mem_append.mp he with he | he
      · exact hno e he
      · exact List.mem_singleton.mp he ▸ id
    refine ⟨List.mem_concat_self, fun r hr => (by cases hr), fun text htext => ?_⟩
    rw [hnil] at htext; cases htext
  · exact ih.quiet rfl (fun _ hr => hr) (TunnelEvent.linkText_other he (fun _ => rfl) fun _ => rfl)

section

variable (hserde : serde.RoundTrips)
include hserde

/-- A tunnel client that has sent the secret was configured with it. -/
theorem config_of_proved (h : TunnelRun serde encode config tr t) {session : Session}
    (hs : t.sessions c = some session) {s : String} (hp : Proved serde config c s tr) :
    session.config.secret = config.secret ∧ session.config.service = s := by
  obtain ⟨-, text, htext, msg, hm, htoken, rfl⟩ := hp
  rcases (introduced_of_run h hs).sent text htext with rfl | ⟨r, htype, rfl⟩
  · rw [authText, parseMessage_auth hserde rfl] at hm
    cases hm
    exact ⟨htoken, rfl⟩
  · rw [parseMessage_response hserde htype] at hm
    cases hm

/-! ### Whom a request is shown to -/

/-- A request on its way down is one that was made, and its peer has sent the secret. -/
theorem request_of_sunk (h : TunnelRun serde encode config tr t) {text : String}
    (ht : text ∈ sunk c (axumEvents tr)) {req : TunnelRequest}
    (hreq : requestOf serde text = some req) :
    (∃ incoming, .request req.requestId incoming ∈ coreEvents tr ∧
      req = buildTunnelRequest req.requestId incoming) ∧ Proved serde config c req.service tr := by
  have hcore := serverRun (axumRun h)
  have horder := (handshakeOrder_of_enqueued hcore c).of_isPrefix
    (delivered_of_run (axumRun h) c).sunk
  have reply : ¬ (text = authOkText serde ∨ ∃ message, text = authErrorText serde message) := by
    intro hreply
    rw [requestOf_of_reply hserde hreply] at hreq; cases hreq
  rcases horder with hnil | ⟨message, herr⟩ | ⟨requests, hok, hall⟩
  · rw [hnil] at ht; cases ht
  · rw [herr] at ht
    exact absurd (.inr ⟨message, List.mem_singleton.mp ht⟩) reply
  · rw [hok] at ht
    rcases List.mem_cons.mp ht with hreply | ht
    · exact absurd (.inl hreply) reply
    · obtain ⟨q, incoming, hin, ha, rfl⟩ := hall text ht
      rw [requestOf_serializeRequest hserde] at hreq
      cases hreq
      exact ⟨⟨incoming, hin, rfl⟩, proved_of_assign h ha hin⟩

omit hserde in
/-- What a dispatch returns its peer has sent, and that has sent the secret. -/
theorem response_of_returned (h : TunnelRun serde encode config tr t) {r : TunnelResponse}
    (hret : .ret q (.ok r) ∈ coreEvents tr) :
    r.requestId = q ∧ ∃ c incoming, .request q incoming ∈ coreEvents tr ∧
      Proved serde config c incoming.service tr ∧
      ∃ text ∈ sentUp serde c tr, parseMessage serde text = .ok (.response r) := by
  have hcore := serverRun (axumRun h)
  obtain ⟨tr₁, tr₂, u, u', htr, hr, hs, -⟩ := hcore.of_mem hret
  obtain ⟨d, -, hd, -, hresp⟩ := hs.ret_ok_inv
  obtain ⟨hq, c, m, ha⟩ := answered_of_run hr hd hresp
  have ha : AnsweredBy serde (coreEvents tr) q r c m := by
    rw [show coreEvents tr = _ from htr]
    exact ha.mono _
  obtain ⟨hassign, hrecv, hparse⟩ := ha
  obtain ⟨incoming, hin, hreg⟩ := register_of_assign hcore (hassign.subset List.mem_cons_self)
  have hpush := push_of_relayRecv hcore (hrecv.subset List.mem_cons_self)
  exact ⟨hq, c, incoming, hin, proved_of_register h hreg, m.text, sentUp_of_push h hpush, hparse⟩

end

/-- Who sees requests, and who answers them. -/
structure SecretGuards (serde : SerdeJson) (config : ServerConfig) (tr : List TunnelEvent)
    (t : Tunnel) : Prop where
  /-- A request on its way down was made as it is, and the peer has sent the secret for it. -/
  shown : ∀ {c text req}, text ∈ sunk c (axumEvents tr) → requestOf serde text = some req →
    (∃ incoming, .request req.requestId incoming ∈ coreEvents tr ∧
      req = buildTunnelRequest req.requestId incoming) ∧ Proved serde config c req.service tr
  /-- What a dispatch returns was sent by a peer that has sent the secret for it. -/
  answered : ∀ {q r}, .ret q (.ok r) ∈ coreEvents tr → r.requestId = q ∧ ∃ c incoming,
    .request q incoming ∈ coreEvents tr ∧ Proved serde config c incoming.service tr ∧
      ∃ text ∈ sentUp serde c tr, parseMessage serde text = .ok (.response r)
  /-- A tunnel client sends the secret where it is its own. -/
  clients : ∀ {c session s}, t.sessions c = some session → Proved serde config c s tr →
    .accept c (some session.config) ∈ tr ∧ session.config.secret = config.secret ∧
      session.config.service = s

/-- **The secret guards the tunnel**, whoever connects, and at every moment of a run. -/
theorem secret_guards (hserde : serde.RoundTrips) (h : TunnelRun serde encode config tr t)
    {tr₁ tr₂ : List TunnelEvent} (htr : tr = tr₁ ++ tr₂) :
    ∃ t₁, TunnelRun serde encode config tr₁ t₁ ∧ SecretGuards serde config tr₁ t₁ := by
  subst htr
  obtain ⟨t₁, h₁, -⟩ := Lts.Run.split _ _ h
  refine ⟨t₁, h₁, fun ht hreq => request_of_sunk hserde h₁ ht hreq,
    fun hret => response_of_returned h₁ hret, fun hs hp => ?_⟩
  exact ⟨(introduced_of_run h₁ hs).accepted, config_of_proved hserde h₁ hs hp⟩

/-- A peer that knows the secret is shown a request. -/
theorem secret_guards_session : ∃ text req, text ∈ sunk 1 (axumEvents demoTunnel) ∧
    requestOf compactJson text = some req ∧
      Proved compactJson demoConfig 1 req.service demoTunnel := by
  obtain ⟨t, h⟩ := @exists_tunnelRun compactJson (fun _ => "") demoConfig demoTunnel
    (by decide +kernel)
  obtain ⟨t₁, -, hg⟩ := secret_guards compactJson_roundTrips h (List.append_nil demoTunnel).symm
  have hsunk : serializeRequest compactJson (buildTunnelRequest "q" demoRequest) ∈
      sunk 1 (axumEvents demoTunnel) := by decide +kernel
  have hreq := requestOf_serializeRequest compactJson_roundTrips "q" demoRequest
  exact ⟨_, _, hsunk, hreq, (hg.shown hsunk hreq).2⟩

end Outpunch
