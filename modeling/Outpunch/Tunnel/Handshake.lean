import Outpunch.Tunnel.Sessions

/-!
# Tunnel — the handshake comes first

What a client sees of its connection begins with the reply to its auth message: the callback is
handed nothing, one `auth_error`, or `auth_ok` and then requests of this connection
(`handshakeOrder_of_enqueued`), and every stage on the way to the client keeps a prefix of it.  So
the text `authenticate` reads is a reply, and no request is lost to it.
-/

namespace Outpunch

open Session (requestOf)

variable {serde : SerdeJson} {encode : List UInt8 → String} {config : ServerConfig}

/-! ### On the server -/

section

variable {tr : List Event} {w : World} {c : ConnId}

/-- `texts` are nothing, one `auth_error`, or `auth_ok` and then requests assigned to `c`. -/
def HandshakeOrder (serde : SerdeJson) (c : ConnId) (tr : List Event) (texts : List String) :
    Prop :=
  texts = [] ∨ (∃ message, texts = [authErrorText serde message]) ∨
    ∃ requests, texts = authOkText serde :: requests ∧ ∀ text ∈ requests, ∃ q incoming,
      .request q incoming ∈ tr ∧ .assign q c c ∈ tr ∧
        text = serializeRequest serde (buildTunnelRequest q incoming)

theorem HandshakeOrder.of_isPrefix {texts texts' : List String}
    (h : HandshakeOrder serde c tr texts) (hp : texts'.IsPrefix texts) :
    HandshakeOrder serde c tr texts' := by
  rcases h with rfl | ⟨message, rfl⟩ | ⟨requests, rfl, hall⟩
  · exact .inl (List.prefix_nil.mp hp)
  · rcases List.prefix_cons_iff.mp hp with hnil | ⟨rest, rfl, hrest⟩
    · exact .inl hnil
    · exact .inr (.inl ⟨message, by rw [List.prefix_nil.mp hrest]⟩)
  · rcases List.prefix_cons_iff.mp hp with hnil | ⟨rest, rfl, hrest⟩
    · exact .inl hnil
    · exact .inr (.inr ⟨rest, rfl, fun text ht => hall text (hrest.subset ht)⟩)

theorem handshakeOrder_of_enqueued (h : ServerRun serde config tr w) (c : ConnId) :
    HandshakeOrder serde c tr (enqueued c tr) := by
  refine (enqueued_shape h c).imp_right (.imp_right fun hok => ⟨_, hok, fun text ht => ?_⟩)
  obtain ⟨⟨q, json⟩, hmem, rfl⟩ := List.mem_map.mp ht
  obtain ⟨ha, incoming, hin, hjson⟩ := sent_of_run h (mem_sentTo.mp hmem)
  exact ⟨q, incoming, hin, ha, hjson⟩

/-- What the callback is handed is a prefix of what is enqueued. -/
theorem handed_isPrefix (h : ServerRun serde config tr w) (c : ConnId) :
    (handed c tr).IsPrefix (enqueued c tr) := by
  cases hk : w.conns c with
  | none =>
      have hno := not_concerns_of_absent h hk
      have hnil : handed c tr = [] :=
        Lts.record_eq_nil.mpr fun e he => Event.recordOf_hands.other (hno e he)
      rw [hnil]
      exact List.nil_prefix
  | some k => exact (queueInv_of_run h hk).handed_isPrefix

/-- The first text is a reply. -/
theorem HandshakeOrder.head {text : String} {rest : List String}
    (h : HandshakeOrder serde c tr (text :: rest)) :
    text = authOkText serde ∨ ∃ message, text = authErrorText serde message := by
  rcases h with h | ⟨message, h⟩ | ⟨requests, h, -⟩
  · cases h
  · cases h
    exact .inr ⟨message, rfl⟩
  · cases h
    exact .inl rfl

end

/-! ### At the client -/

variable {tr : List TunnelEvent} {t t' : Tunnel} {c : ConnId}

/-- The client of `c` takes in the order of the handshake. -/
theorem handshakeOrder_of_taken (h : TunnelRun serde encode config tr t) (c : ConnId) :
    HandshakeOrder serde c (coreEvents tr) (taken serde c tr) :=
  (handshakeOrder_of_enqueued (serverRun (axumRun h)) c).of_isPrefix (taken_isPrefix h c)

/-- What `authenticate` reads is a reply. -/
theorem reply_of_authRecv (h : TunnelRun serde encode config tr t) {text : String}
    (he : .client c (.authRecv (some (.ok (.text text)))) ∈ tr) :
    text = authOkText serde ∨ ∃ message, text = authErrorText serde message := by
  obtain ⟨tr₁, tr₂, u, u', rfl, hr, hs, -⟩ := h.of_mem he
  have hone : taken serde c (tr₁ ++ [.client c (.authRecv (some (.ok (.text text))))]) =
      taken serde c tr₁ ++ [text] := Lts.record_snoc_of_some (TunnelEvent.linkText_client ..)
  have horder := handshakeOrder_of_taken (hr.snoc hs) c
  cases hs with
  | @client _ _ s s' _ hsess hn _ =>
      -- it waits for the reply, so it took nothing before
      have hrep := (sessionOk_of_run hr hsess).replied
      have hp : s.phase = .authWaiting := by
        have hm := Session.move_of_next hn
        cases hm <;> assumption
      rw [hp] at hrep
      rw [hone, show taken serde c tr₁ = [] from hrep, List.nil_append] at horder
      exact horder.head

section

variable (hserde : serde.RoundTrips)
include hserde

/-- A reply is an `auth_ok` or an `auth_error` to who reads it. -/
theorem parseMessage_of_reply {text : String}
    (h : text = authOkText serde ∨ ∃ message, text = authErrorText serde message) :
    ∃ m, parseMessage serde text = .ok m ∧
      ((∃ r, m = .authOk r) ∨ ∃ r, m = .authError r) := by
  rcases h with rfl | ⟨message, rfl⟩
  · exact ⟨_, parseMessage_authOkText hserde, .inl ⟨_, rfl⟩⟩
  · exact ⟨_, parseMessage_authErrorText hserde message, .inr ⟨_, rfl⟩⟩

theorem requestOf_of_reply {text : String}
    (h : text = authOkText serde ∨ ∃ message, text = authErrorText serde message) :
    requestOf serde text = none := by
  obtain ⟨m, hm, ⟨r, rfl⟩ | ⟨r, rfl⟩⟩ := parseMessage_of_reply hserde h <;>
    rw [requestOf, hm]

/-- **No request is lost to the handshake**: the client of `c` starts to forward every request it
takes. -/
theorem started_eq_taken (h : TunnelRun serde encode config tr t) (c : ConnId) :
    started serde c tr = (taken serde c tr).filterMap (requestOf serde) := by
  cases hs : t.sessions c with
  | none =>
      obtain ⟨ht, hst⟩ := absent_of_run h hs
      rw [ht, hst]
      rfl
  | some s =>
      have horder := handshakeOrder_of_taken h c
      rw [(sessionOk_of_run h hs).starts]
      cases htaken : taken serde c tr with
      | nil => rfl
      | cons text rest =>
          rw [htaken] at horder
          rw [List.tail_cons, List.filterMap_cons_none (requestOf_of_reply hserde horder.head)]

/-- No session fails for an unexpected message. -/
theorem expected_of_run (h : TunnelRun serde encode config tr t) {s : Session}
    (hs : t.sessions c = some s) : s.phase ≠ .ended (.error .unexpectedMessage) := by
  intro hp
  have hrep := (sessionOk_of_run h hs).replied
  rw [hp] at hrep
  obtain ⟨text, m, htaken, hm, hok, herr⟩ := hrep
  have horder := handshakeOrder_of_taken h c
  rw [htaken] at horder
  obtain ⟨m', hm', hreply⟩ := parseMessage_of_reply hserde horder.head
  cases hm.symm.trans hm'
  rcases hreply with ⟨r, hr⟩ | ⟨r, hr⟩
  · exact hok r hr
  · exact herr r hr

/-- **Handshake order.**  The callback of each connection is handed nothing, one `auth_error`, or
`auth_ok` and then requests of this connection, whatever the dispatches and the other connections
do.  So the read of `authenticate` takes a reply, it never fails for an unexpected message, and
every request a client takes is one it forwards. -/
theorem handshake_order :
    (∀ {tr w}, ServerRun serde config tr w → ∀ c, HandshakeOrder serde c tr (handed c tr)) ∧
    (∀ {tr t}, TunnelRun serde encode config tr t → ∀ c,
      (∀ s, t.sessions c = some s → s.phase ≠ .ended (.error .unexpectedMessage)) ∧
      (∀ text, .client c (.authRecv (some (.ok (.text text)))) ∈ tr →
        (text = authOkText serde ∨ ∃ message, text = authErrorText serde message) ∧
          requestOf serde text = none) ∧
      started serde c tr = (taken serde c tr).filterMap (requestOf serde)) := by
  refine ⟨fun h c => (handshakeOrder_of_enqueued h c).of_isPrefix (handed_isPrefix h c),
    fun h c => ⟨fun s hs => expected_of_run hserde h hs, fun text he => ?_,
      started_eq_taken hserde h c⟩⟩
  have hreply := reply_of_authRecv h he
  exact ⟨hreply, requestOf_of_reply hserde hreply⟩

end

/-- A request is sent before the client has read the reply to its auth message. -/
def earlyRequest : List TunnelEvent :=
  let text := serializeRequest compactJson (buildTunnelRequest "q" demoRequest)
  joining 1 ++ (dispatching compactJson 1 "q" demoRequest).map (fun e => .axum (.server e)) ++
    authenticating 1 ++ goingDown 1 text ++ [TunnelEvent.client 1 (.recv (some (.ok (.text text))))]

/-- The client reads the reply first, and forwards the request. -/
theorem handshake_order_early : ∃ t, TunnelRun compactJson (fun _ => "") demoConfig earlyRequest t ∧
    HandshakeOrder compactJson 1 (coreEvents earlyRequest) (handed 1 (coreEvents earlyRequest)) ∧
    requestOf compactJson (authOkText compactJson) = none ∧
    started compactJson 1 earlyRequest =
      (taken compactJson 1 earlyRequest).filterMap (requestOf compactJson) := by
  obtain ⟨t, h⟩ := @exists_tunnelRun compactJson (fun _ => "") demoConfig earlyRequest
    (by decide +kernel)
  obtain ⟨hserver, htunnel⟩ := @handshake_order compactJson (fun _ => "") demoConfig
    compactJson_roundTrips
  obtain ⟨-, hread, hstart⟩ := htunnel h 1
  exact ⟨t, h, hserver (serverRun (axumRun h)) 1,
    (hread _ (by simp [earlyRequest, authenticating])).2, hstart⟩

end Outpunch
