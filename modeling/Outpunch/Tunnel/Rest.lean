import Outpunch.Client.Conservation
import Outpunch.Library.Base64
import Outpunch.Tunnel.Trust
import Outpunch.Tunnel.Work

/-!
# Tunnel — a tunnel left alone

A tunnel is at rest when the server, the handlers, the WebSockets and the clients can do no more by
themselves; new peers, requests, answers of local services, timers and failures come from outside.
A tunnel left alone comes to rest (`tunnel_comes_to_rest`), and then nothing is lost on the way or
waits in vain: a dispatch that has not returned has its request with a client whose local service
is still to answer it, unless that client is over or the socket failed.
-/

namespace Outpunch

open Session (requestOf)

variable {serde : SerdeJson} {encode : List UInt8 → String} {config : ServerConfig}
  {tr : List TunnelEvent} {t t' : Tunnel} {c : ConnId} {q : RequestId}

/-- Nothing goes on by itself. -/
abbrev Tunnel.Rests (serde : SerdeJson) (encode : List UInt8 → String) (t : Tunnel) : Prop :=
  Lts.Rests (TunnelStep serde encode) (fun e => TunnelEvent.own e) t

/-! ### The account of a client -/

/-- What happened in the session of `c`. -/
def TunnelEvent.ofClient (c : ConnId) : TunnelEvent → Option ClientEvent
  | .client c' e => if c' = c then some e else none
  | _ => none

abbrev clientEvents (c : ConnId) (tr : List TunnelEvent) : List ClientEvent :=
  Lts.record (TunnelEvent.ofClient c) tr

theorem TunnelEvent.ofClient_other {e : TunnelEvent} (he : ¬ e.OfPeer c) : e.ofClient c = none := by
  cases e with
  | client c' e => exact if_neg he
  | _ => rfl

theorem TunnelEvent.ofClient_eq_some {e : TunnelEvent} {ce : ClientEvent} :
    e.ofClient c = some ce ↔ e = .client c ce := by
  cases e with
  | client c' e => simp [TunnelEvent.ofClient]
  | _ => simp [TunnelEvent.ofClient]

/-- A session that is not over keeps its account in a tunnel. -/
theorem balanced_of_session (h : TunnelRun serde encode config tr t) {s : Session}
    (hs : t.sessions c = some s) (hlive : s.Live) :
    Balanced serde encode (clientEvents c tr) s := by
  refine session_invariant
    (fun tr s => s.Live → Balanced serde encode (clientEvents c tr) s)
    (fun {tr client} hno _ => ?_) (fun {tr s e s'} ih hm hlive => ?_)
    (fun {tr s e} ih he hlive => ?_) h hs hlive
  · have hnil : clientEvents c (tr ++ [.accept c (some client)]) = [] := by
      rw [clientEvents, Lts.record_snoc_of_none rfl]
      exact Lts.record_eq_nil.mpr fun e he => e.ofClient_other (hno e he)
    rw [hnil]
    exact .new client
  · have hsnoc : clientEvents c (tr ++ [.client c e]) = clientEvents c tr ++ [e] :=
      Lts.record_snoc_of_some (if_pos rfl)
    rw [hsnoc]
    exact (ih (hm.live hlive)).move hm hlive
  · have hsame : clientEvents c (tr ++ [e]) = clientEvents c tr :=
      Lts.record_snoc_of_none (e.ofClient_other he)
    rw [hsame]
    exact ih hlive

theorem requested_clientEvents (c : ConnId) (tr : List TunnelEvent) :
    requested serde (clientEvents c tr) = started serde c tr := by
  rw [requested, clientEvents, started, Lts.record, Lts.record, Lts.record,
    List.filterMap_filterMap]
  congr 1
  funext e
  cases e with
  | client c' e =>
      by_cases hc : c' = c
      · subst hc
        rw [TunnelEvent.startsAt_client, TunnelEvent.ofClient, if_pos rfl, Option.bind_some]
      · have hother : ¬ (TunnelEvent.client c' e).OfPeer c := hc
        rw [TunnelEvent.startsAt_other hother, TunnelEvent.ofClient_other hother, Option.bind_none]
  | _ => rfl

/-- What the loop passed to its WebSocket was sent up. -/
theorem sentUp_of_written {r : TunnelResponse} (hr : r ∈ written (clientEvents c tr)) :
    serializeResponse serde r ∈ sentUp serde c tr := by
  obtain ⟨ce, hce, hw⟩ := Lts.mem_record.mp hr
  obtain ⟨e, he, hof⟩ := Lts.mem_record.mp hce
  obtain rfl := TunnelEvent.ofClient_eq_some.mp hof
  cases ce with
  | respond response =>
      cases hw
      exact Lts.mem_record.mpr ⟨_, he, TunnelEvent.linkText_client ..⟩
  | _ => cases hw

/-- **A request a client has started is in flight**, or its response was sent up, or waits to be. -/
theorem inFlight_or_responded (h : TunnelRun serde encode config tr t) {s : Session}
    (hs : t.sessions c = some s) (hlive : s.Live) {req : TunnelRequest}
    (hreq : req ∈ started serde c tr) : req ∈ s.inFlight ∨ ∃ result,
      forwardResponse encode req result ∈ s.responses ∨
        serializeResponse serde (forwardResponse encode req result) ∈ sentUp serde c tr := by
  have hbal := balanced_of_session h hs hlive
  rw [← requested_clientEvents] at hreq
  rcases List.mem_append.mp (hbal.requests.subset hreq) with hflight | hdone
  · exact .inl hflight
  · obtain ⟨⟨req', result⟩, hmem, rfl⟩ := List.mem_map.mp hdone
    have hresp : forwardResponse encode req' result ∈
        written (clientEvents c tr) ++ s.responses :=
      hbal.responses ▸ List.mem_map.mpr ⟨_, hmem, rfl⟩
    refine .inr ⟨result, ?_⟩
    rcases List.mem_append.mp hresp with hw | hr
    · exact .inr (sentUp_of_written hw)
    · exact .inl hr

/-- A session that has sent its auth message has sent something. -/
theorem sentUp_ne_nil (h : TunnelRun serde encode config tr t) {s : Session}
    (hs : t.sessions c = some s) (hp : s.phase = .authWaiting) : sentUp serde c tr ≠ [] := by
  refine session_invariant
    (fun tr s => s.phase = .authSending ∨ s.phase = .authWaiting → sentUp serde c tr ≠ [])
    (fun _ hp => by rcases hp with hp | hp <;> cases hp) (fun {tr s e s'} ih hm hp => ?_)
    (fun {tr s e} ih he hp => ?_) h hs (.inr hp)
  · have hsnoc : sentUp serde c (tr ++ [.client c e]) =
        sentUp serde c tr ++ ((e.onLink serde).bind LinkEvent.putsUp).toList := by
      rw [sentUp, linkTexts, Lts.record_snoc, TunnelEvent.linkText_client]
    rw [hsnoc]
    cases hm with
    | authSend _ => exact List.append_ne_nil_of_right_ne_nil _ (List.cons_ne_nil _ _)
    | authSent hp' => exact List.append_ne_nil_of_left_ne_nil (ih (.inl hp')) _
    | requested hp' _ | ignored hp' _ | forwarded _ | joined hp' =>
        exact List.append_ne_nil_of_left_ne_nil (ih hp) _
    | _ => rcases hp with hp | hp <;> cases hp
  · have hsame : sentUp serde c (tr ++ [e]) = sentUp serde c tr :=
      Lts.record_snoc_of_none (TunnelEvent.linkText_other he (fun _ => rfl) fun _ => rfl)
    rw [hsame]
    exact ih hp

/-! ### What the core does with a response -/

/-- The relay loop handles each response it takes. -/
theorem respond_of_relayRecv {tr : List Event} {w : World} (h : ServerRun serde config tr w)
    {k : Connection} (hk : w.conns c = some k) {m : Pushed} {r : TunnelResponse}
    (hm : .conn c (.relayRecv m) ∈ tr) (hparse : parseMessage serde m.text = .ok (.response r)) :
    (∃ s, k.phase = .respond s m r) ∨ ∃ tx, .respond c m r tx ∈ tr := by
  refine conn_invariant (fun tr k => .conn c (.relayRecv m) ∈ tr →
    (∃ s, k.phase = .respond s m r) ∨ ∃ tx, .respond c m r tx ∈ tr) (fun hno hm => ?_)
    (fun {tr w k e w' k'} _ _ ih _ hmv hm => ?_) h hk hm
  · rcases List.mem_append.mp hm with hm | hm
    · exact absurd rfl (hno _ hm)
    · cases List.mem_singleton.mp hm
  · have old : .conn c (.relayRecv m) ∈ tr → (∀ s, k.phase = .respond s m r →
        (∃ s, k'.phase = .respond s m r) ∨ ∃ tx, Event.respond c m r tx ∈ tr ++ [e]) →
        (∃ s, k'.phase = .respond s m r) ∨ ∃ tx, Event.respond c m r tx ∈ tr ++ [e] :=
      fun hm hstay => by
        rcases ih hm with ⟨s, hp⟩ | ⟨tx, hmem⟩
        · exact hstay s hp
        · exact .inr ⟨tx, List.mem_append_left _ hmem⟩
    have before : e ≠ .conn c (.relayRecv m) → .conn c (.relayRecv m) ∈ tr := fun hne =>
      (List.mem_append.mp hm).resolve_right fun hm => hne (List.mem_singleton.mp hm).symm
    cases hmv with
    | @own ce _ hs =>
        have hn := hs.next
        by_cases hce : ce = .relayRecv m
        · subst hce
          generalize k.phase = p, k'.phase = p' at hn
          cases hn with
          | stay he => cases he
          | response hm' =>
              cases hparse.symm.trans hm'
              exact .inl ⟨_, rfl⟩
          | ignore hno => exact absurd hparse (hno r)
          | replied he | refused he => rcases he with he | he <;> cases he
        · refine old (before fun heq => hce (Event.conn.inj heq).2) fun s hp => ?_
          rw [hp] at hn
          generalize k'.phase = p' at hn
          cases hn with
          | stay _ => exact .inl ⟨s, rfl⟩
    | respond hp =>
        refine old (before (by simp)) fun s hp' => .inr ?_
        cases hp.symm.trans hp'
        exact ⟨_, List.mem_concat_self⟩
    | register hp | closeReplaced hp _ | cleanup hp | runReturned hp _ =>
        refine old (before (by simp)) fun s hp' => ?_
        cases hp.symm.trans hp'
    | closed _ | drainEnd _ _ _ | send _ =>
        exact old (before (by simp)) fun s hp => .inl ⟨s, hp⟩
    | other hno =>
        exact old (before fun heq => hno (heq ▸ rfl)) fun s hp => .inl ⟨s, hp⟩

/-- The connection that has handled a response has no entry for it. -/
theorem Step.respond_claimed {w w' : World} {m : Pushed} {r : TunnelResponse}
    {tx : Option ResponseTx} (h : Step serde w (.respond c m r tx) w') (hw : w.Wf)
    {p : PendingRequest} (hp : w'.state.pending r.requestId = some p) : p.connId ≠ c := by
  rintro rfl
  cases tx with
  | some q =>
      obtain ⟨rfl, -, hnone⟩ := h.respond_some_inv hw
      rw [hnone] at hp; cases hp
  | none =>
      rcases h.pending_inv hw hp with hold | heq
      · have hclaim := h.respond_inv.2
        rw [ServerState.claim, hold] at hclaim
        simp at hclaim
      · cases heq

section

variable (hserde : serde.RoundTrips)
include hserde

/-- A response of a client that the core has handled is to a request assigned to its connection. -/
theorem assign_of_respond (h : TunnelRun serde encode config tr t) {s : Session}
    (hs : t.sessions c = some s) {m : Pushed} {r : TunnelResponse} {tx : Option ResponseTx}
    (hm : .respond c m r tx ∈ coreEvents tr) : .assign r.requestId c c ∈ coreEvents tr := by
  have hcore := serverRun (axumRun h)
  obtain ⟨tr₁, tr₂, u, u', htr, hr, hstep, -⟩ := hcore.of_mem hm
  obtain ⟨k, service, hk, hp⟩ := hstep.respond_inv.1
  obtain ⟨hrecv, hparse⟩ := relayRecv_of_respond hr hk hp
  have hrecv : .conn c (.relayRecv m) ∈ coreEvents tr := by
    rw [show coreEvents tr = _ from htr]
    exact List.mem_append_left _ hrecv
  obtain ⟨req, result, hst, -, rfl⟩ := forwarded_of_sentUp hserde h hs
    (sentUp_of_push h (push_of_relayRecv hcore hrecv)) hparse
  obtain ⟨q, incoming, -, ha, rfl⟩ := request_of_started hserde h hst
  rwa [(forwardResponse_spec encode _ result).2]

/-- **A client's response is not waited for once it was handled.** -/
theorem not_pending_of_respond (h : TunnelRun serde encode config tr t) {s : Session}
    (hs : t.sessions c = some s) {m : Pushed} {r : TunnelResponse} {tx : Option ResponseTx}
    (hm : .respond c m r tx ∈ coreEvents tr) {p : PendingRequest}
    (hp : t.axum.server.state.pending r.requestId = some p) : p.connId ≠ c := by
  refine h.invariant (fun tr t => t.sessions c ≠ none → .respond c m r tx ∈ coreEvents tr →
    ∀ p, t.axum.server.state.pending r.requestId = some p → p.connId ≠ c)
    (fun hs => absurd rfl hs) (fun {tr t e t'} hr ih hstep hs hm p hp => ?_)
    (by rw [hs]; simp) hm p hp
  have hcore := serverRun (axumRun hr)
  have hw := wf_of_run hcore
  rcases hstep.sessions_inv hs with hs | ⟨client, rfl⟩
  · obtain ⟨s₀, hs₀⟩ := Option.ne_none_iff_exists'.mp hs
    rcases hstep.toServer with ⟨e', hevents, hs'⟩ | ⟨hevents, hsame⟩
    · rw [hevents] at hm
      rcases List.mem_append.mp hm with hold | hnew
      · rcases hs'.pending_inv hw hp with hp | rfl
        · exact ih hs hold p hp
        · -- it was assigned before, and is assigned once
          intro hc
          have hassign := assign_of_respond hserde hr hs₀ hold
          obtain ⟨-, d, hd, hlock, -⟩ := hs'.assign_inv hw
          obtain ⟨-, d', hd', hne⟩ := assigned_of_run hcore hassign
          cases hd.symm.trans hd'
          exact hne hlock
      · obtain rfl := List.mem_singleton.mp hnew
        exact hs'.respond_claimed hw hp
    · exact ih hs (hevents ▸ hm) p (hsame ▸ hp)
  · -- a connection that was not there has handled nothing
    have hevents : coreEvents (tr ++ [TunnelEvent.accept c client]) =
        coreEvents tr ++ [.create c] :=
      (coreEvents_snoc_of_some rfl).trans (serverEvents_server ..)
    rw [hevents, List.mem_append] at hm
    rcases hm with hm | hm
    · exact absurd rfl (not_concerns_of_absent hcore (hstep.accept_inv hw).1 _ hm)
    · cases List.mem_singleton.mp hm

end

theorem mem_received {tr : List Event} {m : Pushed} : m ∈ received c tr ↔
    .conn c (.authRecv m) ∈ tr ∨ .conn c (.relayRecv m) ∈ tr := by
  rw [received, Lts.mem_record]
  constructor
  · rintro ⟨e, he, hr⟩
    cases e with
    | conn c' e =>
        cases e with
        | authRecv m' | relayRecv m' =>
            obtain ⟨rfl, heq⟩ := Option.ite_none_right_eq_some.mp hr
            cases heq
            simp [he]
        | _ => cases hr
    | _ => cases hr
  · rintro (he | he)
    · exact ⟨_, he, if_pos rfl⟩
    · exact ⟨_, he, if_pos rfl⟩

/-- What the server takes from a WebSocket it pushes. -/
theorem TunnelEvent.linkText_takesUp {e : TunnelEvent} {text : String}
    (h : e.linkText serde LinkEvent.takesUp c = some text) :
    (∃ m, e = .axum (.server (.conn c (.push m))) ∧ m.text = text) ∨
      e = .axum (.server (.conn c (.pushClosed text))) := by
  obtain ⟨⟨c', le⟩, hlink, hpick⟩ := Option.bind_eq_some_iff.mp h
  obtain ⟨rfl, htakes⟩ := Option.ite_none_right_eq_some.mp hpick
  cases e with
  | axum e =>
      cases e with
      | server e =>
          cases e with
          | conn c' ce =>
              cases ce with
              | push m => cases hlink; cases htakes; exact .inl ⟨m, rfl, rfl⟩
              | pushClosed text' => cases hlink; cases htakes; exact .inr rfl
              | _ => cases hlink
          | _ => cases hlink
      | bridge c' be => cases be <;> cases hlink; cases htakes
  | client c' ce =>
      obtain ⟨le', hle, heq⟩ := Option.map_eq_some_iff.mp hlink
      cases heq
      cases ce with
      | authSend _ | respond _ => cases hle; cases htakes
      | authRecv item | recv item =>
          rcases item with _ | _ | _ | _ | _ <;> cases hle; cases htakes
      | _ => cases hle
  | foreign c' text' => cases hlink; cases htakes
  | accept _ _ => cases hlink

/-! ### Where nothing more can happen -/

/-- A connection has a WebSocket. -/
theorem link_of_conn (h : TunnelRun serde encode config tr t)
    (hk : t.axum.server.conns c ≠ none) : ∃ l, t.links c = some l := by
  refine Option.ne_none_iff_exists'.mp (h.invariant
    (fun _ t => t.axum.server.conns c ≠ none → t.links c ≠ none) (fun hk => absurd rfl hk)
    (fun {tr t e t'} hr ih hs hk => ?_) hk)
  have hw := wf_of_run (serverRun (axumRun hr))
  have keep : t.links c ≠ none → t'.links c ≠ none := fun hl => by
    rcases hs.links with ⟨c', client, -, hlinks⟩ | hlinks
    · rw [hlinks]
      by_cases hc : c = c'
      · subst hc
        simp
      · rwa [PartialMap.insert_other hc]
    · rcases Tunnel.linked_eq_some hlinks with ⟨-, heq⟩ | ⟨c', le, l, l', -, -, -, heq⟩
      · rwa [heq]
      · rw [heq]
        by_cases hc : c = c'
        · subst hc
          simp
        · rwa [PartialMap.insert_other hc]
  by_cases hold : t.axum.server.conns c = none
  · -- only its peer's coming makes the connection
    have made : ∀ {e' a'}, AxumStep serde t.axum e' a' → a'.server.conns c ≠ none →
        e' = .server (.create c) := fun hs hk => by
      obtain ⟨k, hk⟩ := Option.ne_none_iff_exists'.mp hk
      rcases hs.toServer with ⟨e, rfl, hstep⟩ | ⟨-, hsame⟩
      · rcases hstep.move_inv hw.fresh hw.closesOthers hk with ⟨-, rfl, -⟩ | ⟨k', hk', -⟩
        · rfl
        · rw [hold] at hk'; cases hk'
      · rw [hsame, hold] at hk; cases hk
    cases hs with
    | accept hs =>
        cases made hs hk
        simp
    | axum hcreate hs _ => exact absurd (made hs hk) (hcreate c)
    | client _ _ _ | foreign _ _ => exact absurd hold hk
  · exact keep (ih hold)

/-- A socket that has not failed, of a handler that runs, was given all that was enqueued. -/
theorem sunk_eq_enqueued (h : TunnelRun serde encode config tr t) {b : Bridge} {k : Connection}
    (hb : t.axum.bridges c = some b) (hk : t.axum.server.conns c = some k)
    (hrest : b.AtRest c (axumEvents tr) k) (hmain : b.main ≠ .returned)
    (hno : ¬ SinkFailed c (axumEvents tr)) :
    sunk c (axumEvents tr) = enqueued c (coreEvents tr) := by
  cases hrest with
  | returned _ hm _ _ => exact absurd hm hmain
  | reading _ _ _ hout _ _ hw =>
      rw [(delivered_of_run (axumRun h) c).rest hno]
      rcases hw with ⟨-, hq⟩ | ⟨-, hfail⟩
      · simp [stillQueued, hb, hk, hq, hout]
      · exact absurd hfail hno

namespace Tunnel.Rests

/-- The server and its handlers are at rest. -/
theorem axum (hr : t.Rests serde encode) (h : TunnelRun serde encode config tr t) :
    t.axum.Rests serde := by
  intro e a' hs he
  have hcreate : ∀ c, e ≠ .server (.create c) := by
    rintro c rfl
    cases he
  have hown : (TunnelEvent.axum e).own := by
    rw [TunnelEvent.own, he]
    rfl
  have free : e.onLink = none → False := fun hl =>
    hr _ _ (.axum hcreate hs (by rw [hl]; rfl)) hown
  cases e with
  | server e =>
      cases e with
      | conn c ce => cases ce <;> first | exact free rfl | cases he
      | _ => exact free rfl
  | bridge c be =>
      cases be with
      | sink text =>
          obtain ⟨k, hk⟩ : ∃ k, t.axum.server.conns c = some k := by
            cases hs with
            | bridge hb _ =>
                obtain ⟨k, hk, -⟩ := taskOk_of_run (axumRun h) hb
                exact ⟨k, hk⟩
          obtain ⟨l, hl⟩ := link_of_conn h (by rw [hk]; simp)
          have hlink : t.linked (AxumEvent.bridge c (.sink text)).onLink =
              some (t.links.insert c { l with down := l.down ++ [text] }) := by
            simp [Tunnel.linked, AxumEvent.onLink, hl, Link.next]
          exact hr _ _ (.axum hcreate hs hlink) hown
      | _ => exact free rfl

/-- A client takes no step of its own. -/
theorem no_client (hr : t.Rests serde encode) {s s' : Session} {e : ClientEvent}
    {links' : PartialMap ConnId Link} (hs : t.sessions c = some s)
    (hn : s.next serde encode e = some s')
    (hl : t.linked ((e.onLink serde).map fun le => (c, le)) = some links') : e.own = false :=
  Bool.eq_false_iff.mpr (hr _ _ (.client hs hn hl))

/-- A client has taken what it was sent, as long as it takes anything. -/
theorem down (hr : t.Rests serde encode) {s : Session} {l : Link} (hs : t.sessions c = some s)
    (hl : t.links c = some l) (hp : s.phase = .authWaiting ∨ s.phase = .running) :
    l.down = [] := by
  cases hd : l.down with
  | nil => rfl
  | cons text rest =>
      have hlink : t.linked (some (c, .takeDown text)) =
          some (t.links.insert c { l with down := rest }) := by
        simp [Tunnel.linked, hl, Link.next, hd]
      rcases hp with hp | hp
      · cases hr.no_client (e := .authRecv (some (.ok (.text text)))) hs (if_pos hp) hlink
      · cases hr.no_client (e := .recv (some (.ok (.text text)))) hs (if_pos hp) hlink

/-- A client is over, or waits with nothing to send. -/
theorem session (hr : t.Rests serde encode) (h : TunnelRun serde encode config tr t) {s : Session}
    (hs : t.sessions c = some s) : (∃ result, s.phase = .ended result) ∨ s.phase = .authWaiting ∨
      s.phase = .running ∧ s.responses = [] ∧ s.finished = 0 := by
  cases hp : s.phase with
  | ended result => exact .inl ⟨result, rfl⟩
  | authWaiting => exact .inr (.inl rfl)
  | connected =>
      obtain ⟨l, hl⟩ := link_of_conn h (conn_of_session h (by rw [hs]; simp))
      have hlink : t.linked (some (c, .putUp (Session.authText serde s.config))) =
          some (t.links.insert c { l with up := l.up ++ [Session.authText serde s.config] }) := by
        simp [Tunnel.linked, hl, Link.next]
      cases hr.no_client (e := .authSend (Session.authText serde s.config)) hs
        (if_pos ⟨hp, rfl⟩) hlink
  | authSending => cases hr.no_client (e := .authSent) hs (if_pos hp) rfl
  | sending => cases hr.no_client (e := .sent) hs (if_pos hp) rfl
  | running =>
      refine .inr (.inr ⟨rfl, ?_, ?_⟩)
      · cases hq : s.responses with
        | nil => rfl
        | cons r rest =>
            obtain ⟨l, hl⟩ := link_of_conn h (conn_of_session h (by rw [hs]; simp))
            have hlink : t.linked (some (c, .putUp (serializeResponse serde r))) =
                some (t.links.insert c { l with up := l.up ++ [serializeResponse serde r] }) := by
              simp [Tunnel.linked, hl, Link.next]
            have hn : s.next serde encode (.respond r) =
                some { s with phase := .sending, responses := rest } := by
              simp [Session.next, hp, hq]
            cases hr.no_client hs hn hlink
      · by_contra hj
        cases hr.no_client (e := .joined) hs (if_pos ⟨hp, Nat.pos_of_ne_zero hj⟩) rfl

/-- An open connection has read what its peer sent. -/
theorem up (hr : t.Rests serde encode) {b : Bridge} {k : Connection} {l : Link}
    (hb : t.axum.bridges c = some b) (hk : t.axum.server.conns c = some k)
    (hl : t.links c = some l) (hreader : b.reader = .receiving) (hopen : k.incomingTx = true) :
    l.up = [] := by
  cases hu : l.up with
  | nil => rfl
  | cons text rest =>
      have hlink : t.linked (some (c, .takeUp text)) =
          some (t.links.insert c { l with up := rest }) := by
        simp [Tunnel.linked, hl, Link.next, hu]
      exact absurd rfl (hr _ _ (.axum (e := .server (.conn c (.push { n := k.pushed, text })))
        (by simp) (.conn (.conn hk (.push rfl hopen)) hk hb (if_pos hreader)) hlink))

/-- A connection whose handler runs has taken what its peer sent. -/
theorem received (hr : t.Rests serde encode) (h : TunnelRun serde encode config tr t) {b : Bridge}
    {k : Connection} (hb : t.axum.bridges c = some b) (hk : t.axum.server.conns c = some k)
    (hrest : b.AtRest c (axumEvents tr) k) (hmain : b.main ≠ .returned) {text : String}
    (htext : text ∈ sentUp serde c tr) :
    ∃ m, m.text = text ∧ m ∈ Outpunch.received c (coreEvents tr) := by
  cases hrest with
  | returned _ hm _ _ => exact absurd hm hmain
  | reading _ hopen hin _ hrunning hreader _ =>
      obtain ⟨l, hl⟩ := link_of_conn h (by rw [hk]; simp)
      have htaken : text ∈ linkTexts serde LinkEvent.takesUp c tr := by
        rcases linkOk_of_run h c with ⟨hno, -⟩ | ⟨-, l', hl', -, hu⟩
        · rw [hl] at hno; cases hno
        · cases hl.symm.trans hl'
          rwa [sentUp, hu, hr.up hb hk hl hreader hopen, List.append_nil] at htext
      obtain ⟨e, he, hlink⟩ := Lts.mem_record.mp htaken
      have hpushed := pushedOk_of_run (axumRun h) hb hk
      obtain ⟨b', hb', hok⟩ := handlerOk_of_run (axumRun h) hk
      cases hb.symm.trans hb'
      rcases TunnelEvent.linkText_takesUp hlink with ⟨m, rfl, rfl⟩ | rfl
      · refine ⟨m, rfl, ?_⟩
        have harrived := arrived_eq (serverRun (axumRun h)) hk
        rw [hin, List.append_nil] at harrived
        rw [← harrived]
        rcases hpushed.pushed m ((mem_axumEvents (by simp)).mpr he) with harr | hpush | hover
        · exact harr
        · rw [hok.pushing, hreader] at hpush; cases hpush
        · rw [hrunning] at hover; cases hover
      · rw [hpushed.closed text ((mem_axumEvents (by simp)).mpr he)] at hopen
        cases hopen

end Tunnel.Rests

/-! ### What is left -/

/-- The server's end of the WebSocket of `c` is closed, or a send on it has failed. -/
def Tunnel.Cut (c : ConnId) (tr : List TunnelEvent) (t : Tunnel) : Prop :=
  SinkFailed c (axumEvents tr) ∨ ∃ b, t.axum.bridges c = some b ∧ b.main = .returned

/-- Where a client stands when nothing goes on by itself. -/
inductive Session.AtRest (cut : Prop) (s : Session) : Prop where
  | ended {result : Except ClientError Unit} (hp : s.phase = .ended result)
  /-- It waits for the reply to its auth message, which was cut off. -/
  | unanswered (hp : s.phase = .authWaiting) (hcut : cut)
  /-- It waits for requests and for its local service. -/
  | idle (hp : s.phase = .running) (hr : s.responses = []) (hj : s.finished = 0)

/-- What is left of a tunnel when nothing goes on by itself. -/
structure Tunnel.AtRest (tr : List TunnelEvent) (t : Tunnel) : Prop where
  handler : ∀ {c k}, t.axum.server.conns c = some k →
    ∃ b, t.axum.bridges c = some b ∧ b.AtRest c (axumEvents tr) k
  session : ∀ {c s}, t.sessions c = some s → s.AtRest (t.Cut c tr)
  /-- Nothing is on its way down to a client, nor up to a handler that is not over. -/
  link : ∀ {c s l}, t.sessions c = some s → t.links c = some l → s.Live →
    l.down = [] ∧ (¬ t.Cut c tr → l.up = [])
  /-- A dispatch that has not returned has its request on the socket, and a tunnel client there is
  over or still waits for its local service. -/
  dispatch : ∀ {q d}, t.axum.server.dispatches q = some d → d.phase.running →
    ∃ c, d.phase = .waiting c ∧ (SinkFailed c (axumEvents tr) ∨ d.json ∈ sunk c (axumEvents tr) ∧
      ∀ s, t.sessions c = some s → (∃ result, s.phase = .ended result) ∨ d.req ∈ s.inFlight)

namespace Tunnel.Rests

theorem handler (hr : t.Rests serde encode) (h : TunnelRun serde encode config tr t)
    {k : Connection} (hk : t.axum.server.conns c = some k) :
    ∃ b, t.axum.bridges c = some b ∧ b.AtRest c (axumEvents tr) k :=
  bridge_at_rest (axumRun h) (hr.axum h) hk

/-- A client that takes anything has taken all that was enqueued, unless it is cut off. -/
theorem taken (hr : t.Rests serde encode) (h : TunnelRun serde encode config tr t) {s : Session}
    (hs : t.sessions c = some s) (hp : s.phase = .authWaiting ∨ s.phase = .running) {b : Bridge}
    {k : Connection} (hb : t.axum.bridges c = some b) (hk : t.axum.server.conns c = some k)
    (hrest : b.AtRest c (axumEvents tr) k) (hmain : b.main ≠ .returned)
    (hno : ¬ SinkFailed c (axumEvents tr)) :
    Outpunch.taken serde c tr = enqueued c (coreEvents tr) := by
  rcases linkOk_of_run h c with ⟨hnone, -⟩ | ⟨-, l, hl, hd, -⟩
  · obtain ⟨l, hl⟩ := link_of_conn h (by rw [hk]; simp)
    rw [hnone] at hl; cases hl
  · rw [hr.down hs hl hp, List.append_nil, linkTexts_putsDown,
      sunk_eq_enqueued h hb hk hrest hmain hno] at hd
    exact hd.symm

/-- A client gets the reply to its auth message, unless it is cut off. -/
theorem cut_of_authWaiting (hr : t.Rests serde encode) (h : TunnelRun serde encode config tr t)
    {s : Session} (hs : t.sessions c = some s) (hp : s.phase = .authWaiting) : t.Cut c tr := by
  have hcore := serverRun (axumRun h)
  obtain ⟨k, hk⟩ := Option.ne_none_iff_exists'.mp (conn_of_session h (by rw [hs]; simp))
  obtain ⟨b, hb, hrest⟩ := hr.handler h hk
  by_contra hcut
  rw [Tunnel.Cut, not_or] at hcut
  obtain ⟨hno, hmain⟩ := hcut
  have hmain : b.main ≠ .returned := fun hm => hmain ⟨b, hb, hm⟩
  -- it was sent nothing, so its first message was not taken
  have henq : enqueued c (coreEvents tr) = [] := by
    have hrep := (sessionOk_of_run h hs).replied
    rw [hp] at hrep
    rw [← hr.taken h hs (.inl hp) hb hk hrest hmain hno]
    exact hrep
  have hqueue := (outgoing_of_run hcore hk).queue
  have hphase : k.phase = .auth := by
    cases hrest with
    | returned _ hm _ _ => exact absurd hm hmain
    | reading hphase _ _ _ _ _ _ =>
        refine hphase.resolve_right fun ⟨service, hphase⟩ => ?_
        rw [hphase, henq] at hqueue
        cases hqueue
  have hdecided := decided_of_run hcore hk
  rw [hphase] at hdecided
  have hnone := (received_of_decisions hcore hk).1 hdecided
  obtain ⟨text, htext⟩ := List.exists_mem_of_ne_nil _ (sentUp_ne_nil h hs hp)
  obtain ⟨m, -, hm⟩ := hr.received h hb hk hrest hmain htext
  rw [hnone] at hm; cases hm

theorem session_atRest (hr : t.Rests serde encode) (h : TunnelRun serde encode config tr t)
    {s : Session} (hs : t.sessions c = some s) : s.AtRest (t.Cut c tr) := by
  rcases hr.session h hs with ⟨result, hp⟩ | hp | ⟨hp, hresp, hj⟩
  · exact .ended hp
  · exact .unanswered hp (hr.cut_of_authWaiting h hs hp)
  · exact .idle hp hresp hj

theorem link (hr : t.Rests serde encode) (h : TunnelRun serde encode config tr t)
    {s : Session} {l : Link} (hs : t.sessions c = some s) (hl : t.links c = some l)
    (hlive : s.Live) : l.down = [] ∧ (¬ t.Cut c tr → l.up = []) := by
  refine ⟨hr.down hs hl ?_, fun hcut => ?_⟩
  · rcases hr.session h hs with ⟨result, hp⟩ | hp | ⟨hp, -⟩
    · exact absurd hp (hlive result)
    · exact .inl hp
    · exact .inr hp
  · obtain ⟨k, hk⟩ := Option.ne_none_iff_exists'.mp (conn_of_session h (by rw [hs]; simp))
    obtain ⟨b, hb, hrest⟩ := hr.handler h hk
    cases hrest with
    | returned _ hm _ _ => exact absurd (.inr ⟨b, hb, hm⟩) hcut
    | reading _ hopen _ _ _ hreader _ => exact hr.up hb hk hl hreader hopen

section

variable (hserde : serde.RoundTrips)
include hserde

/-- A response that its client has sent is not waited for. -/
theorem not_waiting_of_sentUp (hr : t.Rests serde encode) (h : TunnelRun serde encode config tr t)
    {s : Session} (hs : t.sessions c = some s) {b : Bridge} {k : Connection} {service : String}
    (hb : t.axum.bridges c = some b) (hk : t.axum.server.conns c = some k)
    (hrest : b.AtRest c (axumEvents tr) k) (hrelay : k.phase = .relay service)
    {r : TunnelResponse} (htype : r.msgType = "response")
    (hsent : serializeResponse serde r ∈ sentUp serde c tr) :
    t.axum.server.state.pending r.requestId ≠ some { connId := c, tx := r.requestId } := by
  have hcore := serverRun (axumRun h)
  have hmain := hrest.not_returned hrelay
  obtain ⟨m, htext, hm⟩ := hr.received h hb hk hrest hmain hsent
  have hparse : parseMessage serde m.text = .ok (.response r) := by
    rw [htext]
    exact parseMessage_response hserde htype
  intro hpend
  rcases mem_received.mp hm with hauth | hrecv
  · -- the message it registered with is no response
    have hdecided := decided_of_run hcore hk
    rw [hrelay] at hdecided
    obtain ⟨m', hone, hv⟩ := hdecided
    have hmem : ConnEvent.authRecv m ∈ decisions c (coreEvents tr) :=
      Lts.mem_record.mpr ⟨_, hauth, Event.decides_eq_some.mpr ⟨rfl, rfl⟩⟩
    rw [hone] at hmem
    cases List.mem_singleton.mp hmem
    obtain ⟨m', msg, heq, hmsg, -⟩ := verdict_eq_some.mp hv
    cases heq
    cases hparse.symm.trans hmsg
  · rcases respond_of_relayRecv hcore hk hrecv hparse with ⟨s', hp⟩ | ⟨tx, hrespond⟩
    · rw [hrelay] at hp; cases hp
    · exact not_pending_of_respond hserde h hs hrespond hpend rfl

theorem dispatch (hr : t.Rests serde encode) (h : TunnelRun serde encode config tr t)
    {d : Dispatch} (hd : t.axum.server.dispatches q = some d) (hrun : d.phase.running) :
    ∃ c, d.phase = .waiting c ∧ (SinkFailed c (axumEvents tr) ∨ d.json ∈ sunk c (axumEvents tr) ∧
      ∀ s, t.sessions c = some s → (∃ result, s.phase = .ended result) ∨ d.req ∈ s.inFlight) := by
  have hcore := serverRun (axumRun h)
  obtain ⟨c, k, hp, -, hpend, hk, hrelay⟩ := ((hr.axum h).server (axumRun h)).dispatch hcore hd hrun
  obtain ⟨b, hb, hrest⟩ := hr.handler h hk
  have hmain := hrest.not_returned hrelay
  refine ⟨c, hp, or_iff_not_imp_left.mpr fun hno => ?_⟩
  -- its request was enqueued
  obtain ⟨json, hsend⟩ := sent_of_waiting hcore hd hp
  obtain ⟨-, incoming, hin, rfl⟩ := sent_of_run hcore hsend
  obtain ⟨d', hd', hreq, hjson⟩ := dispatch_of_request hcore hin
  cases hd.symm.trans hd'
  have henq : d.json ∈ enqueued c (coreEvents tr) :=
    hjson ▸ Lts.mem_record.mpr ⟨_, hsend, if_pos rfl⟩
  refine ⟨sunk_eq_enqueued h hb hk hrest hmain hno ▸ henq, fun s hs => ?_⟩
  rcases hr.session h hs with hended | hwait | ⟨hrunning, hresp, -⟩
  · exact .inl hended
  · rcases hr.cut_of_authWaiting h hs hwait with hfail | ⟨b', hb', hm⟩
    · exact absurd hfail hno
    · cases hb.symm.trans hb'
      exact absurd hm hmain
  · have hstarted : d.req ∈ started serde c tr := by
      rw [started_eq_taken hserde h, hr.taken h hs (.inr hrunning) hb hk hrest hmain hno]
      refine List.mem_filterMap.mpr ⟨d.json, henq, ?_⟩
      rw [hjson, hreq, requestOf_serializeRequest hserde]
    have hlive : s.Live := fun result he => by rw [hrunning] at he; cases he
    refine .inr ((inFlight_or_responded h hs hlive hstarted).resolve_right ?_)
    rintro ⟨result, hmem | hsent⟩
    · rw [hresp] at hmem; cases hmem
    · obtain ⟨htype, hid⟩ := forwardResponse_spec encode d.req result
      refine hr.not_waiting_of_sentUp hserde h hs hb hk hrest hrelay htype hsent ?_
      rw [hid, hreq]
      exact hpend

/-- **Nothing waits in vain** in a tunnel at rest. -/
theorem atRest (hr : t.Rests serde encode) (h : TunnelRun serde encode config tr t) :
    t.AtRest tr where
  handler := hr.handler h
  session := hr.session_atRest h
  link := hr.link h
  dispatch := hr.dispatch hserde h

end

end Tunnel.Rests

end Outpunch
