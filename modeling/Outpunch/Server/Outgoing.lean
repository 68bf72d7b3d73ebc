import Outpunch.Server.Queues

/-!
# Server — what is enqueued on a connection

The outgoing queue of a connection is written by `handle_auth`, once, and by dispatches that hold
its sender.  Dispatches get the sender from the registry, so they come after the registration,
and that comes after the reply: the queue was given nothing, one `auth_error`, or `auth_ok`
followed by requests assigned to the connection (`outgoing_of_run`).
-/

namespace Outpunch

variable {serde : SerdeJson} {config : ServerConfig} {tr : List Event} {w : World} {c : ConnId}

/-! ### Requests -/

/-- A request is sent to the connection it was assigned to, as the text of what was asked for. -/
theorem sent_of_run (h : ServerRun serde config tr w) {q : RequestId} {json : String}
    (hs : .send q c json ∈ tr) :
    .assign q c c ∈ tr ∧ ∃ incoming, .request q incoming ∈ tr ∧
      json = serializeRequest serde (buildTunnelRequest q incoming) := by
  obtain ⟨tr₁, tr₂, u, u', rfl, hr, hstep, -⟩ := h.of_mem hs
  cases hstep with
  | send hq hp _ _ =>
      obtain ⟨incoming, hin, -, hjson⟩ := requested_of_run hr hq
      exact ⟨List.mem_append_left _ (assign_of_sender hr hq (by rw [hp]; rfl)), incoming,
        List.mem_append_left _ hin, hjson⟩

/-- What an assigned request was assigned to has registered for its service. -/
theorem register_of_assign (h : ServerRun serde config tr w) {q : RequestId} {tx : OutgoingTx}
    (ha : .assign q c tx ∈ tr) :
    ∃ incoming, .request q incoming ∈ tr ∧ .register c incoming.service ∈ tr := by
  obtain ⟨tr₁, tr₂, u, u', rfl, hr, hs, -⟩ := h.of_mem ha
  obtain ⟨-, d, hd, -, hserv⟩ := hs.assign_inv (wf_of_run hr)
  obtain ⟨incoming, hin, hreq, -⟩ := requested_of_run hr hd
  rw [hreq] at hserv
  exact ⟨incoming, List.mem_append_left _ hin, List.mem_append_left _
    ((registeredFor_iff hr).mp (World.registeredFor_of_serving hserv))⟩

theorem Event.sends_eq_some {e : Event} {q : RequestId} {json : String} :
    e.sends c = some (q, json) ↔ e = .send q c json := by
  cases e with
  | send q' tx json' => simp [Event.sends]; tauto
  | _ => simp [Event.sends]

theorem mem_sentTo {q : RequestId} {json : String} :
    (q, json) ∈ sentTo c tr ↔ .send q c json ∈ tr := by
  rw [sentTo, Lts.mem_record]
  constructor
  · rintro ⟨e, he, hs⟩
    rwa [← Event.sends_eq_some.mp hs]
  · exact fun h => ⟨_, h, Event.sends_eq_some.mpr rfl⟩

/-- Nothing was sent to a connection that has not registered. -/
theorem sentTo_of_unregistered (h : ServerRun serde config tr w)
    (hreg : w.registeredFor c = none) : sentTo c tr = [] := by
  refine List.eq_nil_iff_forall_not_mem.mpr fun p hp => ?_
  obtain ⟨ha, -⟩ := sent_of_run h (mem_sentTo.mp hp)
  obtain ⟨incoming, -, hr⟩ := register_of_assign h ha
  rw [(registeredFor_iff h).mpr hr] at hreg
  cases hreg

/-! ### Replies -/

/-- `text` is a reply of `handle_auth` that returns `service`. -/
def IsReply (serde : SerdeJson) (text : String) : Option String → Prop
  | some _ => text = authOkText serde
  | none => ∃ message, text = authErrorText serde message

/-- What was enqueued on a connection whose `run` stands at a phase; `requests` is what dispatches
sent. -/
def Outgoing (serde : SerdeJson) (enqueued requests : List String) : Phase → Prop
  | .created | .auth | .check _ => enqueued = []
  | .reply text service => enqueued = [] ∧ IsReply serde text service
  | .leaving none | .joining none | .done none =>
    enqueued = [] ∨ ∃ message, enqueued = [authErrorText serde message]
  | _ => enqueued = authOkText serde :: requests

/-- A step of `run` that enqueues nothing. -/
theorem Phase.Next.outgoing {p p' : Phase} {e : ConnEvent} (h : Phase.Next serde config p e p')
    (hr : ∀ text, e ≠ .reply text) (hl : e ≠ .replyLost) {enq reqs : List String}
    (ho : Outgoing serde enq reqs p) : Outgoing serde enq reqs p' := by
  cases h with
  | authTimeout | authReject _ => exact ⟨ho, _, rfl⟩
  | authClosed => exact .inl ho
  | accept _ => exact ⟨ho, rfl⟩
  | refuse _ => exact ⟨ho, _, rfl⟩
  | replied he | refused he =>
      rcases he with rfl | rfl
      · exact absurd rfl (hr _)
      · exact absurd rfl hl
  | @dropOutgoing s => cases s <;> exact ho
  | _ => exact ho

/-- `run` does not take its sender back. -/
theorem Phase.Next.holdsOutgoing {p p' : Phase} {e : ConnEvent}
    (h : Phase.Next serde config p e p') (hp : p.holdsOutgoing = false) :
    p'.holdsOutgoing = false := by
  cases h <;> first | exact hp | cases hp

/-- The phases of a connection that has registered: its queue holds `auth_ok`, then requests. -/
theorem outgoing_of_registeredFor {p : Phase} {s : String} (hp : p.registeredFor = some s)
    {enq reqs : List String} :
    Outgoing serde enq reqs p ↔ enq = authOkText serde :: reqs := by
  cases p with
  | leaving o | joining o | done o =>
      cases hp
      exact Iff.rfl
  | registered _ _ | closing _ _ | relay _ | respond _ _ _ | cleanup _ => exact Iff.rfl
  | _ => cases hp

/-- What is enqueued on a connection: the drain task ends only after a message was enqueued or
after `run` has dropped its sender, so a reply always finds a receiver. -/
structure OutgoingOk (serde : SerdeJson) (c : ConnId) (tr : List Event) (k : Connection) :
    Prop where
  queue : Outgoing serde (enqueued c tr) ((sentTo c tr).map Prod.snd) k.phase
  ended : k.drain = .ended → enqueued c tr ≠ [] ∨ k.phase.holdsOutgoing = false

/-- An event that enqueues nothing. -/
theorem OutgoingOk.quiet {e : Event} {k : Connection} (he : e.enqueues c = none)
    (hs : e.sends c = none) (h : OutgoingOk serde c tr k) : OutgoingOk serde c (tr ++ [e]) k := by
  have he : enqueued c (tr ++ [e]) = enqueued c tr := Lts.record_snoc_of_none he
  have hs : sentTo c (tr ++ [e]) = sentTo c tr := Lts.record_snoc_of_none hs
  exact ⟨by rw [he, hs]; exact h.queue, by rw [he]; exact h.ended⟩

/-- The reply is the first message, and no request is sent before the registration. -/
theorem OutgoingOk.reply {k : Connection} {text : String} {service : Option String}
    (hr : ServerRun serde config tr w) (hk : w.conns c = some k) (h : OutgoingOk serde c tr k)
    (hp : k.phase = .reply text service) :
    OutgoingOk serde c (tr ++ [Event.conn c (.reply text)])
      { k with outgoing := k.outgoing ++ [text], phase := Connection.authReturned service } := by
  have ho := h.queue
  rw [hp] at ho
  obtain ⟨hnil, hreply⟩ := ho
  have hsent : sentTo c tr = [] :=
    sentTo_of_unregistered hr ((World.observe_eq _ hk).trans (by rw [hp]; rfl))
  have he : enqueued c (tr ++ [Event.conn c (.reply text)]) = [text] := by
    have : enqueued c (tr ++ [Event.conn c (.reply text)]) = enqueued c tr ++ [text] :=
      Lts.record_snoc_of_some (if_pos rfl)
    rw [this, hnil]; rfl
  have hs : sentTo c (tr ++ [Event.conn c (.reply text)]) = sentTo c tr :=
    Lts.record_snoc_of_none rfl
  refine ⟨?_, fun _ => .inl (by simp [he])⟩
  rw [he, hs, hsent]
  cases service with
  | some s => exact congrArg (fun text => [text]) hreply
  | none =>
      obtain ⟨message, rfl⟩ := hreply
      exact .inr ⟨message, rfl⟩

/-- A step of the connection's own tasks. -/
theorem OutgoingOk.step {k k' : Connection} {e : ConnEvent} (hr : ServerRun serde config tr w)
    (hk : w.conns c = some k) (h : OutgoingOk serde c tr k)
    (hs : Connection.Step serde w.state.config k e k') :
    OutgoingOk serde c (tr ++ [Event.conn c e]) k' := by
  have hn := hs.next
  have drained : k'.drain = k.drain →
      (k'.drain = .ended → enqueued c tr ≠ [] ∨ k'.phase.holdsOutgoing = false) :=
    fun he hd => (h.ended (he ▸ hd)).imp_right hn.holdsOutgoing
  cases hs with
  | reply hp _ => exact h.reply hr hk hp
  | replyLost hp hend =>
      have ho := h.queue
      rw [hp] at ho
      rcases h.ended hend with hne | hno
      · exact absurd ho.1 hne
      · rw [hp] at hno; cases hno
  | panic hdr hout =>
      refine .quiet rfl rfl ⟨hn.outgoing (by simp) (by simp) h.queue, fun _ => .inl ?_⟩
      have hq := queueInv_of_run hr hk
      rw [hdr, hout] at hq
      obtain ⟨taken, henq, -⟩ := hq
      rw [henq]
      simp
  | run _ =>
      exact .quiet rfl rfl ⟨hn.outgoing (by simp) (by simp) h.queue, fun hd => by cases hd⟩
  | _ => exact .quiet rfl rfl ⟨hn.outgoing (by simp) (by simp) h.queue, drained rfl⟩

/-- A dispatch sends to a connection that has registered, so after the reply. -/
theorem OutgoingOk.send {k : Connection} {q : RequestId} {json : String} {w' : World}
    (hr : ServerRun serde config tr w) (hk : w.conns c = some k) (h : OutgoingOk serde c tr k)
    (hs : Step serde w (.send q c json) w') :
    OutgoingOk serde c (tr ++ [Event.send q c json])
      { k with outgoing := k.outgoing ++ [json] } := by
  obtain ⟨s, hreg⟩ : ∃ s, k.phase.registeredFor = some s := by
    cases hs with
    | send hq hp _ _ =>
        exact ⟨_, (World.observe_eq _ hk).symm.trans
          (((wf_of_run hr).dispatch hq).sender c (by rw [hp]; rfl))⟩
  have he : enqueued c (tr ++ [Event.send q c json]) = enqueued c tr ++ [json] :=
    Lts.record_snoc_of_some (if_pos rfl)
  have hs : sentTo c (tr ++ [Event.send q c json]) = sentTo c tr ++ [(q, json)] :=
    Lts.record_snoc_of_some (if_pos rfl)
  have ho := h.queue
  rw [outgoing_of_registeredFor hreg] at ho
  refine ⟨?_, fun _ => .inl (by simp [he])⟩
  rw [he, hs, outgoing_of_registeredFor hreg, ho, List.map_append]
  rfl

theorem OutgoingOk.move {k k' : Connection} {e : Event} {w' : World}
    (hr : ServerRun serde config tr w) (hk : w.conns c = some k) (h : OutgoingOk serde c tr k)
    (hstep : Step serde w e w') (hm : Connection.Move serde w c k e k') :
    OutgoingOk serde c (tr ++ [e]) k' := by
  have ho := h.queue
  cases hm with
  | own hs => exact h.step hr hk hs
  | send _ => exact h.send hr hk hstep
  | register hp | closeReplaced hp _ | respond hp | cleanup hp =>
      rw [hp] at ho
      refine .quiet rfl rfl ⟨ho, fun hd => (h.ended hd).imp_right fun hh => ?_⟩
      rw [hp] at hh; cases hh
  | @runReturned s hp _ =>
      rw [hp] at ho
      exact .quiet rfl rfl ⟨by cases s <;> exact ho, fun _ => .inr rfl⟩
  | drainEnd _ _ hh =>
      refine .quiet rfl rfl ⟨ho, fun _ => .inr ?_⟩
      cases hp : k.phase.holdsOutgoing with
      | false => rfl
      | true => exact absurd ⟨k, hk, hp⟩ (hh .run)
  | closed _ => exact .quiet rfl rfl ⟨ho, h.ended⟩
  | other hno =>
      exact h.quiet (Event.recordOf_enqueues.other hno) (Event.recordOf_sends.other hno)

/-- **What is enqueued on a connection**, in every run. -/
theorem outgoing_of_run (h : ServerRun serde config tr w) {k : Connection}
    (hk : w.conns c = some k) : OutgoingOk serde c tr k :=
  conn_invariant (OutgoingOk serde c)
    (fun hno => ⟨Event.recordOf_enqueues.new hno, fun hd => by cases hd⟩)
    (fun hr hk ih hstep hm => ih.move hr hk hstep hm) h hk

/-- **The handshake comes first**: what was enqueued on a connection is nothing, one `auth_error`,
or `auth_ok` and then the requests it was sent. -/
theorem enqueued_shape (h : ServerRun serde config tr w) (c : ConnId) :
    enqueued c tr = [] ∨ (∃ message, enqueued c tr = [authErrorText serde message]) ∨
      enqueued c tr = authOkText serde :: (sentTo c tr).map Prod.snd := by
  cases hk : w.conns c with
  | none =>
      have hno := not_concerns_of_absent h hk
      exact .inl (Lts.record_eq_nil.mpr fun e he => Event.recordOf_enqueues.other (hno e he))
  | some k =>
      have ho := (outgoing_of_run h hk).queue
      cases hp : k.phase with
      | created | auth | check _ => rw [hp] at ho; exact .inl ho
      | reply _ _ => rw [hp] at ho; exact .inl ho.1
      | leaving o | joining o | done o =>
          rw [hp] at ho
          cases o with
          | none => exact ho.imp_right .inl
          | some _ => exact .inr (.inr ho)
      | _ => rw [hp] at ho; exact .inr (.inr ho)

end Outpunch
