import Outpunch.Server.Invariants

/-!
# Server — what the history of a run says of its state

Each lemma reads a part of the state a run reaches back into the events that led there: the
request a dispatch was made from, the connection a dispatch or a parked entry was assigned to, the
registration of a connection, the message a relay loop is handling.  The other way round, an event
of the history leaves its mark in every later state.
-/

namespace Outpunch

variable {serde : SerdeJson} {config : ServerConfig} {tr : List Event} {w : World}

/-! ### Inversion of single events -/

section

variable {w' : World} {q : RequestId} {c : ConnId}

theorem Step.conn_inv {e : ConnEvent} (h : Step serde w (.conn c e) w') :
    ∃ k k', w.conns c = some k ∧ Connection.Step serde w.state.config k e k' ∧
      w'.conns c = some k' := by
  cases h with | conn hk hs => exact ⟨_, _, hk, hs, World.setConn_conns_same⟩

theorem Step.respond_inv {m : Pushed} {r : TunnelResponse} {tx : Option ResponseTx}
    (h : Step serde w (.respond c m r tx) w') :
    (∃ k s, w.conns c = some k ∧ k.phase = .respond s m r) ∧
      tx = (w.state.claim c r.requestId).1 := by
  cases h with | respond hk hp => exact ⟨⟨_, _, hk, hp⟩, rfl⟩

/-- The entry behind a response that answers a dispatch. -/
theorem Step.respond_some_inv {m : Pushed} {r : TunnelResponse}
    (h : Step serde w (.respond c m r (some q)) w') (hw : w.Wf) :
    q = r.requestId ∧ w.state.pending q = some { connId := c, tx := q } ∧
      w'.state.pending q = none := by
  have hcl := h.respond_inv.2.symm
  obtain ⟨hpend, herase⟩ := ServerState.claim_some hcl
  have hq : q = r.requestId := (hw.pending hpend).1
  refine ⟨hq, by rw [← hq] at hpend; exact hpend, ?_⟩
  rw [h.pending hw, Event.onPending, herase, ← hq]
  exact PartialMap.erase_same ..

theorem Step.ret_ok_inv {r : TunnelResponse} (h : Step serde w (.ret q (.ok r)) w') :
    ∃ d tx, w.dispatches q = some d ∧ d.phase = .waiting tx ∧ d.resp = some r := by
  cases h with | answered hq hp hr => exact ⟨_, _, hq, hp, hr⟩

theorem Step.assign_inv {tx : OutgoingTx} (h : Step serde w (.assign q c tx) w') (hw : w.Wf) :
    tx = c ∧ ∃ d, w.dispatches q = some d ∧ d.phase = .locking ∧
      w.serving c = some d.req.service := by
  cases h with
  | assign hq hp hs =>
      obtain ⟨⟨hone, -⟩, hserv⟩ := hw.service (ServerState.park_eq_some.mp hs).1
      exact ⟨hone, _, hq, hp, hserv⟩

/-- An entry was there before, or its dispatch was just assigned. -/
theorem Step.pending_inv {e : Event} (h : Step serde w e w') (hw : w.Wf) {p : PendingRequest}
    (hp : w'.state.pending q = some p) :
    w.state.pending q = some p ∨ e = .assign q p.connId p.connId := by
  rw [h.pending hw] at hp
  cases e with
  | assign q' c tx =>
      rcases PartialMap.insert_eq_some.mp hp with ⟨rfl, rfl⟩ | ⟨-, hp⟩
      · obtain ⟨rfl, -⟩ := h.assign_inv hw
        exact .inr rfl
      · exact .inl hp
  | respond c m r tx =>
      cases hcl : (w.state.claim c r.requestId).1 with
      | none => rw [Event.onPending, ServerState.claim_none hcl] at hp; exact .inl hp
      | some q =>
          rw [Event.onPending, (ServerState.claim_some hcl).2] at hp
          exact .inl (PartialMap.erase_eq_some.mp hp).2
  | cleanup c s => exact .inl (PartialMap.retain_eq_some.mp hp).1
  | ret q r =>
      cases r with
      | ok r => exact .inl hp
      | error err => exact .inl (PartialMap.erase_eq_some.mp hp).2
  | _ => exact .inl hp

/-- A dispatch that has left the lock behind and has no entry gets none. -/
theorem Step.pending_none {e : Event} (h : Step serde w e w') (hw : w.Wf) {d : Dispatch}
    (hd : w.dispatches q = some d) (hp : d.phase ≠ .locking) (hn : w.state.pending q = none) :
    w'.state.pending q = none := by
  refine Option.eq_none_iff_forall_ne_some.mpr fun p hpend => ?_
  rcases h.pending_inv hw hpend with hpend | rfl
  · rw [hn] at hpend; cases hpend
  · obtain ⟨-, d', hd', hp', -⟩ := h.assign_inv hw
    cases hd.symm.trans hd'
    exact hp hp'

/-- A dispatch that has looked its service up never does so again. -/
theorem Dispatch.Move.ne_locking {d d' : Dispatch} {e : Event} (hm : Dispatch.Move w q d e d')
    (hp : d.phase ≠ .locking) : d'.phase ≠ .locking := by
  cases hm with
  | respond _ => unfold Dispatch.answer; split <;> exact hp
  | other _ => exact hp
  | _ => simp

/-- A dispatch that is over moves no more. -/
theorem Dispatch.Move.over {d d' : Dispatch} {e : Event} (hm : Dispatch.Move w q d e d')
    (hp : d.phase.running = false) : d'.phase = d.phase := by
  cases hm with
  | notConnected hp' _ | assign hp' _ | send hp' | answered hp' _ | failed hp' =>
      rw [hp'] at hp; cases hp
  | fail hp' => rcases hp' with hp' | hp' <;> rw [hp'] at hp <;> cases hp
  | cancel hp' => rw [hp'] at hp; cases hp
  | respond _ => unfold Dispatch.answer; split <;> rfl
  | other _ => rfl

theorem Dispatch.Move.req {d d' : Dispatch} {e : Event} (hm : Dispatch.Move w q d e d') :
    d'.req = d.req ∧ d'.json = d.json := by
  cases hm with
  | respond _ => unfold Dispatch.answer; split <;> exact ⟨rfl, rfl⟩
  | _ => exact ⟨rfl, rfl⟩

end

/-! ### Dispatches -/

/-- **Invariants of one dispatch and its history**: they hold of a dispatch just requested and are
kept by each of its moves. -/
theorem dispatch_invariant {q : RequestId} (P : List Event → Dispatch → Prop)
    (hnew : ∀ {tr incoming}, P (tr ++ [Event.request q incoming])
      { req := buildTunnelRequest q incoming
        json := serializeRequest serde (buildTunnelRequest q incoming)
        resp := none
        phase := .locking })
    (hmove : ∀ {tr w d e w' d'}, ServerRun serde config tr w → w.dispatches q = some d → P tr d →
      Step serde w e w' → Dispatch.Move w q d e d' → P (tr ++ [e]) d')
    (h : ServerRun serde config tr w) {d : Dispatch} (hd : w.dispatches q = some d) : P tr d := by
  refine h.invariant (fun tr w => ∀ d, w.dispatches q = some d → P tr d) (fun d hd => by cases hd)
    (fun hr ih hs d' hd' => ?_) d hd
  rcases hs.dispatch_move_inv hd' with ⟨-, incoming, rfl, rfl⟩ | ⟨d, hd, hm⟩
  · exact hnew
  · exact hmove hr hd (ih d hd) hs hm

/-- A dispatch was requested, and is of that request. -/
theorem requested_of_run (h : ServerRun serde config tr w) {q : RequestId} {d : Dispatch}
    (hd : w.dispatches q = some d) :
    ∃ incoming, .request q incoming ∈ tr ∧ d.req = buildTunnelRequest q incoming ∧
      d.json = serializeRequest serde (buildTunnelRequest q incoming) := by
  refine dispatch_invariant (fun tr d => ∃ incoming, .request q incoming ∈ tr ∧
    d.req = buildTunnelRequest q incoming ∧
      d.json = serializeRequest serde (buildTunnelRequest q incoming))
    ⟨_, by simp, rfl, rfl⟩ (fun _ _ ih _ hm => ?_) h hd
  obtain ⟨incoming, hin, hreq, hjson⟩ := ih
  exact ⟨incoming, List.mem_append_left _ hin, hm.req.1.trans hreq, hm.req.2.trans hjson⟩

/-- A request that was made has a dispatch, which is of that request. -/
theorem dispatch_of_request (h : ServerRun serde config tr w) {q : RequestId}
    {incoming : IncomingRequest} (hin : .request q incoming ∈ tr) :
    ∃ d, w.dispatches q = some d ∧ d.req = buildTunnelRequest q incoming ∧
      d.json = serializeRequest serde (buildTunnelRequest q incoming) := by
  refine h.invariant (fun tr w => .request q incoming ∈ tr →
    ∃ d, w.dispatches q = some d ∧ d.req = buildTunnelRequest q incoming ∧
      d.json = serializeRequest serde (buildTunnelRequest q incoming)) (fun hin => by cases hin)
    (fun _ ih hs hin => ?_) hin
  rcases List.mem_append.mp hin with hin | hin
  · obtain ⟨d, hd, hreq, hjson⟩ := ih hin
    obtain ⟨d', hd', hm⟩ := hs.dispatch_move hd
    exact ⟨d', hd', hm.req.1.trans hreq, hm.req.2.trans hjson⟩
  · obtain rfl := List.mem_singleton.mp hin
    cases hs with
    | request _ => exact ⟨_, World.setDispatch_dispatches_same, rfl, rfl⟩

/-- An assignment is to one connection, and its dispatch has left the lock behind. -/
theorem assigned_of_run (h : ServerRun serde config tr w) {q : RequestId} {c : ConnId}
    {tx : OutgoingTx} (ha : .assign q c tx ∈ tr) :
    tx = c ∧ ∃ d, w.dispatches q = some d ∧ d.phase ≠ .locking := by
  refine h.invariant (fun tr w => .assign q c tx ∈ tr →
    tx = c ∧ ∃ d, w.dispatches q = some d ∧ d.phase ≠ .locking) (fun ha => by cases ha)
    (fun hr ih hs ha => ?_) ha
  rcases List.mem_append.mp ha with ha | ha
  · obtain ⟨htx, d, hd, hp⟩ := ih ha
    obtain ⟨d', hd', hm⟩ := hs.dispatch_move hd
    exact ⟨htx, d', hd', hm.ne_locking hp⟩
  · obtain rfl := List.mem_singleton.mp ha
    refine ⟨(hs.assign_inv (wf_of_run hr)).1, ?_⟩
    cases hs with
    | assign _ _ _ => exact ⟨_, World.setDispatch_dispatches_same, by simp⟩

/-- A dispatch is assigned once. -/
theorem assigned_unique (h : ServerRun serde config tr w) {q : RequestId} {c c' : ConnId}
    {tx tx' : OutgoingTx} (ha : .assign q c tx ∈ tr) (ha' : .assign q c' tx' ∈ tr) : c = c' := by
  refine h.invariant (fun tr _ => ∀ {c c' tx tx'}, .assign q c tx ∈ tr → .assign q c' tx' ∈ tr →
    c = c') (fun ha => by cases ha) (fun {tr w e w'} hr ih hs {c c' tx tx'} ha ha' => ?_) ha ha'
  have again : ∀ {c c' tx tx'}, .assign q c tx ∈ tr → e ≠ .assign q c' tx' := by
    intro _ _ _ _ h₁ he
    subst he
    obtain ⟨-, d, hd, hp⟩ := assigned_of_run hr h₁
    obtain ⟨-, d', hd', hp', -⟩ := hs.assign_inv (wf_of_run hr)
    cases hd.symm.trans hd'
    exact hp hp'
  rcases List.mem_append.mp ha with ha | ha <;> rcases List.mem_append.mp ha' with ha' | ha'
  · exact ih ha ha'
  · exact absurd (List.mem_singleton.mp ha').symm (again ha)
  · exact absurd (List.mem_singleton.mp ha).symm (again ha')
  · cases (List.mem_singleton.mp ha).trans (List.mem_singleton.mp ha').symm
    rfl

/-- A sender a dispatch holds is that of the connection it was assigned to. -/
theorem assign_of_sender (h : ServerRun serde config tr w) {q : RequestId} {d : Dispatch}
    {c : ConnId} (hd : w.dispatches q = some d) (hp : d.phase.outgoingTx = some c) :
    .assign q c c ∈ tr := by
  refine dispatch_invariant (fun tr d => d.phase.outgoingTx = some c → .assign q c c ∈ tr)
    (fun hp => by cases hp) (fun {tr w d e w' d'} hr hd ih hs hm hp => ?_) h hd hp
  have old : d.phase.outgoingTx = some c → Event.assign q c c ∈ tr ++ [e] := fun hp =>
    List.mem_append_left _ (ih hp)
  cases hm with
  | notConnected _ _ | answered _ _ | failed _ | cancel _ => cases hp
  | assign hph hserv =>
      obtain ⟨⟨hone, -⟩, -⟩ := (wf_of_run hr).service hserv
      cases hp
      simp [hone]
  | send hph => exact old (by rw [hph]; exact hp)
  | fail hph => exact old (by rcases hph with hph | hph <;> rw [hph] <;> exact hp)
  | respond _ => exact old (by revert hp; unfold Dispatch.answer; split <;> exact id)
  | other _ => exact old hp

/-- A parked entry is of the connection its dispatch was assigned to. -/
theorem assign_of_pending (h : ServerRun serde config tr w) {id : RequestId} {p : PendingRequest}
    (hp : w.state.pending id = some p) : .assign id p.connId p.connId ∈ tr := by
  refine h.invariant (fun tr w => ∀ p, w.state.pending id = some p →
    .assign id p.connId p.connId ∈ tr) (fun p hp => by cases hp) (fun hr ih hs p hp => ?_) p hp
  rcases hs.pending_inv (wf_of_run hr) hp with hp | rfl
  · exact List.mem_append_left _ (ih p hp)
  · simp

/-- A dispatch that has returned stays as it returned. -/
theorem returned_of_run (h : ServerRun serde config tr w) {q : RequestId}
    {r : Except TunnelError TunnelResponse} (hr : .ret q r ∈ tr) :
    ∃ d, w.dispatches q = some d ∧ d.phase = .returned r := by
  refine h.invariant (fun tr w => .ret q r ∈ tr →
    ∃ d, w.dispatches q = some d ∧ d.phase = .returned r) (fun hr => by cases hr)
    (fun _ ih hs hr => ?_) hr
  rcases List.mem_append.mp hr with hr | hr
  · obtain ⟨d, hd, hp⟩ := ih hr
    obtain ⟨d', hd', hm⟩ := hs.dispatch_move hd
    exact ⟨d', hd', (hm.over (by rw [hp]; rfl)).trans hp⟩
  · obtain rfl := List.mem_singleton.mp hr
    cases hs with
    | notConnected _ _ _ | answered _ _ _ | failed _ _ =>
        exact ⟨_, World.setDispatch_dispatches_same, rfl⟩

/-- A dispatch whose future was dropped stays so. -/
theorem cancelled_of_run (h : ServerRun serde config tr w) {q : RequestId}
    (hc : .cancel q ∈ tr) : ∃ d, w.dispatches q = some d ∧ d.phase = .cancelled := by
  refine h.invariant (fun tr w => .cancel q ∈ tr →
    ∃ d, w.dispatches q = some d ∧ d.phase = .cancelled) (fun hc => by cases hc)
    (fun _ ih hs hc => ?_) hc
  rcases List.mem_append.mp hc with hc | hc
  · obtain ⟨d, hd, hp⟩ := ih hc
    obtain ⟨d', hd', hm⟩ := hs.dispatch_move hd
    exact ⟨d', hd', (hm.over (by rw [hp]; rfl)).trans hp⟩
  · obtain rfl := List.mem_singleton.mp hc
    cases hs with
    | cancel _ _ => exact ⟨_, World.setDispatch_dispatches_same, rfl⟩

/-! ### Connections -/

/-- An event concerns a connection that is there, or makes it. -/
theorem Step.conn_of_concerns {w' : World} {e : Event} {c : ConnId} (hs : Step serde w e w')
    (hw : w.Wf) (hc : e.ConcernsConn c) : (∃ k, w.conns c = some k) ∨ e = .create c := by
  cases hs with
  | create => exact .inr (congrArg Event.create hc)
  | conn hk _ | register hk _ | respond hk _ | cleanup hk _ | drainEnd hk _ _ _
  | runReturned hk _ _ | send _ _ hk _ => exact .inl ⟨_, hc ▸ hk⟩
  | closeReplaced hk hp =>
      rcases hc with rfl | rfl
      · exact .inl ⟨_, hk⟩
      · obtain ⟨k, hk, -⟩ := World.observe_eq_some (hw.closing hk hp).2
        exact .inl ⟨k, hk⟩
  | _ => exact hc.elim

/-- Nothing concerned a connection that is not there. -/
theorem not_concerns_of_absent (h : ServerRun serde config tr w) {c : ConnId}
    (hc : w.conns c = none) : ∀ e ∈ tr, ¬ e.ConcernsConn c := by
  refine h.invariant (fun tr w => w.conns c = none → ∀ e ∈ tr, ¬ e.ConcernsConn c)
    (fun _ e he => by cases he) (fun {tr w e w'} hr ih hs hnone e' he' hcon => ?_) hc
  have hw := wf_of_run hr
  have absent : ∀ k, w.conns c ≠ some k := by
    intro k hk
    obtain ⟨k', hk', -⟩ := hs.move hw.fresh hw.closesOthers hk
    rw [hnone] at hk'; cases hk'
  rcases List.mem_append.mp he' with he' | he'
  · exact ih (Option.eq_none_iff_forall_ne_some.mpr absent) e' he' hcon
  · obtain rfl := List.mem_singleton.mp he'
    rcases hs.conn_of_concerns hw hcon with ⟨k, hk⟩ | rfl
    · exact absent k hk
    · cases hs with
      | create => rw [World.setConn_conns_same (w := w)] at hnone; cases hnone

/-- **Invariants of one connection and its history**: they hold of a connection just made, which
nothing concerned before, and are kept by each of its moves. -/
theorem conn_invariant {c : ConnId} (P : List Event → Connection → Prop)
    (hnew : ∀ {tr}, (∀ e ∈ tr, ¬ e.ConcernsConn c) → P (tr ++ [Event.create c]) .new)
    (hmove : ∀ {tr w k e w' k'}, ServerRun serde config tr w → w.conns c = some k → P tr k →
      Step serde w e w' → Connection.Move serde w c k e k' → P (tr ++ [e]) k')
    (h : ServerRun serde config tr w) {k : Connection} (hk : w.conns c = some k) : P tr k := by
  refine h.invariant (fun tr w => ∀ k, w.conns c = some k → P tr k) (fun k hk => by cases hk)
    (fun hr ih hs k' hk' => ?_) k hk
  have hw := wf_of_run hr
  rcases hs.move_inv hw.fresh hw.closesOthers hk' with ⟨hnone, rfl, rfl⟩ | ⟨k, hk, hm⟩
  · exact hnew (not_concerns_of_absent hr hnone)
  · exact hmove hr hk (ih k hk) hs hm

/-- The drain task is spawned by `run`. -/
theorem drain_idle_iff (h : ServerRun serde config tr w) {c : ConnId} {k : Connection}
    (hk : w.conns c = some k) : k.drain = .idle ↔ k.phase = .created := by
  refine conn_invariant (fun _ k => k.drain = .idle ↔ k.phase = .created)
    (fun _ => iff_of_true rfl rfl) (fun _ _ ih _ hm => ?_) h hk
  -- a step of `run` after the first: the task is there before and after
  have later : ∀ {p p' : Phase} {d : Drain}, (d = .idle ↔ p = .created) → p ≠ .created →
      p' ≠ .created → (d = .idle ↔ p' = .created) := fun ih hp hp' =>
    iff_of_false (fun hd => hp (ih.mp hd)) hp'
  cases hm with
  | own hs =>
      cases hs with
      | run _ => exact iff_of_false (by simp) (by simp)
      | deliver hd _ | discard hd _ => exact ih
      | panic hd _ => exact iff_of_false (by simp) fun hp => by rw [ih.mpr hp] at hd; cases hd
      | onMessage | push _ _ | pushClosed _ | sent _ _ _ | gone _ | close => exact ih
      | authTimeout hp | authClosed hp _ | relayClosed hp _ | dropOutgoing hp =>
          exact later ih (by rw [hp]; simp) (by simp)
      | authRecv hp _ =>
          refine later ih (by rw [hp]; simp) ?_
          rcases Connection.authNext_cases _ with ⟨_, -, e⟩ | ⟨-, e⟩ <;> rw [e] <;> simp
      | check hp =>
          refine later ih (by rw [hp]; simp) ?_
          unfold Connection.checkNext
          split <;> simp
      | @reply _ service hp _ | @replyLost _ service hp _ =>
          refine later ih (by rw [hp]; simp) ?_
          cases service <;> simp [Connection.authReturned]
      | @upgrade _ replaced hp =>
          refine later ih (by rw [hp]; simp) ?_
          cases replaced <;> simp [Connection.upgradeNext]
      | relayRecv hp _ =>
          refine later ih (by rw [hp]; simp) ?_
          rcases Connection.relayNext_cases _ _ with ⟨_, -, e⟩ | ⟨-, e⟩ <;> rw [e] <;> simp
  | register hp | closeReplaced hp _ | respond hp | cleanup hp | runReturned hp _ =>
      exact later ih (by rw [hp]; simp) (by simp)
  | drainEnd hd _ _ => exact iff_of_false (by simp) fun hp => by rw [ih.mpr hp] at hd; cases hd
  | closed _ | send _ | other _ => exact ih

/-- A drain task that is over is not started again. -/
theorem Connection.Step.drain_ended {k k' : Connection} {e : ConnEvent}
    (hs : Connection.Step serde config k e k') (hidle : k.drain = .idle ↔ k.phase = .created)
    (hd : k.drain = .ended) : k'.drain = .ended := by
  cases hs with
  | run hp => rw [hidle.mpr hp] at hd; cases hd
  | panic _ _ => rfl
  | _ => exact hd

theorem Connection.Move.drain_ended {c : ConnId} {k k' : Connection} {e : Event}
    (hm : Connection.Move serde w c k e k') (hidle : k.drain = .idle ↔ k.phase = .created)
    (hd : k.drain = .ended) : k'.drain = .ended := by
  cases hm with
  | own hs => exact hs.drain_ended hidle hd
  | drainEnd _ _ _ => rfl
  | _ => exact hd

/-- **Registrations are what the history says.** -/
theorem registeredFor_iff (h : ServerRun serde config tr w) {c : ConnId} {s : String} :
    w.registeredFor c = some s ↔ .register c s ∈ tr := by
  refine h.invariant (fun tr w => w.registeredFor c = some s ↔ .register c s ∈ tr)
    ⟨fun h => (by cases h), fun h => (by cases h)⟩ fun {tr w e w'} hr ih hs => ?_
  rw [hs.registeredFor (wf_of_run hr).fresh, List.mem_append, List.mem_singleton]
  cases e with
  | register c' s' =>
      by_cases hc : c = c'
      · subst hc
        have hnone := hs.registeredFor_of_register
        rw [hnone] at ih
        have hnot := ih.not.mp (by simp)
        simp [Event.onObserved, Phase.registeredFor, hnot, eq_comm]
      · simp [Event.onObserved, ih, hc]
  | cleanup c' s' =>
      by_cases hc : c = c'
      · subst hc
        rw [World.registeredFor_of_serving hs.serving_of_cleanup] at ih
        simp [Event.onObserved, Phase.registeredFor, ← ih]
      · simp [Event.onObserved, Function.update_of_ne hc, ih]
  | _ => simp [Event.onObserved, ih]

/-- What was cleaned up had registered. -/
theorem register_of_cleanup (h : ServerRun serde config tr w) {c : ConnId} {s : String}
    (hc : .cleanup c s ∈ tr) : .register c s ∈ tr := by
  obtain ⟨tr₁, tr₂, u, u', rfl, hr, hs, -⟩ := h.of_mem hc
  exact List.mem_append_left _
    ((registeredFor_iff hr).mp (World.registeredFor_of_serving hs.serving_of_cleanup))

/-- A connection cleaned up serves nothing more. -/
theorem serving_of_cleaned (h : ServerRun serde config tr w) {c : ConnId} {s : String}
    (hc : .cleanup c s ∈ tr) : w.serving c = none := by
  refine h.invariant (fun tr w => .cleanup c s ∈ tr → w.serving c = none)
    (fun hc => by cases hc) (fun {tr w e w'} hr ih hs hc => ?_) hc
  rw [hs.serving (wf_of_run hr).fresh]
  rcases List.mem_append.mp hc with hold | hnew
  · cases e with
    | register c' s' =>
        have hne : c ≠ c' := by
          rintro rfl
          have hreg := (registeredFor_iff hr).mpr (register_of_cleanup hr hold)
          rw [hs.registeredFor_of_register] at hreg; cases hreg
        exact (Function.update_of_ne hne ..).trans (ih hold)
    | cleanup c' s' =>
        by_cases hcc : c = c'
        · subst hcc
          exact Function.update_self ..
        · exact (Function.update_of_ne hcc ..).trans (ih hold)
    | _ => exact ih hold
  · obtain rfl := List.mem_singleton.mp hnew
    exact Function.update_self ..

/-- What has registered and was not cleaned up serves. -/
theorem serving_of_registered (h : ServerRun serde config tr w) {c : ConnId} {s : String}
    (hreg : .register c s ∈ tr) (hc : .cleanup c s ∉ tr) : w.serving c = some s := by
  refine h.invariant (fun tr w => .register c s ∈ tr → .cleanup c s ∉ tr → w.serving c = some s)
    (fun hreg => by cases hreg) (fun {tr w e w'} hr ih hs hreg hc => ?_) hreg hc
  have hw := wf_of_run hr
  rcases List.mem_append.mp hreg with hold | hnew
  · have hserv := ih hold fun hmem => hc (List.mem_append_left _ hmem)
    refine hs.serving_mono hw.fresh hserv fun s' he => hc ?_
    subst he
    cases hserv.symm.trans hs.serving_of_cleanup
    simp
  · obtain rfl := List.mem_singleton.mp hnew
    rw [hs.serving hw.fresh]
    exact Function.update_self ..

/-- A response a relay loop is handling was taken by it. -/
theorem relayRecv_of_respond (h : ServerRun serde config tr w) {c : ConnId} {k : Connection}
    {s : String} {m : Pushed} {r : TunnelResponse} (hk : w.conns c = some k)
    (hp : k.phase = .respond s m r) :
    .conn c (.relayRecv m) ∈ tr ∧ parseMessage serde m.text = .ok (.response r) := by
  refine conn_invariant (fun tr k => k.phase = .respond s m r →
    .conn c (.relayRecv m) ∈ tr ∧ parseMessage serde m.text = .ok (.response r))
    (fun _ hp => by cases hp) (fun {tr w k e w' k'} hr hk ih hs hm hp' => ?_) h hk hp
  have old : k.phase = .respond s m r →
      .conn c (.relayRecv m) ∈ tr ++ [e] ∧ parseMessage serde m.text = .ok (.response r) :=
    fun hp => ⟨List.mem_append_left _ (ih hp).1, (ih hp).2⟩
  cases hm with
  | own hs =>
      have hn := hs.next
      generalize hq : k.phase = p at hn
      rw [hp'] at hn
      cases hn with
      | stay _ => exact old hq
      | response hm => exact ⟨by simp, hm⟩
  | register _ | closeReplaced _ _ | respond _ | cleanup _ | runReturned _ _ => cases hp'
  | closed _ | drainEnd _ _ _ | send _ | other _ => exact old hp'

/-- What a connection has of messages was pushed. -/
theorem push_of_carried (h : ServerRun serde config tr w) {c : ConnId} {k : Connection}
    {m : Pushed} (hk : w.conns c = some k) (hm : m ∈ k.pushing ∨ m ∈ k.incoming) :
    .conn c (.push m) ∈ tr := by
  refine conn_invariant (fun tr k => ∀ m, m ∈ k.pushing ∨ m ∈ k.incoming → .conn c (.push m) ∈ tr)
    (fun _ m hm => by rcases hm with hm | hm <;> cases hm)
    (fun {tr w k e w' k'} hr hk ih hs hmv m hm' => ?_) h hk m hm
  have old : m ∈ k.pushing ∨ m ∈ k.incoming → Event.conn c (.push m) ∈ tr ++ [e] := fun hm =>
    List.mem_append_left _ (ih m hm)
  cases hmv with
  | own hs =>
      cases hs with
      | push _ _ =>
          rcases hm' with hm' | hm'
          · rcases List.mem_append.mp hm' with hm' | hm'
            · exact old (.inl hm')
            · cases List.mem_singleton.mp hm'
              simp
          · exact old (.inr hm')
      | sent hin _ _ =>
          rcases hm' with hm' | hm'
          · exact old (.inl (List.mem_of_mem_erase hm'))
          · rcases List.mem_append.mp hm' with hm' | hm'
            · exact old (.inr hm')
            · exact old (.inl (List.mem_singleton.mp hm' ▸ hin))
      | gone _ => exact old (hm'.imp_left List.mem_of_mem_erase)
      | authRecv _ hi | relayRecv _ hi =>
          exact old (hm'.imp_right fun hm' => hi ▸ List.mem_cons_of_mem _ hm')
      | _ => exact old hm'
  | _ => exact old hm'

/-- What a relay loop took was pushed. -/
theorem push_of_relayRecv (h : ServerRun serde config tr w) {c : ConnId} {m : Pushed}
    (hm : .conn c (.relayRecv m) ∈ tr) : .conn c (.push m) ∈ tr := by
  obtain ⟨tr₁, tr₂, u, u', rfl, hr, hs, -⟩ := h.of_mem hm
  obtain ⟨k, k', hk, hstep, -⟩ := hs.conn_inv
  cases hstep with
  | relayRecv _ hi =>
      exact List.mem_append_left _ (push_of_carried hr hk (.inr (hi ▸ List.mem_cons_self)))

end Outpunch
