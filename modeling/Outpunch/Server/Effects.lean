import Outpunch.Server.Step

/-!
# Server — what each event does

Each part of the server's state is changed by few events: `services` by `register` and `cleanup`,
`pending` by `assign`, `respond`, `cleanup` and the end of a failed dispatch, the service a
connection serves by `register` and `cleanup`, a dispatch by its own events and by a `respond`
that answers it.  The lemmas here say so once, one for each part; the invariants are derived from
them.
-/

namespace Outpunch

/-- `f`, an observation of a connection by where its `run` stands, changes only when the
connection registers and when it is cleaned up. -/
structure Phase.Coarse {β : Type} (f : Phase → Option β) : Prop where
  created : f .created = none
  conn : ∀ {serde config k e k'}, Connection.Step serde config k e k' → f k'.phase = f k.phase
  registered : ∀ s r, f (.registered s r) = f (.relay s)
  closing : ∀ s old, f (.closing s old) = f (.relay s)
  respond : ∀ s m r, f (.respond s m r) = f (.relay s)
  done : ∀ s, f (.done s) = f (.joining s)

theorem Phase.coarse_registeredFor : Coarse Phase.registeredFor where
  created := rfl
  conn h := h.registeredFor
  registered _ _ := rfl
  closing _ _ := rfl
  respond _ _ _ := rfl
  done _ := rfl

theorem Phase.coarse_serving : Coarse Phase.serving where
  created := rfl
  conn h := h.serving
  registered _ _ := rfl
  closing _ _ := rfl
  respond _ _ _ := rfl
  done _ := rfl

namespace World

/-- What `f` observes of each connection. -/
def observe {β : Type} (w : World) (f : Phase → Option β) (c : ConnId) : Option β :=
  (w.conns c).bind fun k => f k.phase

/-- The service `c` has registered for, if it has. -/
abbrev registeredFor (w : World) : ConnId → Option String := w.observe Phase.registeredFor

/-- The service `c` has registered for and not yet cleaned up. -/
abbrev serving (w : World) : ConnId → Option String := w.observe Phase.serving

/-- No connection has an id that is still to be handed out. -/
def Fresh (w : World) : Prop := ∀ c, w.nextConnId ≤ c → w.conns c = none

variable {β : Type} {w : World} {c : ConnId} {k k' : Connection}

theorem observe_eq (f : Phase → Option β) (hk : w.conns c = some k) :
    w.observe f c = f k.phase := by
  rw [observe, hk]; rfl

theorem observe_eq_some {f : Phase → Option β} {b : β} (h : w.observe f c = some b) :
    ∃ k, w.conns c = some k ∧ f k.phase = some b :=
  Option.bind_eq_some_iff.mp h

theorem registeredFor_of_serving {s : String} (h : w.serving c = some s) :
    w.registeredFor c = some s := by
  obtain ⟨k, hk, hs⟩ := observe_eq_some h
  exact (observe_eq _ hk).trans (Phase.registeredFor_of_serving hs)

@[simp] theorem setConn_conns_same : (w.setConn c k).conns c = some k := PartialMap.insert_same ..

theorem setConn_conns_other {c' : ConnId} (h : c' ≠ c) :
    (w.setConn c k).conns c' = w.conns c' := PartialMap.insert_other h

theorem setConn_conns_eq_some {c' : ConnId} {k₁ : Connection} :
    (w.setConn c k).conns c' = some k₁ ↔ c' = c ∧ k = k₁ ∨ c' ≠ c ∧ w.conns c' = some k₁ :=
  PartialMap.insert_eq_some

theorem observe_setConn (f : Phase → Option β) :
    (w.setConn c k).observe f = Function.update (w.observe f) c (f k.phase) :=
  PartialMap.bind_insert _ _ _ fun k : Connection => f k.phase

theorem observe_setConn_of_eq (f : Phase → Option β) (hk : w.conns c = some k)
    (h : f k'.phase = f k.phase) : (w.setConn c k').observe f = w.observe f :=
  PartialMap.bind_insert_of_eq (fun k : Connection => f k.phase) hk h

@[simp] theorem setDispatch_dispatches_same {q : RequestId} {d : Dispatch} :
    (w.setDispatch q d).dispatches q = some d := PartialMap.insert_same ..

theorem setDispatch_dispatches_other {q q' : RequestId} {d : Dispatch} (h : q' ≠ q) :
    (w.setDispatch q d).dispatches q' = w.dispatches q' := PartialMap.insert_other h

theorem setDispatch_dispatches_eq_some {q q' : RequestId} {d d₁ : Dispatch} :
    (w.setDispatch q d).dispatches q' = some d₁ ↔
      q' = q ∧ d = d₁ ∨ q' ≠ q ∧ w.dispatches q' = some d₁ :=
  PartialMap.insert_eq_some

/-- A dispatch after a relay loop handled a response is the one before, or that one answered. -/
theorem answered_eq_some {tx : Option ResponseTx} {response : TunnelResponse} {q : RequestId}
    {d : Dispatch} (h : w.answered response tx q = some d) :
    ∃ d₀, w.dispatches q = some d₀ ∧ (d = d₀ ∨ tx = some q ∧ d = d₀.answer response) := by
  cases tx with
  | none => exact ⟨d, h, .inl rfl⟩
  | some tx =>
      obtain ⟨d₀, hd₀, e | ⟨rfl, e⟩⟩ := PartialMap.modify_eq_some h
      · exact ⟨d₀, hd₀, .inl e⟩
      · exact ⟨d₀, hd₀, .inr ⟨rfl, e⟩⟩

end World

namespace Event

/-- What an event makes of `services`. -/
def onServices (st : ServerState) : Event → PartialMap String ServiceHandle
  | .register c s => st.services.insert s { connId := c, outgoingTx := c, connection := c }
  | .cleanup c s => (st.cleanupConnection s c).services
  | _ => st.services

/-- What an event makes of `pending`. -/
def onPending (st : ServerState) : Event → PartialMap RequestId PendingRequest
  | .assign q c _ => st.pending.insert q { connId := c, tx := q }
  | .respond c _ response _ => (st.claim c response.requestId).2.pending
  | .cleanup c _ => st.pending.retain fun p => p.connId ≠ c
  | .ret q (.error _) => st.pending.erase q
  | _ => st.pending

/-- What an event makes of a coarse observation of the connections. -/
def onObserved {β : Type} (f : Phase → Option β) (F : ConnId → Option β) :
    Event → ConnId → Option β
  | .register c s => Function.update F c (f (.relay s))
  | .cleanup c s => Function.update F c (f (.leaving (some s)))
  | _ => F

end Event

/-- The event is a step of `c`, or one that writes to it. -/
def Event.ConcernsConn (c : ConnId) : Event → Prop
  | .create c' | .conn c' _ | .register c' _ | .respond c' _ _ _ | .cleanup c' _ | .drainEnd c'
  | .runReturned c' => c' = c
  | .closeReplaced c' old => c' = c ∨ old = c
  | .send _ tx _ => tx = c
  | _ => False

/-- What an event makes of a connection `c` that stood at `k`. -/
inductive Connection.Move (serde : SerdeJson) (w : World) (c : ConnId) (k : Connection) :
    Event → Connection → Prop where
  | own {e : ConnEvent} {k' : Connection} (hs : Connection.Step serde w.state.config k e k') :
      Move serde w c k (.conn c e) k'
  | register {s : String} (hp : k.phase = .register s) :
      Move serde w c k (.register c s) { k with phase := .registered s (w.state.services s) }
  | closeReplaced {s : String} {old : ConnId} (hp : k.phase = .closing s old) (hne : old ≠ c) :
      Move serde w c k (.closeReplaced c old) { k with phase := .relay s }
  | closed {c' : ConnId} (hne : c' ≠ c) :
      Move serde w c k (.closeReplaced c' c) { k with incomingTx := false }
  | respond {s : String} {m : Pushed} {r : TunnelResponse} (hp : k.phase = .respond s m r) :
      Move serde w c k (.respond c m r (w.state.claim c r.requestId).1)
        { k with phase := .relay s }
  | cleanup {s : String} (hp : k.phase = .cleanup s) :
      Move serde w c k (.cleanup c s) { k with phase := .leaving (some s) }
  | drainEnd {callback : Bool} (hd : k.drain = .running callback) (ho : k.outgoing = [])
      (hh : ∀ h, ¬ w.Holds c h) : Move serde w c k (.drainEnd c) { k with drain := .ended }
  | runReturned {s : Option String} (hp : k.phase = .joining s) (hd : k.drain = .ended) :
      Move serde w c k (.runReturned c) { k with phase := .done s }
  | send {q : RequestId} {json : String} (hs : k.canSend) :
      Move serde w c k (.send q c json) { k with outgoing := k.outgoing ++ [json] }
  | other {e : Event} (h : ¬ e.ConcernsConn c) : Move serde w c k e k

/-- The event is a step of the dispatch `q`, or answers it. -/
def Event.ConcernsDispatch (q : RequestId) : Event → Prop
  | .request q' _ | .assign q' _ _ | .send q' _ _ | .fail q' _ | .ret q' _ | .cancel q' => q' = q
  | .respond _ _ _ tx => tx = some q
  | _ => False

/-- What an event makes of a dispatch `q` that stood at `d`. -/
inductive Dispatch.Move (w : World) (q : RequestId) (d : Dispatch) : Event → Dispatch → Prop where
  | notConnected (hp : d.phase = .locking) (hs : w.state.services d.req.service = none) :
      Move w q d (.ret q (.error .notConnected))
        { d with phase := .returned (.error .notConnected) }
  | assign {h : ServiceHandle} (hp : d.phase = .locking)
      (hs : w.state.services d.req.service = some h) :
      Move w q d (.assign q h.connId h.outgoingTx) { d with phase := .sending h.outgoingTx }
  | send {tx : OutgoingTx} (hp : d.phase = .sending tx) :
      Move w q d (.send q tx d.json) { d with phase := .waiting tx }
  | fail {tx : OutgoingTx} {err : TunnelError}
      (hp : d.phase = .sending tx ∨ d.phase = .waiting tx) :
      Move w q d (.fail q err) { d with phase := .failed tx err }
  | answered {tx : OutgoingTx} {r : TunnelResponse} (hp : d.phase = .waiting tx)
      (hr : d.resp = some r) : Move w q d (.ret q (.ok r)) { d with phase := .returned (.ok r) }
  | failed {tx : OutgoingTx} {err : TunnelError} (hp : d.phase = .failed tx err) :
      Move w q d (.ret q (.error err)) { d with phase := .returned (.error err) }
  | cancel (hp : d.phase.running) : Move w q d (.cancel q) { d with phase := .cancelled }
  | respond {c : ConnId} {m : Pushed} {r : TunnelResponse}
      (hcl : (w.state.claim c r.requestId).1 = some q) :
      Move w q d (.respond c m r (some q)) (d.answer r)
  | other {e : Event} (h : ¬ e.ConcernsDispatch q) : Move w q d e d

section

variable {serde : SerdeJson} {w w' : World} {e : Event}

theorem Step.config (h : Step serde w e w') : w'.state.config = w.state.config := by
  cases h with
  | respond _ _ => exact ServerState.claim_config
  | assign _ _ hs => obtain ⟨-, rfl⟩ := ServerState.park_eq_some.mp hs; rfl
  | _ => rfl

/-- `services` changes at a registration and at a cleanup. -/
theorem Step.services (h : Step serde w e w') : w'.state.services = e.onServices w.state := by
  cases h with
  | respond _ _ => exact ServerState.claim_services
  | assign _ _ hs => obtain ⟨-, rfl⟩ := ServerState.park_eq_some.mp hs; rfl
  | _ => rfl

theorem Step.fresh (h : Step serde w e w') (hw : w.Fresh) : w'.Fresh := by
  intro c' hc'
  have other : ∀ {c k k'}, w.conns c = some k → w.nextConnId ≤ c' →
      (w.setConn c k').conns c' = none := by
    intro c k k' hk hc'
    have hne : c' ≠ c := by
      rintro rfl
      rw [hw c' hc'] at hk; cases hk
    rw [World.setConn_conns_other hne]
    exact hw c' hc'
  cases h with
  | create =>
      have hne : c' ≠ w.nextConnId := by
        rintro rfl
        exact absurd hc' (Nat.not_succ_le_self _)
      exact (World.setConn_conns_other hne).trans (hw c' (Nat.le_of_succ_le hc'))
  | conn hk _ | register hk _ | respond hk _ | cleanup hk _ | drainEnd hk _ _ _ | runReturned hk _ _
  | send _ _ hk _ => exact other hk hc'
  | closeReplaced hk _ =>
      refine Option.eq_none_iff_forall_ne_some.mpr fun k' hk' => ?_
      obtain ⟨k'', hk'', -⟩ := PartialMap.modify_eq_some hk'
      exact absurd ((other hk hc').symm.trans hk'') (by simp)
  | _ => exact hw c' hc'

/-- A coarse observation of the connections changes at a registration and at a cleanup. -/
theorem Step.observe {β : Type} {f : Phase → Option β} (hf : Phase.Coarse f)
    (h : Step serde w e w') (hw : w.Fresh) : w'.observe f = e.onObserved f (w.observe f) := by
  cases h with
  | create =>
      refine (World.observe_setConn f).trans (Function.update_eq_self_iff.mpr ?_)
      rw [World.observe, hw _ (Nat.le_refl _)]
      exact hf.created
  | conn hk hs => exact World.observe_setConn_of_eq f hk (hf.conn hs)
  | register hk _ =>
      refine (World.observe_setConn f).trans ?_
      rw [hf.registered]; rfl
  | closeReplaced hk hp =>
      refine (PartialMap.bind_modify_of_eq (fun k : Connection => f k.phase)
        (by intro; rfl)).trans ?_
      exact World.observe_setConn_of_eq f hk (by rw [hp, hf.closing])
  | respond hk hp => exact World.observe_setConn_of_eq f hk (by rw [hp, hf.respond])
  | cleanup hk _ => exact World.observe_setConn f
  | drainEnd hk _ _ _ | send _ _ hk _ => exact World.observe_setConn_of_eq f hk (by rfl)
  | runReturned hk hp _ => exact World.observe_setConn_of_eq f hk (by rw [hp, hf.done])
  | _ => rfl

/-- No connection closes itself. -/
def World.ClosesOthers (w : World) : Prop :=
  ∀ {c k s old}, w.conns c = some k → k.phase = .closing s old → old ≠ c

/-- A connection stays, and makes one move. -/
theorem Step.move (h : Step serde w e w') (hw : w.Fresh) (hcl : w.ClosesOthers) {c : ConnId}
    {k : Connection} (hk : w.conns c = some k) :
    ∃ k', w'.conns c = some k' ∧ Connection.Move serde w c k e k' := by
  -- a step that writes the connection `c'` alone is a move of it
  have write : ∀ {c' k₁ k₂}, w.conns c' = some k₁ → (c' ≠ c → ¬ e.ConcernsConn c) →
      (c' = c → Connection.Move serde w c k₁ e k₂) →
      ∃ k', (w.setConn c' k₂).conns c = some k' ∧ Connection.Move serde w c k e k' := by
    intro c' k₁ k₂ hk₁ hother hsame
    by_cases hcc : c' = c
    · subst hcc
      cases hk₁.symm.trans hk
      exact ⟨_, World.setConn_conns_same, hsame rfl⟩
    · exact ⟨k, (World.setConn_conns_other (Ne.symm hcc)).trans hk, .other (hother hcc)⟩
  cases h with
  | create =>
      have hne : w.nextConnId ≠ c := by
        rintro rfl
        rw [hw _ (Nat.le_refl _)] at hk; cases hk
      exact ⟨k, (World.setConn_conns_other hne.symm).trans hk, .other hne⟩
  | conn hk' hs => exact write hk' id (by rintro rfl; exact .own hs)
  | register hk' hp => exact write hk' id (by rintro rfl; exact .register hp)
  | respond hk' hp => exact write hk' id (by rintro rfl; exact .respond hp)
  | cleanup hk' hp => exact write hk' id (by rintro rfl; exact .cleanup hp)
  | drainEnd hk' hd ho hh => exact write hk' id (by rintro rfl; exact .drainEnd hd ho hh)
  | runReturned hk' hp hd => exact write hk' id (by rintro rfl; exact .runReturned hp hd)
  | send _ _ hk' hs => exact write hk' id (by rintro rfl; exact .send hs)
  | @closeReplaced c' old k₁ s hk' hp =>
      have hne : old ≠ c' := hcl hk' hp
      by_cases hcc : c' = c
      · subst hcc
        cases hk'.symm.trans hk
        exact ⟨_, (PartialMap.modify_other hne.symm).trans (PartialMap.insert_same ..),
          .closeReplaced hp hne⟩
      · have hk'' : (w.setConn c' { k₁ with phase := .relay s }).conns c = some k :=
          (World.setConn_conns_other (Ne.symm hcc)).trans hk
        by_cases hold : old = c
        · subst hold
          exact ⟨_, (PartialMap.modify_same ..).trans (congrArg _ hk''), .closed hcc⟩
        · exact ⟨k, (PartialMap.modify_other (Ne.symm hold)).trans hk'',
            .other (not_or.mpr ⟨hcc, hold⟩)⟩
  | _ => exact ⟨k, hk, .other not_false⟩

/-- A connection was just made, or made one move from where it stood. -/
theorem Step.move_inv (h : Step serde w e w') (hw : w.Fresh) (hcl : w.ClosesOthers) {c : ConnId}
    {k' : Connection} (hk' : w'.conns c = some k') :
    w.conns c = none ∧ e = .create c ∧ k' = .new ∨
      ∃ k, w.conns c = some k ∧ Connection.Move serde w c k e k' := by
  cases hk : w.conns c with
  | some k =>
      obtain ⟨k₁, hk₁, hm⟩ := h.move hw hcl hk
      cases hk₁.symm.trans hk'
      exact .inr ⟨k, rfl, hm⟩
  | none =>
      refine .inl ⟨rfl, ?_⟩
      have other : ∀ {c' k₁ k₂ k₃}, w.conns c' = some k₁ → (w.setConn c' k₂).conns c ≠ some k₃ :=
        fun {c' _ _ _} hk₁ e => by
          have hne : c ≠ c' := by
            rintro rfl
            rw [hk] at hk₁; cases hk₁
          rw [World.setConn_conns_other hne, hk] at e; cases e
      cases h with
      | create =>
          rcases World.setConn_conns_eq_some.mp hk' with ⟨rfl, rfl⟩ | ⟨-, hk'⟩
          · exact ⟨rfl, rfl⟩
          · rw [hk] at hk'; cases hk'
      | conn hk₁ _ | register hk₁ _ | respond hk₁ _ | cleanup hk₁ _ | drainEnd hk₁ _ _ _
      | runReturned hk₁ _ _ | send _ _ hk₁ _ => exact absurd hk' (other hk₁)
      | closeReplaced hk₁ _ =>
          obtain ⟨k₂, hk₂, -⟩ := PartialMap.modify_eq_some hk'
          exact absurd hk₂ (other hk₁)
      | _ => exact absurd (hk.symm.trans hk') (by simp)

/-- A dispatch stays, and makes one move. -/
theorem Step.dispatch_move (h : Step serde w e w') {q : RequestId} {d : Dispatch}
    (hd : w.dispatches q = some d) :
    ∃ d', w'.dispatches q = some d' ∧ Dispatch.Move w q d e d' := by
  -- a step that writes the dispatch `q'` alone is a move of it
  have write : ∀ {q' d₁ d₂}, w.dispatches q' = some d₁ → (q' ≠ q → ¬ e.ConcernsDispatch q) →
      (q' = q → Dispatch.Move w q d₁ e d₂) →
      ∃ d', (w.setDispatch q' d₂).dispatches q = some d' ∧ Dispatch.Move w q d e d' := by
    intro q' d₁ d₂ hd₁ hother hsame
    by_cases hqq : q' = q
    · subst hqq
      cases hd₁.symm.trans hd
      exact ⟨_, World.setDispatch_dispatches_same, hsame rfl⟩
    · exact ⟨d, (World.setDispatch_dispatches_other (Ne.symm hqq)).trans hd, .other (hother hqq)⟩
  cases h with
  | @request q' _ hq =>
      have hne : q' ≠ q := by
        rintro rfl
        rw [hq] at hd; cases hd
      exact ⟨d, (World.setDispatch_dispatches_other hne.symm).trans hd, .other hne⟩
  | notConnected hq hp hs =>
      exact write hq id (by rintro rfl; exact .notConnected hp (ServerState.park_eq_none.mp hs))
  | assign hq hp hs =>
      exact write hq id (by rintro rfl; exact .assign hp (ServerState.park_eq_some.mp hs).1)
  | send hq hp _ _ => exact write hq id (by rintro rfl; exact .send hp)
  | connectionLost hq hp _ _ => exact write hq id (by rintro rfl; exact .fail (.inl hp))
  | disconnected hq hp _ _ => exact write hq id (by rintro rfl; exact .fail (.inr hp))
  | timeout hq hp => exact write hq id (by rintro rfl; exact .fail hp)
  | answered hq hp hr => exact write hq id (by rintro rfl; exact .answered hp hr)
  | failed hq hp => exact write hq id (by rintro rfl; exact .failed hp)
  | cancel hq hp => exact write hq id (by rintro rfl; exact .cancel hp)
  | @respond c' _ _ m r _ _ =>
      cases hcl : (w.state.claim c' r.requestId).1 with
      | none => exact ⟨d, hd, .other (by simp [Event.ConcernsDispatch])⟩
      | some q' =>
          by_cases hqq : q' = q
          · subst hqq
            exact ⟨_, (PartialMap.modify_same ..).trans (congrArg _ hd), .respond hcl⟩
          · exact ⟨d, (PartialMap.modify_other (Ne.symm hqq)).trans hd,
              .other (by simpa [Event.ConcernsDispatch] using hqq)⟩
  | _ => exact ⟨d, hd, .other not_false⟩

/-- A dispatch was just called, or made one move from where it stood. -/
theorem Step.dispatch_move_inv (h : Step serde w e w') {q : RequestId} {d' : Dispatch}
    (hd' : w'.dispatches q = some d') :
    w.dispatches q = none ∧ (∃ incoming, e = .request q incoming ∧ d' =
      { req := buildTunnelRequest q incoming
        json := serializeRequest serde (buildTunnelRequest q incoming)
        resp := none
        phase := .locking }) ∨
      ∃ d, w.dispatches q = some d ∧ Dispatch.Move w q d e d' := by
  cases hd : w.dispatches q with
  | some d =>
      obtain ⟨d₁, hd₁, hm⟩ := h.dispatch_move hd
      cases hd₁.symm.trans hd'
      exact .inr ⟨d, rfl, hm⟩
  | none =>
      refine .inl ⟨rfl, ?_⟩
      have other : ∀ {q' d₁ d₂}, w.dispatches q' = some d₁ →
          (w.setDispatch q' d₂).dispatches q ≠ some d' := by
        intro q' _ _ hd₁ e
        have hne : q ≠ q' := by
          rintro rfl
          rw [hd] at hd₁; cases hd₁
        rw [World.setDispatch_dispatches_other hne, hd] at e; cases e
      cases h with
      | @request q' incoming _ =>
          rcases World.setDispatch_dispatches_eq_some.mp hd' with ⟨rfl, rfl⟩ | ⟨-, hd'⟩
          · exact ⟨incoming, rfl, rfl⟩
          · rw [hd] at hd'; cases hd'
      | notConnected hq _ _ | assign hq _ _ | send hq _ _ _ | connectionLost hq _ _ _
      | disconnected hq _ _ _ | timeout hq _ | answered hq _ _ | failed hq _ | cancel hq _ =>
          exact absurd hd' (other hq)
      | respond _ _ =>
          obtain ⟨d₀, hd₀, -⟩ := World.answered_eq_some hd'
          exact absurd (hd.symm.trans hd₀) (by simp)
      | _ => exact absurd (hd.symm.trans hd') (by simp)

theorem Step.registeredFor (h : Step serde w e w') (hw : w.Fresh) :
    w'.registeredFor = e.onObserved Phase.registeredFor w.registeredFor :=
  h.observe Phase.coarse_registeredFor hw

theorem Step.serving (h : Step serde w e w') (hw : w.Fresh) :
    w'.serving = e.onObserved Phase.serving w.serving :=
  h.observe Phase.coarse_serving hw

end

end Outpunch
