import Outpunch.Server.Effects

/-!
# Server — what holds in every state

`World.Wf` ties the two maps, the phases of the connections and the dispatches together:

* a registered handle is all of one connection, and that connection serves the service;
* a parked entry is of its own dispatch, which was not answered and has not returned, and of a
  connection that serves the service of the request;
* a dispatch that holds a sender holds one of a connection that registered for its service;
* a connection that still holds the handle it replaced, or is about to close its connection, holds
  one of another connection that registered for the same service.

Every step keeps it (`Step.wf`), so it holds in every state a server reaches (`wf_of_run`).
-/

namespace Outpunch

namespace World

/-- The three fields of a handle name one connection. -/
def OneConnection (h : ServiceHandle) : Prop := h.outgoingTx = h.connId ∧ h.connection = h.connId

/-- A parked entry is of its own dispatch, unanswered and not returned, and of a connection that
serves the service of the request. -/
def EntryOk (w : World) (id : RequestId) (p : PendingRequest) : Prop :=
  p.tx = id ∧ ∃ d, w.dispatches id = some d ∧ d.resp = none ∧
    (d.phase.outgoingTx = some p.connId ∨ d.phase = .cancelled) ∧
    w.serving p.connId = some d.req.service

/-- A dispatch is named by its request id, is not answered before it is parked, and holds a
sender only of a connection that registered for its service. -/
structure DispatchOk (registeredFor : ConnId → Option String) (q : RequestId) (d : Dispatch) :
    Prop where
  requestId : d.req.requestId = q
  locking : d.phase = .locking → d.resp = none
  sender : ∀ tx, d.phase.outgoingTx = some tx → registeredFor tx = some d.req.service

structure Wf (w : World) : Prop where
  fresh : w.Fresh
  service : ∀ {s h}, w.state.services s = some h → OneConnection h ∧ w.serving h.connId = some s
  pending : ∀ {id p}, w.state.pending id = some p → w.EntryOk id p
  dispatch : ∀ {q d}, w.dispatches q = some d → DispatchOk w.registeredFor q d
  replaced : ∀ {c k s h}, w.conns c = some k → k.phase = .registered s (some h) →
    OneConnection h ∧ h.connId ≠ c ∧ w.registeredFor h.connId = some s
  closing : ∀ {c k s old}, w.conns c = some k → k.phase = .closing s old →
    old ≠ c ∧ w.registeredFor old = some s

section

variable {R R' : ConnId → Option String} {q : RequestId} {d : Dispatch}

theorem DispatchOk.mono (hR : ∀ {c s}, R c = some s → R' c = some s) (h : DispatchOk R q d) :
    DispatchOk R' q d :=
  ⟨h.requestId, h.locking, fun tx ht => hR (h.sender tx ht)⟩

/-- A dispatch that moves on, with the sender it had or with none. -/
theorem DispatchOk.move {p : DispatchPhase} (h : DispatchOk R q d) (hp : p ≠ .locking)
    (ht : p.outgoingTx = none ∨ p.outgoingTx = d.phase.outgoingTx) :
    DispatchOk R q { d with phase := p } where
  requestId := h.requestId
  locking e := absurd e hp
  sender tx e := by
    rcases ht with ht | ht
    · exact absurd (ht.symm.trans e) (by simp)
    · exact h.sender tx (ht ▸ e)

theorem DispatchOk.answer {r : TunnelResponse} (h : DispatchOk R q d) :
    DispatchOk R q (d.answer r) := by
  unfold Dispatch.answer
  split
  · rename_i hr
    refine ⟨h.requestId, fun e => ?_, h.sender⟩
    rw [show d.phase = .locking from e] at hr; cases hr
  · exact h

end

end World

section

variable {serde : SerdeJson} {w w' : World}

/-! ### Inversion of the steps under the lock -/

theorem Step.register_inv {c : ConnId} {s : String} (h : Step serde w (.register c s) w') :
    ∃ k, w.conns c = some k ∧ k.phase = .register s := by
  cases h with | register hk hp => exact ⟨_, hk, hp⟩

theorem Step.registeredFor_of_register {c : ConnId} {s : String}
    (h : Step serde w (.register c s) w') : w.registeredFor c = none := by
  obtain ⟨k, hk, hp⟩ := h.register_inv
  exact (World.observe_eq _ hk).trans (by rw [hp]; rfl)

theorem Step.serving_of_cleanup {c : ConnId} {s : String} (h : Step serde w (.cleanup c s) w') :
    w.serving c = some s := by
  cases h with | cleanup hk hp => exact (World.observe_eq _ hk).trans (by rw [hp]; rfl)

/-- A registration stays. -/
theorem Step.registeredFor_mono {e : Event} (h : Step serde w e w') (hw : w.Fresh) {c : ConnId}
    {s : String} (hc : w.registeredFor c = some s) : w'.registeredFor c = some s := by
  rw [h.registeredFor hw]
  cases e with
  | register c' s' =>
      by_cases hcc : c = c'
      · subst hcc
        rw [h.registeredFor_of_register] at hc; cases hc
      · exact (Function.update_of_ne hcc ..).trans hc
  | cleanup c' s' =>
      by_cases hcc : c = c'
      · subst hcc
        rw [World.registeredFor_of_serving h.serving_of_cleanup] at hc
        exact (Function.update_self ..).trans hc
      · exact (Function.update_of_ne hcc ..).trans hc
  | _ => exact hc

/-- A connection serves until its cleanup. -/
theorem Step.serving_mono {e : Event} (h : Step serde w e w') (hw : w.Fresh) {c : ConnId}
    {s : String} (hc : w.serving c = some s) (he : ∀ s', e ≠ .cleanup c s') :
    w'.serving c = some s := by
  rw [h.serving hw]
  cases e with
  | register c' s' =>
      by_cases hcc : c = c'
      · subst hcc
        have := World.registeredFor_of_serving hc
        rw [h.registeredFor_of_register] at this; cases this
      · exact (Function.update_of_ne hcc ..).trans hc
  | cleanup c' s' =>
      have hcc : c ≠ c' := fun e => he s' (e ▸ rfl)
      exact (Function.update_of_ne hcc ..).trans hc
  | _ => exact hc

/-- A connection that serves has just registered, or served before and was not cleaned up. -/
theorem Step.serving_inv {e : Event} (h : Step serde w e w') (hw : w.Fresh) {c : ConnId}
    {s : String} (hc : w'.serving c = some s) :
    e = .register c s ∨ w.serving c = some s ∧ ∀ s', e ≠ .cleanup c s' := by
  rw [h.serving hw] at hc
  cases e with
  | register c' s' =>
      by_cases hcc : c = c'
      · subst hcc
        cases (Function.update_self ..).symm.trans hc
        exact .inl rfl
      · exact .inr ⟨(Function.update_of_ne hcc ..).symm.trans hc, by simp⟩
  | cleanup c' s' =>
      by_cases hcc : c = c'
      · subst hcc
        cases (Function.update_self ..).symm.trans hc
      · exact .inr ⟨(Function.update_of_ne hcc ..).symm.trans hc,
          fun _ he => hcc (by cases he; rfl)⟩
  | _ => exact .inr ⟨hc, by simp⟩

/-! ### Each clause is kept -/

theorem Step.wf_service {e : Event} (h : Step serde w e w') (hw : w.Wf) {s : String}
    {g : ServiceHandle} (hs : w'.state.services s = some g) :
    World.OneConnection g ∧ w'.serving g.connId = some s := by
  rw [h.services] at hs
  have old : w.state.services s = some g → (∀ s', e ≠ .cleanup g.connId s') →
      World.OneConnection g ∧ w'.serving g.connId = some s :=
    fun hg he => ⟨(hw.service hg).1, h.serving_mono hw.fresh (hw.service hg).2 he⟩
  cases e with
  | register c s' =>
      rcases PartialMap.insert_eq_some.mp hs with ⟨rfl, rfl⟩ | ⟨-, hg⟩
      · refine ⟨⟨rfl, rfl⟩, ?_⟩
        rw [h.serving hw.fresh]
        exact Function.update_self ..
      · exact old hg (by simp)
  | cleanup c s' =>
      by_cases hss : s = s'
      · subst hss
        obtain ⟨hg, hne⟩ := ServerState.cleanup_services_eq_some.mp hs
        exact old hg fun _ he => hne (by cases he; rfl)
      · have hg := (ServerState.cleanup_services_other hss).symm.trans hs
        refine old hg fun _ he => hss ?_
        cases he
        exact Option.some.inj ((hw.service hg).2.symm.trans h.serving_of_cleanup)
  | _ => exact old hs (by simp)

theorem Step.wf_dispatch {e : Event} (h : Step serde w e w') (hw : w.Wf) {q : RequestId}
    {d' : Dispatch} (hd' : w'.dispatches q = some d') :
    World.DispatchOk w'.registeredFor q d' := by
  rcases h.dispatch_move_inv hd' with ⟨-, incoming, rfl, rfl⟩ | ⟨d, hd, hm⟩
  · exact ⟨rfl, fun _ => rfl, fun _ e => by cases e⟩
  · have mono := fun {c s} => @Step.registeredFor_mono serde w w' e h hw.fresh c s
    have old := (hw.dispatch hd).mono mono
    cases hm with
    | notConnected _ _ | answered _ _ | failed _ | cancel _ => exact old.move (by simp) (.inl rfl)
    | assign _ hs =>
        refine ⟨old.requestId, by simp, fun tx e => ?_⟩
        obtain ⟨⟨hone, -⟩, hserv⟩ := hw.service hs
        cases e
        exact mono (hone ▸ World.registeredFor_of_serving hserv)
    | send hp => exact old.move (by simp) (.inr (by rw [hp]; rfl))
    | fail hp => exact old.move (by simp) (.inr (by rcases hp with hp | hp <;> rw [hp] <;> rfl))
    | respond _ => exact old.answer
    | other _ => exact old

/-- A dispatch not yet parked has no entry. -/
theorem World.Wf.pending_of_locking (hw : w.Wf) {q : RequestId} {d : Dispatch}
    (hq : w.dispatches q = some d) (hp : d.phase = .locking) : w.state.pending q = none := by
  refine Option.eq_none_iff_forall_ne_some.mpr fun p hpend => ?_
  obtain ⟨-, d', hd', -, hph, -⟩ := hw.pending hpend
  cases hq.symm.trans hd'
  rw [hp] at hph
  rcases hph with hph | hph <;> cases hph

/-- `pending` changes at an assignment, at a claimed response, at a cleanup, and when a dispatch
fails. -/
theorem Step.pending {e : Event} (h : Step serde w e w') (hw : w.Wf) :
    w'.state.pending = e.onPending w.state := by
  cases h with
  | notConnected hq hp _ =>
      exact (Function.update_eq_self_iff.mpr (hw.pending_of_locking hq hp).symm).symm
  | @assign q d handle st hq hp hs =>
      obtain ⟨-, rfl⟩ := ServerState.park_eq_some.mp hs
      exact congrArg (w.state.pending.insert · _) (hw.dispatch hq).requestId
  | @failed q d tx err hq _ =>
      exact congrArg w.state.pending.erase (hw.dispatch hq).requestId
  | _ => rfl

/-- A dispatch with an entry keeps its sender and stays unanswered until it returns or a response
answers it. -/
theorem Step.parked {e : Event} (h : Step serde w e w') {q : RequestId} {c : ConnId}
    {d : Dispatch} (hd : w.dispatches q = some d) (hr : d.resp = none)
    (hp : d.phase.outgoingTx = some c ∨ d.phase = .cancelled) (hret : ∀ r, e ≠ .ret q r)
    (hresp : ∀ c m r, e ≠ .respond c m r (some q)) :
    ∃ d', w'.dispatches q = some d' ∧ d'.req = d.req ∧ d'.resp = none ∧
      (d'.phase.outgoingTx = some c ∨ d'.phase = .cancelled) := by
  obtain ⟨d', hd', hm⟩ := h.dispatch_move hd
  refine ⟨d', hd', ?_⟩
  cases hm with
  | notConnected _ _ | answered _ _ | failed _ => exact absurd rfl (hret _)
  | respond _ => exact absurd rfl (hresp _ _ _)
  | assign hph _ =>
      rw [hph] at hp
      rcases hp with hp | hp <;> cases hp
  | send hph =>
      rw [hph] at hp
      exact ⟨rfl, hr, .inl (hp.resolve_right (by simp))⟩
  | fail hph =>
      refine ⟨rfl, hr, .inl ?_⟩
      rcases hph with hph | hph <;> rw [hph] at hp <;> exact hp.resolve_right (by simp)
  | cancel _ => exact ⟨rfl, hr, .inr rfl⟩
  | other _ => exact ⟨rfl, hr, hp⟩

theorem Step.wf_pending {e : Event} (h : Step serde w e w') (hw : w.Wf) {id : RequestId}
    {p : PendingRequest} (hp : w'.state.pending id = some p) : w'.EntryOk id p := by
  rw [h.pending hw] at hp
  have old : w.state.pending id = some p → (∀ s, e ≠ .cleanup p.connId s) →
      (∀ r, e ≠ .ret id r) → (∀ c m r, e ≠ .respond c m r (some id)) → w'.EntryOk id p := by
    intro hpend hcl hret hresp
    obtain ⟨htx, d, hd, hr, hph, hs⟩ := hw.pending hpend
    obtain ⟨d', hd', hreq, hr', hph'⟩ := h.parked hd hr hph hret hresp
    exact ⟨htx, d', hd', hr', hph', hreq ▸ h.serving_mono hw.fresh hs hcl⟩
  cases e with
  | assign q c tx =>
      rcases PartialMap.insert_eq_some.mp hp with ⟨rfl, rfl⟩ | ⟨-, hp⟩
      · have hw' := @Step.wf_service serde w w' _ h hw
        cases h with
        | assign hq hph hs =>
            obtain ⟨hg, rfl⟩ := ServerState.park_eq_some.mp hs
            obtain ⟨⟨h₁, -⟩, h₂⟩ := hw' hg
            exact ⟨rfl, _, World.setDispatch_dispatches_same, (hw.dispatch hq).locking hph,
              .inl (congrArg some h₁), h₂⟩
      · exact old hp (by simp) (by simp) (by simp)
  | respond c m r tx =>
      have htx : tx = (w.state.claim c r.requestId).1 := by cases h; rfl
      cases hcl : (w.state.claim c r.requestId).1 with
      | none =>
          rw [Event.onPending, ServerState.claim_none hcl] at hp
          exact old hp (by simp) (by simp) (by simp [htx, hcl])
      | some q =>
          obtain ⟨hpend, herase⟩ := ServerState.claim_some hcl
          rw [Event.onPending, herase] at hp
          obtain ⟨hne, hp⟩ := PartialMap.erase_eq_some.mp hp
          have hq : q = r.requestId := (hw.pending hpend).1
          refine old hp (by simp) (by simp) fun c' m' r' e => hne ?_
          cases e
          exact Option.some.inj (htx.trans (hcl.trans (congrArg some hq)))
  | cleanup c s =>
      obtain ⟨hp, hne⟩ := PartialMap.retain_eq_some.mp hp
      exact old hp (fun _ e => by cases e; simp at hne) (by simp) (by simp)
  | ret q r =>
      cases r with
      | ok r =>
          refine old hp (by simp) (fun r' e => ?_) (by simp)
          cases e
          cases h with
          | answered hq _ hr =>
              obtain ⟨-, d, hd, hr', -⟩ := hw.pending hp
              cases hq.symm.trans hd
              rw [hr] at hr'; cases hr'
      | error err =>
          obtain ⟨hne, hp⟩ := PartialMap.erase_eq_some.mp hp
          exact old hp (by simp) (fun r' e => hne (by cases e; rfl)) (by simp)
  | _ => exact old hp (by simp) (by simp) (by simp)

theorem World.Wf.closesOthers (hw : w.Wf) : w.ClosesOthers := fun hk hp => (hw.closing hk hp).1

theorem Step.wf_replaced {e : Event} (h : Step serde w e w') (hw : w.Wf) {c : ConnId}
    {k' : Connection} {s : String} {g : ServiceHandle} (hk' : w'.conns c = some k')
    (hp' : k'.phase = .registered s (some g)) :
    World.OneConnection g ∧ g.connId ≠ c ∧ w'.registeredFor g.connId = some s := by
  have old : ∀ {k}, w.conns c = some k → k.phase = .registered s (some g) →
      World.OneConnection g ∧ g.connId ≠ c ∧ w'.registeredFor g.connId = some s := by
    intro _ hk hp
    obtain ⟨h₁, h₂, h₃⟩ := hw.replaced hk hp
    exact ⟨h₁, h₂, h.registeredFor_mono hw.fresh h₃⟩
  rcases h.move_inv hw.fresh hw.closesOthers hk' with ⟨-, -, rfl⟩ | ⟨k, hk, hm⟩
  · cases hp'
  · cases hm with
    | own hs =>
        have hn := hs.next
        generalize hq : k.phase = p at hn
        rw [hp'] at hn
        cases hn with
        | stay _ => exact old hk hq
    | register _ =>
        obtain ⟨rfl, hg⟩ := Phase.registered.inj hp'
        obtain ⟨hone, hs⟩ := hw.service hg
        have hr := World.registeredFor_of_serving hs
        refine ⟨hone, ?_, h.registeredFor_mono hw.fresh hr⟩
        rintro rfl
        rw [h.registeredFor_of_register] at hr; cases hr
    | closeReplaced _ _ | respond _ | cleanup _ | runReturned _ _ => cases hp'
    | closed _ | drainEnd _ _ _ | send _ | other _ => exact old hk hp'

theorem Step.wf_closing {e : Event} (h : Step serde w e w') (hw : w.Wf) {c : ConnId}
    {k' : Connection} {s : String} {old : ConnId} (hk' : w'.conns c = some k')
    (hp' : k'.phase = .closing s old) : old ≠ c ∧ w'.registeredFor old = some s := by
  have stay : ∀ {k}, w.conns c = some k → k.phase = .closing s old →
      old ≠ c ∧ w'.registeredFor old = some s := by
    intro _ hk hp
    obtain ⟨h₁, h₂⟩ := hw.closing hk hp
    exact ⟨h₁, h.registeredFor_mono hw.fresh h₂⟩
  rcases h.move_inv hw.fresh hw.closesOthers hk' with ⟨-, -, rfl⟩ | ⟨k, hk, hm⟩
  · cases hp'
  · cases hm with
    | own hs =>
        have hn := hs.next
        generalize hq : k.phase = p at hn
        rw [hp'] at hn
        cases hn with
        | stay _ => exact stay hk hq
        | displace =>
            obtain ⟨⟨-, hone⟩, hne, hr⟩ := hw.replaced hk hq
            rw [hone]
            exact ⟨hne, h.registeredFor_mono hw.fresh hr⟩
    | register _ | closeReplaced _ _ | respond _ | cleanup _ | runReturned _ _ => cases hp'
    | closed _ | drainEnd _ _ _ | send _ | other _ => exact stay hk hp'

theorem Step.wf {e : Event} (h : Step serde w e w') (hw : w.Wf) : w'.Wf where
  fresh := h.fresh hw.fresh
  service := h.wf_service hw
  pending := h.wf_pending hw
  dispatch := h.wf_dispatch hw
  replaced := h.wf_replaced hw
  closing := h.wf_closing hw

end

theorem wf_new (config : ServerConfig) : (World.new config).Wf where
  fresh _ _ := rfl
  service h := by cases h
  pending h := by cases h
  dispatch h := by cases h
  replaced h := by cases h
  closing h := by cases h

/-- **Every state a server reaches is well formed.** -/
theorem wf_of_run {serde : SerdeJson} {config : ServerConfig} {tr : List Event} {w : World}
    (h : ServerRun serde config tr w) : w.Wf :=
  h.preserves (fun hw hs => hs.wf hw) (wf_new config)

end Outpunch
