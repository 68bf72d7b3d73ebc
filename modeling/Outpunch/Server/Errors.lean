import Outpunch.Server.Handshake

/-!
# Server — what a tunnel error means

A sender is cloned from a sender, so once the last one of a connection is gone no task can get one
(`Step.held_inv`); as the drain task waits for that, a `dispatch` that sends never finds it over
(`not_held_of_ended`).  A dispatch whose response channel lost its sender was cleaned up after
(`parked_or_cleaned`).  So each error of `dispatch` has the one cause its name says
(`errors_mean_what_they_say`).
-/

namespace Outpunch

variable {serde : SerdeJson} {config : ServerConfig} {tr : List Event} {w w' : World} {c : ConnId}
  {q : RequestId} {e : Event}

/-! ### Senders come from senders -/

/-- `run` of a connection does not take its sender back. -/
theorem Connection.Move.holdsOutgoing {k k' : Connection}
    (hm : Connection.Move serde w c k e k') (h : k'.phase.holdsOutgoing) :
    k.phase.holdsOutgoing := by
  cases hm with
  | own hs =>
      by_contra hno
      rw [hs.next.holdsOutgoing (Bool.eq_false_iff.mpr hno)] at h
      cases h
  | register hp | closeReplaced hp _ | respond hp | cleanup hp => rw [hp]; rfl
  | runReturned _ _ => cases h
  | closed _ | drainEnd _ _ _ | send _ | other _ => exact h

/-- A handle that was replaced was registered. -/
theorem Connection.Move.replaced_inv {k k' : Connection} {s : String} {g : ServiceHandle}
    (hm : Connection.Move serde w c k e k') (h : k'.phase = .registered s (some g)) :
    k.phase = .registered s (some g) ∨ w.state.services s = some g := by
  cases hm with
  | own hs =>
      have hn := hs.next
      rw [h] at hn
      generalize hp : k.phase = p at hn
      cases hn with
      | stay _ => exact .inl rfl
  | register _ =>
      obtain ⟨rfl, hs⟩ := Phase.registered.inj h
      exact .inr hs
  | closeReplaced _ _ | respond _ | cleanup _ | runReturned _ _ => cases h
  | closed _ | drainEnd _ _ _ | send _ | other _ => exact .inl h

/-- A handle that is registered was, or is of a connection that registers now. -/
theorem Step.registry_inv (hs : Step serde w e w') {s : String} {g : ServiceHandle}
    (hg : w'.state.services s = some g) :
    w.state.services s = some g ∨ ∃ c, e = .register c s ∧ g.outgoingTx = c := by
  rw [hs.services] at hg
  cases e with
  | register c' s' =>
      rcases PartialMap.insert_eq_some.mp hg with ⟨rfl, rfl⟩ | ⟨-, hg⟩
      · exact .inr ⟨c', rfl, rfl⟩
      · exact .inl hg
  | cleanup c' s' =>
      by_cases hss : s = s'
      · subst hss
        exact .inl (ServerState.cleanup_services_eq_some.mp hg).1
      · exact .inl ((ServerState.cleanup_services_other hss).symm.trans hg)
  | _ => exact .inl hg

/-- A dispatch that has a sender had it, or cloned it from a handle that is registered. -/
theorem Dispatch.Move.sender_inv {d d' : Dispatch} (hm : Dispatch.Move w q d e d')
    (h : d'.phase.outgoingTx = some c) :
    d.phase.outgoingTx = some c ∨ ∃ s g, w.state.services s = some g ∧ g.outgoingTx = c := by
  cases hm with
  | notConnected _ _ | answered _ _ | failed _ | cancel _ => cases h
  | assign _ hs => exact .inr ⟨_, _, hs, Option.some.inj h⟩
  | send hp => exact .inl (by rw [hp]; exact h)
  | fail hp => exact .inl (by rcases hp with hp | hp <;> rw [hp] <;> exact h)
  | respond _ => exact .inl (by revert h; unfold Dispatch.answer; split <;> exact id)
  | other _ => exact .inl h

/-- **A sender comes from a sender**: a connection that has one after a step had one before. -/
theorem Step.held_inv (hs : Step serde w e w') (hw : w.Wf) {k : Connection}
    (hk : w.conns c = some k) {o : Holder} (h : w'.Holds c o) : ∃ o, w.Holds c o := by
  cases o with
  | run =>
      obtain ⟨k', hk', hp⟩ := h
      obtain ⟨k'', hk'', hm⟩ := hs.move hw.fresh hw.closesOthers hk
      cases hk''.symm.trans hk'
      exact ⟨.run, k, hk, hm.holdsOutgoing hp⟩
  | registry s =>
      obtain ⟨g, hg, htx⟩ := h
      rcases hs.registry_inv hg with hg | ⟨c', rfl, hc'⟩
      · exact ⟨.registry s, g, hg, htx⟩
      · obtain rfl : c' = c := hc'.symm.trans htx
        cases hs with
        | register hk hp => exact ⟨.run, _, hk, by rw [hp]; rfl⟩
  | dispatch q =>
      obtain ⟨d', hd', htx⟩ := h
      rcases hs.dispatch_move_inv hd' with ⟨-, incoming, -, rfl⟩ | ⟨d, hd, hm⟩
      · cases htx
      · rcases hm.sender_inv htx with htx | ⟨s, g, hg, htx⟩
        · exact ⟨.dispatch q, d, hd, htx⟩
        · exact ⟨.registry s, g, hg, htx⟩
  | replacing c' =>
      obtain ⟨k', s, g, hk', hp, htx⟩ := h
      rcases hs.move_inv hw.fresh hw.closesOthers hk' with ⟨-, -, rfl⟩ | ⟨k₀, hk₀, hm⟩
      · cases hp
      · rcases hm.replaced_inv hp with hp | hg
        · exact ⟨.replacing c', k₀, s, g, hk₀, hp, htx⟩
        · exact ⟨.registry s, g, hg, htx⟩

/-- The drain task of a connection is over by a panic, or when no one holds a sender. -/
theorem Connection.Move.drain_ended_inv {k k' : Connection}
    (hm : Connection.Move serde w c k e k') (hpanic : ∀ text, e ≠ .conn c (.panic text))
    (hd : k'.drain = .ended) : k.drain = .ended ∨ ∀ o, ¬ w.Holds c o := by
  cases hm with
  | own hs =>
      cases hs with
      | run _ => cases hd
      | panic _ _ => exact absurd rfl (hpanic _)
      | _ => exact .inl hd
  | drainEnd _ _ hh => exact .inr hh
  | _ => exact .inl hd

/-- **Where the drain task is over, no one holds a sender**, if no callback panicked. -/
theorem not_held_of_ended (h : ServerRun serde config tr w)
    (hpanic : ∀ c text, .conn c (.panic text) ∉ tr) {k : Connection} (hk : w.conns c = some k)
    (hd : k.drain = .ended) : ∀ o, ¬ w.Holds c o := by
  refine h.invariant (fun tr w => (∀ c text, .conn c (.panic text) ∉ tr) →
      ∀ k, w.conns c = some k → k.drain = .ended → ∀ o, ¬ w.Holds c o)
    (fun _ k hk => by cases hk) (fun {tr w e w'} hr ih hs hpanic k' hk' hd' o ho => ?_)
    hpanic k hk hd
  have hw := wf_of_run hr
  have hold : ∀ c text, .conn c (.panic text) ∉ tr := fun c text hmem =>
    hpanic c text (List.mem_append_left _ hmem)
  rcases hs.move_inv hw.fresh hw.closesOthers hk' with ⟨-, -, rfl⟩ | ⟨k, hk, hm⟩
  · cases hd'
  · obtain ⟨o', ho'⟩ := hs.held_inv hw hk ho
    have hnow : ∀ text, e ≠ .conn c (.panic text) := fun text he => hpanic c text (by simp [he])
    rcases hm.drain_ended_inv hnow hd' with hd | hno
    · exact ih hold k hk hd o' ho'
    · exact hno o' ho'

/-! ### The causes of the errors of an exchange -/

/-- An entry stays while nothing concerns its dispatch and its connection is not cleaned up. -/
theorem Step.pending_kept (hs : Step serde w e w') (hw : w.Wf) {p : PendingRequest}
    (hp : w.state.pending q = some p) (hq : ¬ e.ConcernsDispatch q)
    (hc : ∀ s, e ≠ .cleanup p.connId s) : w'.state.pending q = some p := by
  rw [hs.pending hw]
  cases e with
  | assign q' c tx => exact (PartialMap.insert_other (Ne.symm hq)).trans hp
  | respond c m r tx =>
      have htx : tx = (w.state.claim c r.requestId).1 := by cases hs; rfl
      cases hcl : (w.state.claim c r.requestId).1 with
      | none => rw [Event.onPending, ServerState.claim_none hcl]; exact hp
      | some q' =>
          obtain ⟨hpend, herase⟩ := ServerState.claim_some hcl
          have hne : q ≠ r.requestId := fun heq => hq (by
            rw [Event.ConcernsDispatch, htx, hcl, heq]
            exact congrArg some (hw.pending hpend).1)
          rw [Event.onPending, herase]
          exact (PartialMap.erase_other hne).trans hp
  | cleanup c s => exact PartialMap.retain_eq_some.mpr ⟨hp, by
      simpa using fun hcc => hc s (by rw [hcc])⟩
  | ret q' r =>
      cases r with
      | ok r => exact hp
      | error err => exact (PartialMap.erase_other (Ne.symm hq)).trans hp
  | _ => exact hp

/-- **A dispatch in its exchange has its entry, its response, or lost its connection**: the entry
is that of its own connection, and a cleanup of it is what removes it unanswered. -/
theorem parked_or_cleaned (h : ServerRun serde config tr w) {d : Dispatch}
    (hd : w.dispatches q = some d) {tx : OutgoingTx}
    (hp : d.phase = .sending tx ∨ d.phase = .waiting tx) (hr : d.resp = none) :
    w.state.pending q = some { connId := tx, tx := q } ∨ ∃ s, .cleanup tx s ∈ tr := by
  refine h.invariant (fun tr w => ∀ d tx, w.dispatches q = some d →
      d.phase = .sending tx ∨ d.phase = .waiting tx → d.resp = none →
      w.state.pending q = some { connId := tx, tx := q } ∨ ∃ s, .cleanup tx s ∈ tr)
    (fun d tx hd => by cases hd) (fun {tr w e w'} hrun ih hs d' tx hd' hp hr => ?_) d tx hd hp hr
  have hw := wf_of_run hrun
  rcases hs.dispatch_move_inv hd' with ⟨-, incoming, -, rfl⟩ | ⟨d, hd, hm⟩
  · rcases hp with hp | hp <;> cases hp
  cases hm with
  | notConnected _ _ | answered _ _ | failed _ | cancel _ | fail _ =>
      rcases hp with hp | hp <;> cases hp
  | @assign g _ hserv =>
      obtain rfl : g.outgoingTx = tx := by rcases hp with hp | hp <;> cases hp; rfl
      have hone : g.outgoingTx = g.connId := (hw.service hserv).1.1
      refine .inl ?_
      rw [hs.pending hw, Event.onPending, hone]
      exact PartialMap.insert_same ..
  | @send tx' hp' =>
      obtain rfl : tx' = tx := by rcases hp with hp | hp <;> cases hp; rfl
      rw [hs.pending hw]
      rcases ih d tx' hd (.inl hp') hr with hpend | ⟨s, hs⟩
      · exact .inl hpend
      · exact .inr ⟨s, List.mem_append_left _ hs⟩
  | respond _ =>
      -- it is answered, or no more receiving
      unfold Dispatch.answer at hp hr
      split at hr
      · cases hr
      · rename_i hrecv
        rw [if_neg hrecv] at hp
        rcases hp with hp | hp <;> rw [hp] at hrecv <;> exact absurd rfl hrecv
  | other hno =>
      rcases ih _ tx hd hp hr with hpend | ⟨s, hs⟩
      · by_cases hc : ∃ s, e = .cleanup tx s
        · obtain ⟨s, rfl⟩ := hc
          exact .inr ⟨s, by simp⟩
        · exact .inl (hs.pending_kept hw hpend hno fun s he => hc ⟨s, he⟩)
      · exact .inr ⟨s, List.mem_append_left _ hs⟩

/-- What an error of the exchange of `q` with the connection `tx` comes from. -/
def ErrorCause (tr : List Event) (q : RequestId) (tx : OutgoingTx) : TunnelError → Prop
  | .disconnected => ∃ s, .cleanup tx s ∈ tr
  | .timeout => .fail q .timeout ∈ tr
  | .notConnected | .connectionLost => False

theorem ErrorCause.append {tx : OutgoingTx} {err : TunnelError} (h : ErrorCause tr q tx err)
    (tr' : List Event) : ErrorCause (tr ++ tr') q tx err := by
  cases err with
  | disconnected =>
      obtain ⟨s, hs⟩ := h
      exact ⟨s, List.mem_append_left _ hs⟩
  | timeout => exact List.mem_append_left _ h
  | notConnected | connectionLost => exact h

/-- The exchange of a dispatch ends with an error. -/
theorem Step.errorCause (hs : Step serde w e w') (h : ServerRun serde config tr w)
    (hpanic : ∀ c text, .conn c (.panic text) ∉ tr) {err : TunnelError} (he : e = .fail q err)
    {d : Dispatch} (hd : w.dispatches q = some d) {tx : OutgoingTx}
    (hp : d.phase = .sending tx ∨ d.phase = .waiting tx) : ErrorCause (tr ++ [e]) q tx err := by
  subst he
  cases hs with
  | @connectionLost _ d' tx' k hd' hp' hk hended =>
      -- the dispatch itself holds a sender
      exact absurd ⟨d', hd', by rw [hp']; rfl⟩ (not_held_of_ended h hpanic hk hended (.dispatch q))
  | disconnected hd' hp' hr hsender =>
      cases hd.symm.trans hd'
      rcases parked_or_cleaned h hd hp hr with hpend | ⟨s, hs⟩
      · exact absurd ⟨q, _, hpend, rfl⟩ hsender
      · exact ⟨s, List.mem_append_left _ hs⟩
  | timeout _ _ => exact List.mem_append_right _ (List.mem_singleton_self _)

theorem errorCause_of_failed (h : ServerRun serde config tr w)
    (hpanic : ∀ c text, .conn c (.panic text) ∉ tr) {d : Dispatch} (hd : w.dispatches q = some d)
    {tx : OutgoingTx} {err : TunnelError} (hp : d.phase = .failed tx err) :
    ErrorCause tr q tx err := by
  refine dispatch_invariant (fun tr d => (∀ c text, .conn c (.panic text) ∉ tr) →
      d.phase = .failed tx err → ErrorCause tr q tx err)
    (fun _ hp => by cases hp) (fun {tr w d e w' d'} hr hd ih hs hm hpanic hp => ?_) h hd hpanic hp
  have hold : ∀ c text, .conn c (.panic text) ∉ tr := fun c text hmem =>
    hpanic c text (List.mem_append_left _ hmem)
  cases hm with
  | notConnected _ _ | assign _ _ | send _ | answered _ _ | failed _ | cancel _ => cases hp
  | fail hph =>
      cases hp
      exact hs.errorCause hr hold rfl hd hph
  | respond _ =>
      refine (ih hold ?_).append _
      revert hp
      unfold Dispatch.answer
      split <;> exact id
  | other _ => exact (ih hold hp).append _

/-! ### After an error -/

/-- A dispatch that returned an error has no entry, and gets none. -/
theorem pending_of_error (h : ServerRun serde config tr w) {err : TunnelError}
    (hs : Step serde w (.ret q (.error err)) w') {tr' : List Event} {u : World}
    (hrun : Lts.Run (Step serde) w' tr' u) : u.state.pending q = none := by
  have hret : ∀ {tr' u}, Lts.Run (Step serde) w' tr' u →
      ServerRun serde config (tr ++ _ ++ tr') u := fun hrun => (h.snoc hs).append hrun
  refine hrun.invariant (fun _ u => u.state.pending q = none) ?_ fun {tr₁ u e u'} hrun ih hs' => ?_
  · rw [hs.pending (wf_of_run h)]
    exact PartialMap.erase_same ..
  · have hmem : .ret q (.error err) ∈ tr ++ [.ret q (.error err)] ++ tr₁ := by simp
    obtain ⟨d, hd, hp⟩ := returned_of_run (hret hrun) hmem
    exact hs'.pending_none (wf_of_run (hret hrun)) hd (by rw [hp]; simp) ih

/-- **Tunnel errors mean what they say**, if no callback panics.  `NotConnected` is returned where
no connection is registered, and leaves nothing behind; `Disconnected` where the connection the
request was assigned to was cleaned up; `ConnectionLost` never; and `Timeout` otherwise, after the
timer fired.  No entry of the request is left then, and nothing else was touched. -/
theorem errors_mean_what_they_say (h : ServerRun serde config tr w)
    (hpanic : ∀ c text, .conn c (.panic text) ∉ tr) {err : TunnelError}
    (hs : Step serde w (.ret q (.error err)) w') :
    (err = .notConnected →
      (∃ incoming, .request q incoming ∈ tr ∧ w.state.services incoming.service = none) ∧
      (∀ c tx, .assign q c tx ∉ tr) ∧ (∀ tx json, .send q tx json ∉ tr) ∧
      w'.state = w.state ∧ w'.conns = w.conns) ∧
    (err = .disconnected → ∃ c s, .assign q c c ∈ tr ∧ .cleanup c s ∈ tr) ∧
    err ≠ .connectionLost ∧
    (err ≠ .notConnected → err ≠ .disconnected → err = .timeout ∧ .fail q .timeout ∈ tr) ∧
    (∀ tr' u, Lts.Run (Step serde) w' tr' u → u.state.pending q = none) ∧
    (∀ id, id ≠ q → w'.state.pending id = w.state.pending id) ∧
    w'.state.services = w.state.services := by
  have hkept : (∀ id, id ≠ q → w'.state.pending id = w.state.pending id) ∧
      w'.state.services = w.state.services :=
    ⟨fun id hid => by rw [hs.pending (wf_of_run h)]; exact PartialMap.erase_other hid, hs.services⟩
  refine and_assoc.mp <| and_assoc.mp <| and_assoc.mp ⟨?_, fun _ _ => pending_of_error h hs, hkept⟩
  cases hs with
  | @notConnected _ d hd hp hnone =>
      obtain ⟨incoming, hin, hreq, -⟩ := requested_of_run h hd
      have hassign : ∀ c tx, .assign q c tx ∉ tr := by
        intro c tx ha
        obtain ⟨-, d', hd', hp'⟩ := assigned_of_run h ha
        cases hd.symm.trans hd'
        exact hp' hp
      refine ⟨⟨⟨fun _ => ⟨⟨incoming, hin, ?_⟩, hassign, fun tx json hsend =>
        hassign _ _ (sent_of_run h hsend).1, rfl, rfl⟩, nofun⟩, nofun⟩, fun hne => absurd rfl hne⟩
      rw [ServerState.park_eq_none, hreq] at hnone
      exact hnone
  | @failed _ d tx _ hd hp =>
      have hcause := errorCause_of_failed h hpanic hd hp
      have hassign := assign_of_sender h hd (c := tx) (by rw [hp]; rfl)
      cases err with
      | notConnected | connectionLost => exact absurd hcause id
      | disconnected =>
          obtain ⟨s, hs⟩ := hcause
          exact ⟨⟨⟨nofun, fun _ => ⟨tx, s, hassign, hs⟩⟩, nofun⟩, fun _ hne => absurd rfl hne⟩
      | timeout => exact ⟨⟨⟨nofun, nofun⟩, nofun⟩, fun _ _ => ⟨rfl, hcause⟩⟩

/-- No response comes to a request in time. -/
theorem errors_mean_what_they_say_timeout :
    ∃ tr w w', ServerRun compactJson demoConfig tr w ∧
      Step compactJson w (.ret "q" (.error .timeout)) w' ∧ .fail "q" .timeout ∈ tr ∧
      w'.state.pending "q" = none := by
  obtain ⟨w', h⟩ := @exists_run compactJson demoConfig
    (registration compactJson demoConfig 1 "app" ++ dispatching compactJson 1 "q" demoRequest ++
      [.fail "q" .timeout] ++ [.ret "q" (.error .timeout)]) (by decide +kernel)
  obtain ⟨w, hrun, hs⟩ := h.snoc_inv
  have hpanic : ∀ c text, .conn c (.panic text) ∉ registration compactJson demoConfig 1 "app" ++
      dispatching compactJson 1 "q" demoRequest ++ [.fail "q" .timeout] := by
    simp [registration, handshake, pushing, dispatching]
  obtain ⟨-, -, -, htimeout, hpend, -⟩ := errors_mean_what_they_say hrun hpanic hs
  exact ⟨_, w, w', hrun, hs, (htimeout (by simp) (by simp)).2, hpend [] w' .nil⟩

end Outpunch
