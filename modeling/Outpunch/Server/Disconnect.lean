import Outpunch.Server.Exec
import Outpunch.Server.History

/-!
# Server — a disconnect is final

Once `cleanup_connection` has run for a connection, the connection serves nothing any more
(`serving_of_cleaned`), and no map points at it.  A dispatch that was assigned to it finds its
oneshot sender dropped, so it ends without its timer: the drain task makes room for a send that is
still blocked, or is gone, and the wait fails at once (`exists_return`).
-/

namespace Outpunch

variable {serde : SerdeJson} {config : ServerConfig} {tr : List Event} {w : World} {c : ConnId}
  {s : String}

/-! ### No map points at it -/

theorem services_of_cleaned (h : ServerRun serde config tr w) (hc : .cleanup c s ∈ tr)
    {s' : String} {g : ServiceHandle} (hg : w.state.services s' = some g) : g.connId ≠ c := by
  rintro rfl
  have := ((wf_of_run h).service hg).2
  rw [serving_of_cleaned h hc] at this; cases this

theorem pending_of_cleaned (h : ServerRun serde config tr w) (hc : .cleanup c s ∈ tr)
    {id : RequestId} {p : PendingRequest} (hp : w.state.pending id = some p) : p.connId ≠ c := by
  rintro rfl
  obtain ⟨-, d, -, -, -, hs⟩ := (wf_of_run h).pending hp
  rw [serving_of_cleaned h hc] at hs; cases hs

/-- The next step assigns nothing to it. -/
theorem not_assigned_of_cleaned (h : ServerRun serde config tr w) (hc : .cleanup c s ∈ tr)
    {w' : World} {q : RequestId} {tx : OutgoingTx} : ¬ Step serde w (.assign q c tx) w' := by
  intro hs
  obtain ⟨-, d, -, -, hserv⟩ := hs.assign_inv (wf_of_run h)
  rw [serving_of_cleaned h hc] at hserv; cases hserv

/-- The sender of the oneshot channel of a dispatch assigned to it is gone. -/
theorem not_senderParked_of_cleaned (h : ServerRun serde config tr w) (hc : .cleanup c s ∈ tr)
    {q : RequestId} {tx : OutgoingTx} (ha : .assign q c tx ∈ tr) : ¬ w.SenderParked q := by
  rintro ⟨id, p, hp, rfl⟩
  have htx : p.tx = id := ((wf_of_run h).pending hp).1
  have ha' := assign_of_pending h hp
  rw [← htx] at ha'
  exact pending_of_cleaned h hc hp (assigned_unique h ha' ha)

/-! ### A dispatch assigned to it ends -/

/-- No further step answers a dispatch assigned to it. -/
theorem Dispatch.Move.resp_of_cleaned (h : ServerRun serde config tr w) (hc : .cleanup c s ∈ tr)
    {q : RequestId} {tx : OutgoingTx} (ha : .assign q c tx ∈ tr) {d d' : Dispatch} {e : Event}
    (hm : Dispatch.Move w q d e d') : d'.resp = d.resp := by
  cases hm with
  | respond hcl =>
      obtain ⟨hp, -⟩ := ServerState.claim_some hcl
      exact absurd ⟨_, _, hp, rfl⟩ (not_senderParked_of_cleaned h hc ha)
  | _ => rfl

/-- A dispatch assigned to it returns only what its channel already holds, or an error. -/
theorem resp_of_cleaned (h : ServerRun serde config tr w) (hc : .cleanup c s ∈ tr)
    {q : RequestId} {tx : OutgoingTx} (ha : .assign q c tx ∈ tr) {d : Dispatch}
    (hd : w.dispatches q = some d) {tr' : List Event} {w' : World}
    (h' : Lts.Run (Step serde) w tr' w') :
    ∃ d', w'.dispatches q = some d' ∧ d'.resp = d.resp := by
  refine h'.invariant (fun _ w' => ∃ d', w'.dispatches q = some d' ∧ d'.resp = d.resp)
    ⟨d, hd, rfl⟩ fun {tr₁ u e u'} hrun ih hs => ?_
  obtain ⟨d₁, hd₁, hr⟩ := ih
  obtain ⟨d', hd', hm⟩ := hs.dispatch_move hd₁
  have hall : ServerRun serde config (tr ++ tr₁) u := h.append hrun
  exact ⟨d', hd', (hm.resp_of_cleaned hall (List.mem_append_left _ hc)
    (List.mem_append_left _ ha)).trans hr⟩

/-- The events a dispatch `q` assigned to `c` may end by without its timer: the drain task of `c`
takes messages, and `q` itself moves on. -/
def Event.EndsWithoutTimer (c : ConnId) (q : RequestId) : Event → Prop
  | .conn c' (.deliver _) | .conn c' (.discard _) => c' = c
  | .send q' _ _ | .ret q' _ => q' = q
  | .fail q' err => q' = q ∧ err ≠ .timeout
  | _ => False

variable (serde) in
/-- A drain task makes room. -/
theorem exists_room (q : RequestId) {callback : Bool} (l : List String) {w : World}
    {k : Connection} (hk : w.conns c = some k) (hl : k.outgoing = l)
    (hd : k.drain = .running callback) :
    ∃ tr' w' k', Lts.Run (Step serde) w tr' w' ∧ (∀ e ∈ tr', e.EndsWithoutTimer c q) ∧
      w'.dispatches = w.dispatches ∧ w'.conns c = some k' ∧ k'.canSend := by
  induction l generalizing w k with
  | nil => exact ⟨[], w, k, .nil, by simp, rfl, hk, by simp [Connection.canSend, hl, hd,
      channelCapacity]⟩
  | cons text rest ih =>
      -- a step of the drain task, by whether it has a callback
      obtain ⟨e, hs, he⟩ : ∃ e, Connection.Step serde w.state.config k e
          { k with outgoing := rest } ∧ (Event.conn c e).EndsWithoutTimer c q := by
        cases callback with
        | true => exact ⟨_, .deliver hd hl, rfl⟩
        | false => exact ⟨_, .discard hd hl, rfl⟩
      obtain ⟨tr', w', k', hrun, hall, hdisp, hk', hcan⟩ :=
        ih (w := w.setConn c { k with outgoing := rest }) World.setConn_conns_same rfl hd
      exact ⟨.conn c e :: tr', w', k', hrun.cons (.conn hk hs), by simpa using ⟨he, hall⟩, hdisp,
        hk', hcan⟩

/-- A dispatch that waits for an answer of `c` ends at once. -/
theorem exists_return_of_waiting {q : RequestId} {d : Dispatch} {tx : OutgoingTx}
    (hs : ¬ w.SenderParked q) (hd : w.dispatches q = some d) (hp : d.phase = .waiting tx) :
    ∃ tr' w' r, Lts.Run (Step serde) w tr' w' ∧ .ret q r ∈ tr' ∧
      ∀ e ∈ tr', e.EndsWithoutTimer c q := by
  cases hr : d.resp with
  | some r =>
      exact ⟨_, _, .ok r, Lts.Run.one (.answered hd hp hr), by simp,
        by simp [Event.EndsWithoutTimer]⟩
  | none =>
      exact ⟨_, _, .error .disconnected, .cons (.disconnected hd hp hr hs)
        (Lts.Run.one (.failed World.setDispatch_dispatches_same rfl)), by simp,
        by simp [Event.EndsWithoutTimer]⟩

/-- **A dispatch assigned to a connection that was cleaned up can end without its timer.** -/
theorem exists_return (h : ServerRun serde config tr w) (hc : .cleanup c s ∈ tr) {q : RequestId}
    {tx : OutgoingTx} (ha : .assign q c tx ∈ tr) {d : Dispatch} (hd : w.dispatches q = some d)
    (hrun : d.phase.running) :
    ∃ tr' w' r, Lts.Run (Step serde) w tr' w' ∧ .ret q r ∈ tr' ∧
      ∀ e ∈ tr', e.EndsWithoutTimer c q := by
  have hparked := not_senderParked_of_cleaned h hc ha
  cases hp : d.phase with
  | locking =>
      obtain ⟨-, d', hd', hp'⟩ := assigned_of_run h ha
      cases hd.symm.trans hd'
      exact absurd hp hp'
  | returned r => rw [hp] at hrun; cases hrun
  | cancelled => rw [hp] at hrun; cases hrun
  | failed tx err =>
      exact ⟨_, _, .error err, Lts.Run.one (.failed hd hp), by simp,
        by simp [Event.EndsWithoutTimer]⟩
  | waiting tx => exact exists_return_of_waiting hparked hd hp
  | sending tx' =>
      obtain rfl : c = tx' :=
        assigned_unique h ha (assign_of_sender h hd (by rw [hp]; rfl))
      have hreg : w.registeredFor c = some d.req.service :=
        ((wf_of_run h).dispatch hd).sender c (by rw [hp]; rfl)
      obtain ⟨k, hk, hphase⟩ := World.observe_eq_some hreg
      have hidle : k.drain ≠ .idle := by
        intro hd
        rw [(drain_idle_iff h hk).mp hd] at hphase; cases hphase
      cases hdr : k.drain with
      | idle => exact absurd hdr hidle
      | ended =>
          exact ⟨_, _, .error .connectionLost, .cons (.connectionLost hd hp hk hdr)
            (Lts.Run.one (.failed World.setDispatch_dispatches_same rfl)), by simp,
            by simp [Event.EndsWithoutTimer]⟩
      | running callback =>
          obtain ⟨tr₁, w₁, k₁, hrun₁, hall₁, hdisp, hk₁, hcan⟩ :=
            exists_room serde q k.outgoing hk rfl hdr
          have hd₁ : w₁.dispatches q = some d := hdisp ▸ hd
          have hsend : Step serde w₁ _ _ := .send hd₁ hp hk₁ hcan
          have hrun₂ := hrun₁.snoc hsend
          obtain ⟨tr₃, w₃, r, hrun₃, hret, hall₃⟩ := exists_return_of_waiting (c := c)
            (not_senderParked_of_cleaned (h.append hrun₂) (List.mem_append_left _ hc)
              (List.mem_append_left _ ha)) World.setDispatch_dispatches_same rfl
          refine ⟨_, w₃, r, hrun₂.append hrun₃, List.mem_append_right _ hret, fun e he => ?_⟩
          rcases List.mem_append.mp he with he | he
          · rcases List.mem_append.mp he with he | he
            · exact hall₁ e he
            · obtain rfl := List.mem_singleton.mp he
              exact rfl
          · exact hall₃ e he

/-! ### Who still holds its outgoing sender -/

/-- What a holder of the outgoing sender of `c` may be, once `c` was cleaned up: its own `run`
before the drop at its end, a dispatch assigned to it that is still running, or a connection that
registered over it and still holds the handle it replaced. -/
def HolderOfCleaned (tr : List Event) (w : World) (c : ConnId) : Holder → Prop
  | .run => ∃ k, w.conns c = some k ∧ k.phase.holdsOutgoing
  | .registry _ => False
  | .dispatch q => .assign q c c ∈ tr ∧ .cancel q ∉ tr ∧ ∀ r, .ret q r ∉ tr
  | .replacing c' => ∃ k s g, w.conns c' = some k ∧ k.phase = .registered s (some g) ∧
      g.connId = c ∧ .register c s ∈ tr ∧ .register c' s ∈ tr

theorem holderOfCleaned_of_run (h : ServerRun serde config tr w) (hc : .cleanup c s ∈ tr) :
    ∀ o, w.Holds c o → HolderOfCleaned tr w c o := by
  have hw := wf_of_run h
  rintro (_ | s' | q | c')
  · exact id
  · rintro ⟨g, hg, hone⟩
    exact services_of_cleaned h hc hg ((hw.service hg).1.1.symm.trans hone)
  · rintro ⟨d, hd, htx⟩
    refine ⟨assign_of_sender h hd htx, fun hcan => ?_, fun r hret => ?_⟩
    · obtain ⟨d', hd', hp⟩ := cancelled_of_run h hcan
      cases hd.symm.trans hd'
      rw [hp] at htx; cases htx
    · obtain ⟨d', hd', hp⟩ := returned_of_run h hret
      cases hd.symm.trans hd'
      rw [hp] at htx; cases htx
  · rintro ⟨k, s', g, hk, hp, htx⟩
    obtain ⟨⟨hone, -⟩, -, hreg⟩ := hw.replaced hk hp
    have hg : g.connId = c := hone.symm.trans htx
    refine ⟨k, s', g, hk, hp, hg, (registeredFor_iff h).mp (hg ▸ hreg), (registeredFor_iff h).mp ?_⟩
    exact (World.observe_eq _ hk).trans (by rw [hp]; rfl)

/-- **A disconnect is final.**  Once `c` was cleaned up, no map points at it, nothing is assigned
to it any more, what was assigned to it has lost its oneshot sender and ends without its timer,
and its outgoing sender is held by those of `HolderOfCleaned` only. -/
theorem disconnect_final (h : ServerRun serde config tr w) (hc : .cleanup c s ∈ tr) :
    (∀ s' g, w.state.services s' = some g → g.connId ≠ c) ∧
    (∀ id p, w.state.pending id = some p → p.connId ≠ c) ∧
    (∀ w' q tx, ¬ Step serde w (.assign q c tx) w') ∧
    (∀ q tx, .assign q c tx ∈ tr → ¬ w.SenderParked q ∧
      (∀ d, w.dispatches q = some d →
        (∀ tr' w' r, Lts.Run (Step serde) w tr' w' → .ret q (.ok r) ∈ tr' → d.resp = some r) ∧
        (d.phase.running → ∃ tr' w' r, Lts.Run (Step serde) w tr' w' ∧ .ret q r ∈ tr' ∧
          ∀ e ∈ tr', e.EndsWithoutTimer c q))) ∧
    (∀ o, w.Holds c o → HolderOfCleaned tr w c o) := by
  refine ⟨fun _ _ => services_of_cleaned h hc, fun _ _ => pending_of_cleaned h hc,
    fun _ _ _ => not_assigned_of_cleaned h hc, fun q tx ha =>
      ⟨not_senderParked_of_cleaned h hc ha, fun d hd => ⟨?_, exists_return h hc ha hd⟩⟩,
    holderOfCleaned_of_run h hc⟩
  intro tr' w' r hrun hret
  obtain ⟨tr₁, tr₂, u, u', -, hrun₁, hs, -⟩ := hrun.of_mem hret
  obtain ⟨d₁, hd₁, hr⟩ := resp_of_cleaned h hc ha hd hrun₁
  obtain ⟨d₂, -, hd₂, -, hr₂⟩ := hs.ret_ok_inv
  cases hd₁.symm.trans hd₂
  exact hr.symm.trans hr₂

/-- A client is closed while a request waits for it: the request can end without its timer. -/
theorem disconnect_final_waiting :
    ∃ tr w, .assign "q" 1 1 ∈ tr ∧ ServerRun compactJson demoConfig tr w ∧
      (∀ id p, w.state.pending id = some p → p.connId ≠ 1) ∧ ¬ w.SenderParked "q" := by
  obtain ⟨w, h⟩ := @exists_run compactJson demoConfig
    (registration compactJson demoConfig 1 "app" ++ dispatching compactJson 1 "q" demoRequest ++
      closing 1 "app") (by decide +kernel)
  have hassign : .assign "q" 1 1 ∈ registration compactJson demoConfig 1 "app" ++
      dispatching compactJson 1 "q" demoRequest ++ closing 1 "app" := by
    simp [dispatching]
  have hfinal := disconnect_final (c := 1) (s := "app") h (by simp [closing])
  exact ⟨_, w, hassign, h, hfinal.2.1, (hfinal.2.2.2.1 "q" 1 hassign).1⟩

end Outpunch
