import Outpunch.Library.Broker
import Outpunch.Server.Handshake

/-!
# Server — the server is a broker

What the server is for, without channels, tasks or timers: connections enroll for services and
requests are jobs for them.  `World.broker` reads a broker off the state of the server and
`Event.action` the action off an event; what is neither a registration, a cleanup nor a step of a
dispatch is none.  Each step of the server is the step of the broker its event stands for, or
leaves the broker as it is (`Step.broker`), so every run of the server is one of the broker
(`server_refines_broker`).
-/

namespace Outpunch

/-- Where a request stands that was parked under the connection `tx`. -/
def exchangeJob (tx : OutgoingTx) :
    Option TunnelResponse → Option PendingRequest → Job String ConnId TunnelResponse
  | some r, _ => .answered tx r
  | none, some _ => .given tx
  | none, none => .lost

/-- The job of a dispatch; `entry` is what the pending map has for it. -/
def Dispatch.job (entry : Option PendingRequest) (d : Dispatch) :
    Job String ConnId TunnelResponse :=
  match d.phase with
  | .locking => .waiting d.req.service
  | .sending tx | .waiting tx => exchangeJob tx d.resp entry
  | .returned (.ok r) => .done r
  | .failed _ _ | .returned (.error _) | .cancelled => .failed

/-- The broker a server is. -/
def World.broker (w : World) : Broker String ConnId RequestId TunnelResponse where
  holder := fun s => (w.state.services s).map (·.connId)
  enrolled := w.registeredFor
  present := w.serving
  jobs := fun q => (w.dispatches q).map (Dispatch.job (w.state.pending q))

/-- The action of an event. -/
def Event.action : Event → Option (Broker.Action String ConnId RequestId TunnelResponse)
  | .register c s => some (.enroll c s)
  | .cleanup c _ => some (.leave c)
  | .request q incoming => some (.submit q incoming.service)
  | .assign q c _ => some (.give q c)
  | .respond c _ r tx => tx.map fun q => .answer q c r
  | .fail q _ | .cancel q => some (.close q)
  | .ret q (.ok r) => some (.collect q r)
  | .ret q (.error .notConnected) => some (.refuse q)
  | _ => none

section

variable {serde : SerdeJson} {config : ServerConfig} {tr : List Event} {w w' : World} {e : Event}
  {q : RequestId} {d d' : Dispatch}

theorem exchangeJob_ne_done {tx : OutgoingTx} {resp : Option TunnelResponse}
    {entry : Option PendingRequest} (r : TunnelResponse) :
    exchangeJob tx resp entry ≠ .done r := by
  cases resp <;> cases entry <;> simp [exchangeJob]

theorem Dispatch.job_ne_done {entry : Option PendingRequest}
    (hp : ∀ r, d.phase ≠ .returned (.ok r)) (r : TunnelResponse) : d.job entry ≠ .done r := by
  unfold Dispatch.job
  split
  · simp
  · exact exchangeJob_ne_done r
  · exact exchangeJob_ne_done r
  · rename_i r' hr
    exact absurd hr (hp r')
  all_goals simp

/-- The job of a dispatch in its exchange. -/
theorem Dispatch.job_of_receiving {tx : OutgoingTx} {entry : Option PendingRequest}
    (hr : d.phase.receiving) (ht : d.phase.outgoingTx = some tx) :
    d.job entry = exchangeJob tx d.resp entry := by
  cases hp : d.phase with
  | sending tx' | waiting tx' =>
      rw [hp] at ht
      cases ht
      rw [Dispatch.job, hp]
  | _ => rw [hp] at hr; cases hr

/-- The job of a dispatch that was parked and whose receiver is gone. -/
theorem Dispatch.job_of_not_receiving {tx : OutgoingTx} {entry : Option PendingRequest}
    (hr : d.phase.receiving = false) (ht : d.phase.outgoingTx = some tx ∨ d.phase = .cancelled) :
    d.job entry = .failed := by
  cases hp : d.phase with
  | failed _ _ | cancelled => rw [Dispatch.job, hp]
  | sending _ | waiting _ => rw [hp] at hr; cases hr
  | locking | returned _ => rw [hp] at ht; rcases ht with ht | ht <;> cases ht

/-- A cleanup loses the jobs parked under its connection. -/
theorem exchangeJob_retain {c : ConnId} {tx : OutgoingTx} {resp : Option TunnelResponse}
    {entry : Option PendingRequest} (he : ∀ p, entry = some p → p.connId = tx) :
    exchangeJob tx resp (entry.filter fun p => p.connId ≠ c) =
      Broker.lose c (exchangeJob tx resp entry) := by
  cases resp with
  | some r => rfl
  | none =>
      cases entry with
      | none => rfl
      | some p =>
          obtain rfl := he p rfl
          by_cases hc : p.connId = c <;> simp [exchangeJob, Broker.lose, Option.filter, hc]

theorem World.Wf.job_cleaned (hw : w.Wf) (hd : w.dispatches q = some d) (c : ConnId) :
    d.job (w.state.pending.retain (fun p => p.connId ≠ c) q) =
      Broker.lose c (d.job (w.state.pending q)) := by
  have entry : ∀ {tx}, d.phase.outgoingTx = some tx →
      ∀ p, w.state.pending q = some p → p.connId = tx := by
    intro tx ht p hp
    obtain ⟨-, d', hd', -, hph, -⟩ := hw.pending hp
    cases hd.symm.trans hd'
    rcases hph with hph | hph
    · exact Option.some.inj (hph.symm.trans ht)
    · rw [hph] at ht; cases ht
  cases hp : d.phase with
  | sending tx =>
      simp only [Dispatch.job, hp]
      exact exchangeJob_retain (entry (by rw [hp]; rfl))
  | waiting tx =>
      simp only [Dispatch.job, hp]
      exact exchangeJob_retain (entry (by rw [hp]; rfl))
  | returned r => cases r <;> simp only [Dispatch.job, hp] <;> rfl
  | _ => simp only [Dispatch.job, hp]; rfl

theorem World.broker_job (hd : w.dispatches q = some d) :
    w.broker.jobs q = some (d.job (w.state.pending q)) := congrArg (Option.map _) hd

/-- What a step that touches one dispatch makes of the jobs. -/
theorem World.broker_jobs (hother : ∀ q' ≠ q, w'.dispatches q' = w.dispatches q' ∧
      w'.state.pending q' = w.state.pending q') (hd : w'.dispatches q = some d) :
    w'.broker.jobs = w.broker.jobs.insert q (d.job (w'.state.pending q)) := by
  funext q'
  by_cases hq : q' = q
  · subst hq
    rw [PartialMap.insert_same]
    exact World.broker_job hd
  · rw [PartialMap.insert_other hq]
    obtain ⟨h₁, h₂⟩ := hother q' hq
    unfold World.broker
    dsimp only
    rw [h₁, h₂]

/-- The broker after a step that is no registration and no cleanup. -/
theorem Step.broker_workers (hs : Step serde w e w') (hw : w.Wf)
    (hreg : ∀ c s, e ≠ .register c s) (hcl : ∀ c s, e ≠ .cleanup c s) :
    w'.broker = { w.broker with jobs := w'.broker.jobs } := by
  have h₁ := hs.services
  have h₂ := hs.registeredFor hw.fresh
  have h₃ := hs.serving hw.fresh
  cases e with
  | register c s => exact absurd rfl (hreg c s)
  | cleanup c s => exact absurd rfl (hcl c s)
  | _ => exact Broker.ext (by unfold World.broker; rw [h₁]; rfl) h₂ h₃ rfl

/-- The broker after a step of the dispatch `q`. -/
theorem Step.broker_write (hs : Step serde w e w') (hw : w.Wf)
    (hreg : ∀ c s, e ≠ .register c s) (hcl : ∀ c s, e ≠ .cleanup c s)
    (hother : ∀ q' ≠ q, w'.dispatches q' = w.dispatches q' ∧
      w'.state.pending q' = w.state.pending q') (hd : w'.dispatches q = some d) :
    w'.broker =
      { w.broker with jobs := w.broker.jobs.insert q (d.job (w'.state.pending q)) } := by
  rw [hs.broker_workers hw hreg hcl, World.broker_jobs hother hd]

theorem World.setDispatch_other (q' : RequestId) (hq : q' ≠ q) :
    (w.setDispatch q d).dispatches q' = w.dispatches q' ∧
      (w.setDispatch q d).state.pending q' = w.state.pending q' :=
  ⟨World.setDispatch_dispatches_other hq, rfl⟩

/-- A step of the dispatch `q` that leaves its job as it is. -/
theorem Step.broker_same (hs : Step serde w e w') (hw : w.Wf)
    (hreg : ∀ c s, e ≠ .register c s) (hcl : ∀ c s, e ≠ .cleanup c s)
    (hother : ∀ q' ≠ q, w'.dispatches q' = w.dispatches q' ∧
      w'.state.pending q' = w.state.pending q') (hd : w.dispatches q = some d)
    (hd' : w'.dispatches q = some d')
    (hj : d'.job (w'.state.pending q) = d.job (w.state.pending q)) : w'.broker = w.broker := by
  rw [hs.broker_write hw hreg hcl hother hd', hj]
  have : w.broker.jobs.insert q (d.job (w.state.pending q)) = w.broker.jobs :=
    Function.update_eq_self_iff.mpr (World.broker_job hd).symm
  rw [this]

/-! ### Each step -/

theorem Step.broker_register {c : ConnId} {s : String} (hs : Step serde w (.register c s) w')
    (hw : w.Wf) : Broker.Step w.broker (.enroll c s) w'.broker := by
  have hb : w'.broker =
      { w.broker with
        holder := w.broker.holder.insert s c
        enrolled := w.broker.enrolled.insert c s
        present := w.broker.present.insert c s } := by
    refine Broker.ext (funext fun s' => ?_) (hs.registeredFor hw.fresh) (hs.serving hw.fresh)
      (by cases hs; rfl)
    show (w'.state.services s').map _ = w.broker.holder.insert s c s'
    rw [hs.services, Event.onServices, PartialMap.insert_apply, PartialMap.insert_apply]
    split <;> rfl
  rw [hb]
  exact .enroll hs.registeredFor_of_register

/-- `cleanup_connection` takes the service from its connection only. -/
theorem World.holder_cleaned {c : ConnId} {s : String} (s' : String) :
    ((w.state.cleanupConnection s c).services s').map (·.connId) =
      Broker.released w.broker.holder c s s' := by
  have htest : w.broker.holder s = some c ↔
      (w.state.services s).any (fun handle => handle.connId = c) := by
    show (w.state.services s).map _ = some c ↔ _
    cases w.state.services s <;> simp
  unfold ServerState.cleanupConnection Broker.released
  dsimp only
  by_cases hc : (w.state.services s).any (fun handle => handle.connId = c)
  · rw [if_pos hc, if_pos (htest.mpr hc), PartialMap.erase_apply, PartialMap.erase_apply]
    split <;> rfl
  · rw [if_neg hc, if_neg (mt htest.mp hc)]
    rfl

theorem Step.broker_cleanup {c : ConnId} {s : String} (hs : Step serde w (.cleanup c s) w')
    (hw : w.Wf) : Broker.Step w.broker (.leave c) w'.broker := by
  have hserv := hs.serving_of_cleanup
  have hb : w'.broker =
      { w.broker with
        holder := Broker.released w.broker.holder c s
        present := w.broker.present.erase c
        jobs := fun q => (w.broker.jobs q).map (Broker.lose c) } := by
    refine Broker.ext (funext fun s' => ?_) ((hs.registeredFor hw.fresh).trans ?_)
      (hs.serving hw.fresh) (funext fun q => ?_)
    · show (w'.state.services s').map _ = _
      rw [hs.services]
      exact World.holder_cleaned s'
    · exact Function.update_eq_self_iff.mpr (World.registeredFor_of_serving hserv).symm
    · have hd : w'.dispatches = w.dispatches := by cases hs; rfl
      show (w'.dispatches q).map (Dispatch.job (w'.state.pending q)) =
        ((w.dispatches q).map (Dispatch.job (w.state.pending q))).map (Broker.lose c)
      rw [hd, hs.pending hw]
      cases hq : w.dispatches q with
      | none => rfl
      | some d => exact congrArg some (hw.job_cleaned hq c)
  rw [hb]
  exact .leave hserv

section

variable {c : ConnId} {m : Pushed} {r : TunnelResponse} {tx : Option ResponseTx}

theorem Step.respond_dispatches (hs : Step serde w (.respond c m r tx) w') :
    w'.dispatches = w.answered r tx := by
  cases hs; rfl

/-- A response that is no answer. -/
theorem Step.broker_ignored (hs : Step serde w (.respond c m r none) w') (hw : w.Wf) :
    w'.broker = w.broker := by
  have hp : w'.state.pending = w.state.pending := by
    rw [hs.pending hw, Event.onPending, ServerState.claim_none hs.respond_inv.2.symm]
  rw [hs.broker_workers hw (by simp) (by simp)]
  refine Broker.ext rfl rfl rfl ?_
  unfold World.broker
  rw [hp, hs.respond_dispatches]
  rfl

theorem Step.broker_answer (hs : Step serde w (.respond c m r (some q)) w') (hw : w.Wf) :
    Broker.Step w.broker (.answer q c r) w'.broker := by
  obtain ⟨rfl, hpend, hnone⟩ := hs.respond_some_inv hw
  obtain ⟨-, d, hd, hr, hph, -⟩ := hw.pending hpend
  have hd' : w'.dispatches r.requestId = some (d.answer r) := by
    rw [hs.respond_dispatches]
    exact (PartialMap.modify_same ..).trans (congrArg _ hd)
  have hother : ∀ q' ≠ r.requestId, w'.dispatches q' = w.dispatches q' ∧
      w'.state.pending q' = w.state.pending q' := by
    intro q' hne
    constructor
    · rw [hs.respond_dispatches]
      exact PartialMap.modify_other hne
    · rw [hs.pending hw, Event.onPending,
        (ServerState.claim_some hs.respond_inv.2.symm).2]
      exact PartialMap.erase_other hne
  -- the oneshot channel still has its receiver, or the answer is lost
  cases hrec : d.phase.receiving with
  | true =>
      have ht := hph.resolve_right fun h => by rw [h] at hrec; cases hrec
      have hans : d.answer r = { d with resp := some r } := if_pos hrec
      have hjob : (d.answer r).job (w'.state.pending r.requestId) = .answered c r := by
        rw [hans]
        exact Dispatch.job_of_receiving (d := { d with resp := some r }) hrec ht
      rw [hs.broker_write hw (by simp) (by simp) hother hd', hjob]
      refine .answer ?_
      rw [World.broker_job hd, Dispatch.job_of_receiving hrec ht, hr, hpend]
      rfl
  | false =>
      have hans : d.answer r = d := if_neg (by simp [hrec])
      have hjob : ∀ entry, d.job entry = .failed :=
        fun _ => Dispatch.job_of_not_receiving hrec hph
      rw [hs.broker_same hw (by simp) (by simp) hother hd hd' (by rw [hans, hjob, hjob])]
      exact .late ((World.broker_job hd).trans (congrArg some (hjob _)))

theorem Step.broker_respond (hs : Step serde w (.respond c m r tx) w') (hw : w.Wf) :
    match (Event.respond c m r tx).action with
    | none => w'.broker = w.broker
    | some a => Broker.Step w.broker a w'.broker := by
  cases tx with
  | none => exact hs.broker_ignored hw
  | some q => exact hs.broker_answer hw

end

/-- **A step of the server is the step of the broker its event stands for.** -/
theorem Step.broker (hs : Step serde w e w') (h : ServerRun serde config tr w) :
    match e.action with
    | none => w'.broker = w.broker
    | some a => Broker.Step w.broker a w'.broker := by
  have hw := wf_of_run h
  have hs' := hs
  -- a step that gives a dispatch up
  have close : ∀ {q d}, w.dispatches q = some d → (∀ r, d.phase ≠ .returned (.ok r)) →
      w'.broker = { w.broker with jobs := w.broker.jobs.insert q .failed } →
      Broker.Step w.broker (.close q) w'.broker := by
    intro q d hq hp hb
    rw [hb]
    exact .close (World.broker_job hq) (Dispatch.job_ne_done hp)
  cases hs with
  | create | conn _ _ | closeReplaced _ _ | drainEnd _ _ _ _ | runReturned _ _ _ =>
      exact hs'.broker_workers hw (by simp) (by simp)
  | register _ _ => exact hs'.broker_register hw
  | cleanup _ _ => exact hs'.broker_cleanup hw
  | @request q incoming hq =>
      rw [hs'.broker_write hw (by simp) (by simp) World.setDispatch_other
        World.setDispatch_dispatches_same]
      exact .submit (congrArg (Option.map _) hq)
  | @notConnected q d hq hp hn =>
      rw [hs'.broker_write hw (by simp) (by simp) World.setDispatch_other
        World.setDispatch_dispatches_same]
      exact .refuse (n := d.req.service) (by rw [World.broker_job hq, Dispatch.job, hp])
        (congrArg (Option.map _) (ServerState.park_eq_none.mp hn))
  | @assign q d handle st hq hp hpark =>
      obtain ⟨hhandle, rfl⟩ := ServerState.park_eq_some.mp hpark
      have hid := (hw.dispatch hq).requestId
      rw [hs'.broker_write hw (by simp) (by simp) (fun q' hne =>
        ⟨World.setDispatch_dispatches_other hne, PartialMap.insert_other (by rwa [hid])⟩)
        World.setDispatch_dispatches_same]
      have hj : Dispatch.job (w.state.pending.insert d.req.requestId
          { connId := handle.connId, tx := q } q) { d with phase := .sending handle.outgoingTx } =
          .given handle.connId := by
        rw [hid, PartialMap.insert_same, ← (hw.service hhandle).1.1, Dispatch.job,
          (hw.dispatch hq).locking hp]
        rfl
      show Broker.Step _ _ { w.broker with jobs := w.broker.jobs.insert q (Dispatch.job _ _) }
      rw [hj]
      exact .give (by rw [World.broker_job hq, Dispatch.job, hp])
        (congrArg (Option.map _) hhandle)
  | @send q d tx k hq hp hk hc =>
      refine hs'.broker_same hw (by simp) (by simp) World.setDispatch_other hq
        World.setDispatch_dispatches_same ?_
      simp only [Dispatch.job, hp]
      rfl
  | @connectionLost q d tx k hq hp hk hd =>
      exact close hq (by simp [hp]) (hs'.broker_write hw (by simp) (by simp)
        World.setDispatch_other World.setDispatch_dispatches_same)
  | @disconnected q d tx hq hp hr hn =>
      exact close hq (by simp [hp]) (hs'.broker_write hw (by simp) (by simp)
        World.setDispatch_other World.setDispatch_dispatches_same)
  | @timeout q d tx hq hp =>
      exact close hq (by rcases hp with hp | hp <;> simp [hp]) (hs'.broker_write hw (by simp)
        (by simp) World.setDispatch_other World.setDispatch_dispatches_same)
  | @answered q d tx r hq hp hr =>
      rw [hs'.broker_write hw (by simp) (by simp) World.setDispatch_other
        World.setDispatch_dispatches_same]
      exact .collect (k := tx) (by rw [World.broker_job hq, Dispatch.job, hp, hr]; rfl)
  | @failed q d tx err hq hp =>
      have hother : ∀ q' ≠ q, (w.state.unpark d.req.requestId).pending q' = w.state.pending q' :=
        fun q' hne => PartialMap.erase_other (by rwa [(hw.dispatch hq).requestId])
      cases err with
      | notConnected => exact absurd hp (failed_ne_notConnected h hq tx)
      | _ =>
          exact hs'.broker_same hw (by simp) (by simp) (fun q' hne =>
            ⟨World.setDispatch_dispatches_other hne, hother q' hne⟩) hq
            World.setDispatch_dispatches_same (by simp only [Dispatch.job, hp])
  | @cancel q d hq hp =>
      exact close hq (fun r hr => by rw [hr] at hp; cases hp) (hs'.broker_write hw (by simp)
        (by simp) World.setDispatch_other World.setDispatch_dispatches_same)
  | respond _ _ => exact hs'.broker_respond hw

/-- **The server refines a broker.**  What a run of the server does with registrations and
requests is a run of a broker that ends in the broker its state is.  So it is sound; and a response
a dispatch returns is the answer of the connection its request was given to. -/
theorem server_refines_broker (h : ServerRun serde config tr w) :
    Lts.Run Broker.Step Broker.empty (tr.filterMap Event.action) w.broker ∧
      Broker.Sound (tr.filterMap Event.action) w.broker ∧
      ∀ q r, Event.ret q (.ok r) ∈ tr → ∃ s c,
        [.submit q s, .give q c, .answer q c r, .collect q r].Sublist
          (tr.filterMap Event.action) := by
  have hrun : Lts.Run Broker.Step Broker.empty (tr.filterMap Event.action) w.broker := by
    have hsim : ∃ b, Lts.Run Broker.Step Broker.empty (tr.filterMap Event.action) b ∧
        w.broker = b := by
      refine h.simulate Event.action (fun w b => w.broker = b)
        (fun w => ∃ tr, ServerRun serde config tr w) (fun _ hu => ⟨_, hu⟩) ?_ rfl
      rintro u _ e u' rfl ⟨_, hu⟩ - hs
      have hb := hs.broker hu
      cases ha : e.action with
      | none => rw [ha] at hb; exact hb
      | some a => rw [ha] at hb; exact ⟨_, hb, rfl⟩
    obtain ⟨_, hb, rfl⟩ := hsim
    exact hb
  have hsound := Broker.sound_of_run hrun
  exact ⟨hrun, hsound, fun q r hr =>
    hsound.answered_of_collected (List.mem_filterMap.mpr ⟨_, hr, rfl⟩)⟩

/-- The broker's part of a session in which a client answers the request it was sent. -/
theorem server_refines_broker_session : ∃ b : Broker String ConnId RequestId TunnelResponse,
    Lts.Run Broker.Step Broker.empty
      [.enroll 1 "app", .submit "q" "app", .give "q" 1, .answer "q" 1 (demoResponse "q"),
        .collect "q" (demoResponse "q")] b := by
  obtain ⟨w, h⟩ := @exists_run compactJson demoConfig (demoSession "q") (by decide +kernel)
  exact ⟨w.broker, (server_refines_broker h).1⟩

end

end Outpunch
