import Outpunch.Server.Admission

/-!
# Server — one service of the server

A `Scope` names a service, some of the connections and some of the requests.  What it leaves of a
server (`Scope.world`) are those connections, those requests and the handle of the service, with
the connections numbered anew in the order they were made.  What it leaves of a history
(`Scope.keep`) are the events of those connections and requests.

A scope fits a state when the connections admitted to the service, and no others, are in it, and
likewise the requests (`Scope.Fits`).  From a state it fits, a step it keeps is a step of what it
leaves of the server, and a step it does not keep changes nothing there (`Step.scope`).
-/

namespace Outpunch

/-! ### Connections under other names -/

def ServiceHandle.rename (f : ConnId → ConnId) (h : ServiceHandle) : ServiceHandle where
  connId := f h.connId
  outgoingTx := f h.outgoingTx
  connection := f h.connection

def PendingRequest.rename (f : ConnId → ConnId) (p : PendingRequest) : PendingRequest :=
  { p with connId := f p.connId }

def Phase.rename (f : ConnId → ConnId) : Phase → Phase
  | .registered s replaced => .registered s (replaced.map (ServiceHandle.rename f))
  | .closing s old => .closing s (f old)
  | p => p

def Connection.rename (f : ConnId → ConnId) (k : Connection) : Connection :=
  { k with phase := k.phase.rename f }

def DispatchPhase.rename (f : ConnId → ConnId) : DispatchPhase → DispatchPhase
  | .sending tx => .sending (f tx)
  | .waiting tx => .waiting (f tx)
  | .failed tx err => .failed (f tx) err
  | p => p

def Dispatch.rename (f : ConnId → ConnId) (d : Dispatch) : Dispatch :=
  { d with phase := d.phase.rename f }

def Event.rename (f : ConnId → ConnId) : Event → Event
  | .create c => .create (f c)
  | .conn c e => .conn (f c) e
  | .register c s => .register (f c) s
  | .closeReplaced c old => .closeReplaced (f c) (f old)
  | .respond c m r tx => .respond (f c) m r tx
  | .cleanup c s => .cleanup (f c) s
  | .drainEnd c => .drainEnd (f c)
  | .runReturned c => .runReturned (f c)
  | .assign q c tx => .assign q (f c) (f tx)
  | .send q tx json => .send q (f tx) json
  | e => e

section

variable {f : ConnId → ConnId}

theorem Phase.listening_rename (p : Phase) : (p.rename f).listening = p.listening := by
  cases p <;> rfl

theorem Phase.holdsOutgoing_rename (p : Phase) : (p.rename f).holdsOutgoing = p.holdsOutgoing := by
  cases p <;> rfl

theorem DispatchPhase.outgoingTx_rename (p : DispatchPhase) :
    (p.rename f).outgoingTx = p.outgoingTx.map f := by
  cases p <;> rfl

theorem DispatchPhase.running_rename (p : DispatchPhase) : (p.rename f).running = p.running := by
  cases p <;> rfl

theorem Dispatch.phase_rename {d : Dispatch} {p : DispatchPhase} (hp : d.phase = p) :
    (d.rename f).phase = p.rename f :=
  congrArg (DispatchPhase.rename f) hp

theorem Dispatch.rename_answer (r : TunnelResponse) (d : Dispatch) :
    (d.answer r).rename f = (d.rename f).answer r := by
  obtain ⟨req, json, resp, p⟩ := d
  cases p <;> rfl

namespace Connection

variable {serde : SerdeJson} {config : ServerConfig} {k k' : Connection} {e : ConnEvent}

theorem phase_rename {p : Phase} (hp : k.phase = p) : (k.rename f).phase = p.rename f :=
  congrArg (Phase.rename f) hp

theorem authNext_rename (raw : String) : (authNext serde raw).rename f = authNext serde raw := by
  rcases @authNext_cases serde raw with ⟨msg, -, e⟩ | ⟨-, e⟩ <;> rw [e] <;> rfl

theorem relayNext_rename (s : String) (m : Pushed) :
    (relayNext serde s m).rename f = relayNext serde s m := by
  rcases @relayNext_cases serde s m with ⟨r, -, e⟩ | ⟨-, e⟩ <;> rw [e] <;> rfl

theorem checkNext_rename (msg : AuthMessage) :
    (checkNext serde config msg).rename f = checkNext serde config msg := by
  unfold checkNext; split <;> rfl

theorem authReturned_rename (s : Option String) : (authReturned s).rename f = authReturned s := by
  cases s <;> rfl

theorem upgradeNext_rename (s : String) (replaced : Option ServiceHandle) :
    (upgradeNext s replaced).rename f = upgradeNext s (replaced.map (ServiceHandle.rename f)) := by
  cases replaced <;> rfl

/-- **The steps of a connection do not read the names of connections.** -/
theorem Step.rename (f : ConnId → ConnId) (h : Step serde config k e k') :
    Step serde config (k.rename f) e (k'.rename f) := by
  cases h with
  | onMessage => exact .onMessage
  | push hn ho => exact .push hn ho
  | pushClosed ho => exact .pushClosed ho
  | sent hm hl hc => exact .sent hm (by rw [← hl]; exact Phase.listening_rename _) hc
  | gone hm => exact .gone hm
  | close => exact .close
  | run hp => exact .run (phase_rename hp)
  | authTimeout hp => exact .authTimeout (phase_rename hp)
  | @authRecv m _ hp hi =>
      have h : Step serde config (k.rename f) _ _ := .authRecv (phase_rename hp) hi
      rwa [← authNext_rename (f := f)] at h
  | authClosed hp hi => exact .authClosed (phase_rename hp) hi
  | @check msg hp =>
      have h : Step serde config (k.rename f) _ _ := .check (phase_rename hp)
      rwa [← checkNext_rename (f := f)] at h
  | @reply text s hp hs =>
      have h : Step serde config (k.rename f) _ _ := .reply (phase_rename hp) hs
      rwa [← authReturned_rename (f := f)] at h
  | @replyLost text s hp hd =>
      have h : Step serde config (k.rename f) _ _ := .replyLost (phase_rename hp) hd
      rwa [← authReturned_rename (f := f)] at h
  | @upgrade s replaced hp =>
      have h : Step serde config (k.rename f) _ _ := .upgrade (phase_rename hp)
      rwa [← upgradeNext_rename (f := f)] at h
  | @relayRecv s m _ hp hi =>
      have h : Step serde config (k.rename f) _ _ := .relayRecv (phase_rename hp) hi
      rwa [← relayNext_rename (f := f)] at h
  | relayClosed hp hi => exact .relayClosed (phase_rename hp) hi
  | dropOutgoing hp => exact .dropOutgoing (phase_rename hp)
  | deliver hd ho => exact .deliver hd ho
  | discard hd ho => exact .discard hd ho
  | panic hd ho => exact .panic hd ho

end Connection

end

/-! ### What a scope leaves -/

/-- A service, some of the connections, and some of the requests. -/
structure Scope where
  service : String
  conns : ConnId → Bool
  requests : RequestId → Bool

namespace Scope

/-- The connections of the scope are numbered in the order they were made. -/
def name (σ : Scope) (c : ConnId) : ConnId := 1 + Nat.count (fun c => σ.conns c = true) c

/-- The event is a step of a connection or a request of the scope. -/
def keeps (σ : Scope) : Event → Bool
  | .create c | .conn c _ | .register c _ | .closeReplaced c _ | .respond c _ _ _ | .cleanup c _
  | .drainEnd c | .runReturned c => σ.conns c
  | .request q _ | .assign q _ _ | .send q _ _ | .fail q _ | .ret q _ | .cancel q => σ.requests q

/-- What is left of an event. -/
def keep (σ : Scope) (e : Event) : Option Event :=
  if σ.keeps e then some (e.rename σ.name) else none

open Classical in
/-- The new names of the connections of the scope. -/
noncomputable def names (σ : Scope) : ConnId ≃. ConnId where
  toFun c := if σ.conns c then some (σ.name c) else none
  invFun c' := if h : ∃ c, σ.conns c ∧ σ.name c = c' then some h.choose else none
  inv c c' := by
    rw [Option.dite_none_right_eq_some, Option.ite_none_right_eq_some]
    constructor
    · rintro ⟨h, e⟩
      cases e
      exact ⟨h.choose_spec.1, congrArg some h.choose_spec.2⟩
    · rintro ⟨hc, e⟩
      cases e
      have h : ∃ c₁, σ.conns c₁ ∧ σ.name c₁ = σ.name c := ⟨c, hc, rfl⟩
      exact ⟨h, congrArg some
        (Nat.count_injective h.choose_spec.1 hc (Nat.add_left_cancel h.choose_spec.2))⟩

/-- The requests of the scope keep their ids. -/
def ids (σ : Scope) : RequestId ≃. RequestId := .ofSet {q | σ.requests q = true}

/-- The services of the scope. -/
def ownService (σ : Scope) : String ≃. String := .single σ.service σ.service

/-- What is left of the shared state. -/
def state (σ : Scope) (st : ServerState) : ServerState where
  config := st.config
  services := st.services.transport σ.ownService (ServiceHandle.rename σ.name)
  pending := st.pending.transport σ.ids (PendingRequest.rename σ.name)

/-- What is left of the server. -/
noncomputable def world (σ : Scope) (w : World) : World where
  state := σ.state w.state
  nextConnId := σ.name w.nextConnId
  conns := w.conns.transport σ.names (Connection.rename σ.name)
  dispatches := w.dispatches.transport σ.ids (Dispatch.rename σ.name)

variable {σ : Scope} {w : World} {c c' : ConnId} {q : RequestId}

theorem name_injective (hc : σ.conns c) (hc' : σ.conns c') (h : σ.name c = σ.name c') : c = c' :=
  Nat.count_injective hc hc' (Nat.add_left_cancel h)

theorem name_succ : σ.name (c + 1) = σ.name c + if σ.conns c then 1 else 0 := by
  rw [name, Nat.count_succ, name, Nat.add_assoc]

theorem names_of_kept (hc : σ.conns c) : σ.names c = some (σ.name c) := if_pos hc

theorem names_of_not (hc : ¬ σ.conns c) : σ.names c = none := if_neg hc

theorem ids_of_kept (hq : σ.requests q) : σ.ids q = some q := if_pos hq

theorem ids_of_not (hq : ¬ σ.requests q) : σ.ids q = none := if_neg hq

theorem ownService_same : σ.ownService σ.service = some σ.service := PEquiv.single_apply ..

theorem ownService_other {s : String} (h : s ≠ σ.service) : σ.ownService s = none :=
  PEquiv.single_apply_of_ne h.symm _

/-! ### Writes, seen through the scope -/

theorem world_conns (hc : σ.conns c) :
    (σ.world w).conns (σ.name c) = (w.conns c).map (Connection.rename σ.name) :=
  PartialMap.transport_apply (names_of_kept hc)

theorem world_conns_some {k : Connection} (hc : σ.conns c) (hk : w.conns c = some k) :
    (σ.world w).conns (σ.name c) = some (k.rename σ.name) := by
  rw [world_conns hc, hk]; rfl

theorem world_dispatches (hq : σ.requests q) :
    (σ.world w).dispatches q = (w.dispatches q).map (Dispatch.rename σ.name) :=
  PartialMap.transport_apply (ids_of_kept hq)

theorem world_dispatches_some {d : Dispatch} (hq : σ.requests q) (hd : w.dispatches q = some d) :
    (σ.world w).dispatches q = some (d.rename σ.name) := by
  rw [world_dispatches hq, hd]; rfl

theorem world_setConn {k : Connection} (hc : σ.conns c) :
    σ.world (w.setConn c k) = (σ.world w).setConn (σ.name c) (k.rename σ.name) := by
  rw [world, World.setConn, PartialMap.transport_insert (names_of_kept hc)]; rfl

theorem world_setConn_of_not {k : Connection} (hc : ¬ σ.conns c) :
    σ.world (w.setConn c k) = σ.world w := by
  rw [world, World.setConn, PartialMap.transport_insert_of_none (names_of_not hc)]; rfl

theorem world_setDispatch {d : Dispatch} (hq : σ.requests q) :
    σ.world (w.setDispatch q d) = (σ.world w).setDispatch q (d.rename σ.name) := by
  rw [world, World.setDispatch, PartialMap.transport_insert (ids_of_kept hq)]; rfl

theorem world_setDispatch_of_not {d : Dispatch} (hq : ¬ σ.requests q) :
    σ.world (w.setDispatch q d) = σ.world w := by
  rw [world, World.setDispatch, PartialMap.transport_insert_of_none (ids_of_not hq)]; rfl

theorem world_setConn_withState {k : Connection} {st : ServerState} (hc : σ.conns c) :
    σ.world { w.setConn c k with state := st } =
      { (σ.world w).setConn (σ.name c) (k.rename σ.name) with state := σ.state st } :=
  congrArg (fun v : World => { v with state := σ.state st }) (world_setConn (w := w) (k := k) hc)

theorem world_setConn_withState_of_not {k : Connection} {st : ServerState} (hc : ¬ σ.conns c)
    (hst : σ.state st = σ.state w.state) :
    σ.world { w.setConn c k with state := st } = σ.world w :=
  (congrArg (fun v : World => { v with state := σ.state st }) (world_setConn_of_not hc)).trans
    (congrArg (fun st => { σ.world w with state := st }) hst)

theorem world_setDispatch_withState {d : Dispatch} {st : ServerState} (hq : σ.requests q) :
    σ.world { w.setDispatch q d with state := st } =
      { (σ.world w).setDispatch q (d.rename σ.name) with state := σ.state st } :=
  congrArg (fun v : World => { v with state := σ.state st })
    (world_setDispatch (w := w) (d := d) hq)

theorem world_setDispatch_withState_of_not {d : Dispatch} {st : ServerState}
    (hq : ¬ σ.requests q) (hst : σ.state st = σ.state w.state) :
    σ.world { w.setDispatch q d with state := st } = σ.world w :=
  (congrArg (fun v : World => { v with state := σ.state st }) (world_setDispatch_of_not hq)).trans
    (congrArg (fun st => { σ.world w with state := st }) hst)

theorem world_answered {r : TunnelResponse} {o : Option ResponseTx}
    (ho : ∀ tx, o = some tx → σ.requests tx) :
    (w.answered r o).transport σ.ids (Dispatch.rename σ.name) = (σ.world w).answered r o := by
  cases o with
  | none => rfl
  | some tx =>
      exact PartialMap.transport_modify (ids_of_kept (ho tx rfl)) (Dispatch.rename_answer r)

theorem world_answered_of_not {r : TunnelResponse} {o : Option ResponseTx}
    (ho : ∀ tx, o = some tx → ¬ σ.requests tx) :
    (w.answered r o).transport σ.ids (Dispatch.rename σ.name) = (σ.world w).dispatches := by
  cases o with
  | none => rfl
  | some tx => exact PartialMap.transport_modify_of_none (ids_of_not (ho tx rfl)) _

theorem state_services {st : ServerState} : (σ.state st).services σ.service =
    (st.services σ.service).map (ServiceHandle.rename σ.name) :=
  PartialMap.transport_apply ownService_same

/-- A sender parked in what is left is parked in the server. -/
theorem senderParked (h : (σ.world w).SenderParked q) : w.SenderParked q := by
  obtain ⟨_, _, hp', rfl⟩ := h
  obtain ⟨id, p, -, hp, rfl⟩ := PartialMap.transport_eq_some.mp hp'
  exact ⟨id, p, hp, rfl⟩

/-! ### A scope that fits -/

/-- The connections admitted to the service are those of the scope, and so are the requests. -/
structure Fits (σ : Scope) (w : World) : Prop where
  wf : w.Wf
  accepted : ∀ {c k s}, w.conns c = some k → k.phase.outcome = .accepted s →
    (σ.conns c ↔ s = σ.service)
  requested : ∀ {q d}, w.dispatches q = some d → (σ.requests q ↔ d.req.service = σ.service)

end Scope

theorem Phase.outcome_of_registeredFor {p : Phase} {s : String} (h : p.registeredFor = some s) :
    p.outcome = .accepted s := by
  cases p with
  | leaving o | joining o | done o => cases h; rfl
  | registered _ _ | closing _ _ | relay _ | respond _ _ _ | cleanup _ => cases h; rfl
  | _ => cases h

namespace Scope.Fits

variable {σ : Scope} {w : World} {c : ConnId} {q : RequestId} {s : String} (hσ : σ.Fits w)

include hσ

theorem registeredFor (h : w.registeredFor c = some s) : σ.conns c ↔ s = σ.service := by
  obtain ⟨k, hk, hp⟩ := World.observe_eq_some h
  exact hσ.accepted hk (Phase.outcome_of_registeredFor hp)

theorem handle {h : ServiceHandle} (hs : w.state.services s = some h) :
    σ.conns h.connId ↔ s = σ.service :=
  hσ.registeredFor (World.registeredFor_of_serving (hσ.wf.service hs).2)

theorem sender {d : Dispatch} {tx : OutgoingTx} (hd : w.dispatches q = some d)
    (ht : d.phase.outgoingTx = some tx) : σ.conns tx ↔ σ.requests q := by
  rw [hσ.registeredFor ((hσ.wf.dispatch hd).sender tx ht), hσ.requested hd]

theorem entry {p : PendingRequest} (hp : w.state.pending q = some p) :
    σ.conns p.connId ↔ σ.requests q := by
  obtain ⟨-, d, hd, -, -, hserv⟩ := hσ.wf.pending hp
  rw [hσ.registeredFor (World.registeredFor_of_serving hserv), hσ.requested hd]

/-! ### The critical sections -/

omit hσ in
theorem register {h : ServiceHandle} :
    σ.state (w.state.register σ.service h).2 =
      ((σ.state w.state).register σ.service (h.rename σ.name)).2 :=
  congrArg (ServerState.mk _ · _) (PartialMap.transport_insert ownService_same _)

omit hσ in
theorem register_of_not {h : ServiceHandle} (hs : s ≠ σ.service) :
    σ.state (w.state.register s h).2 = σ.state w.state :=
  congrArg (ServerState.mk _ · _) (PartialMap.transport_insert_of_none (ownService_other hs) _)

omit hσ in
/-- A request of the scope is parked as it is alone. -/
theorem park (hs : s = σ.service) {id : RequestId} (hid : σ.requests id) :
    (σ.state w.state).park s id q =
      (w.state.park s id q).map fun p => (p.1.rename σ.name, σ.state p.2) := by
  rw [ServerState.park, ServerState.park, hs, state_services, Option.map_map, Option.map_map]
  refine congrArg (Option.map · _) (funext fun h => Prod.ext rfl ?_)
  refine congrArg (ServerState.mk _ _) (Eq.symm ?_)
  exact PartialMap.transport_insert (ids_of_kept hid) _

/-- A connection of the scope claims what it claims alone. -/
theorem claim (hc : σ.conns c) : (σ.state w.state).claim (σ.name c) q =
    ((w.state.claim c q).1, σ.state (w.state.claim c q).2) := by
  by_cases hq : σ.requests q
  · have hpend : (σ.state w.state).pending q = (w.state.pending q).map (·.rename σ.name) :=
      PartialMap.transport_apply (ids_of_kept hq)
    unfold ServerState.claim
    rw [hpend]
    cases hp : w.state.pending q with
    | none => rfl
    | some p =>
        by_cases hpc : p.connId = c
        · have hname : (p.rename σ.name).connId = σ.name c := congrArg σ.name hpc
          simp only [Option.map_some, if_pos hpc, if_pos hname]
          refine congrArg (some p.tx, ·) ?_
          rw [state, state, PartialMap.transport_erase (ids_of_kept hq)]
        · have hname : (p.rename σ.name).connId ≠ σ.name c := fun e =>
            hpc (name_injective ((hσ.entry hp).mpr hq) hc e)
          simp only [Option.map_some, if_neg hpc, if_neg hname]
  · have hother : ∀ p, w.state.pending q = some p → p.connId ≠ c := fun p hp e =>
      hq ((hσ.entry hp).mp (e ▸ hc))
    rw [ServerState.claim_eq_none hother]
    refine ServerState.claim_eq_none fun p hp => absurd ?_ hq
    obtain ⟨q', p', hq', -⟩ := PartialMap.transport_eq_some.mp hp
    obtain ⟨rfl, hmem⟩ := PEquiv.ofSet_eq_some_iff.mp hq'
    exact hmem

/-- What a connection of the scope claims is a request of the scope. -/
theorem claimed {tx : ResponseTx} (hc : σ.conns c) (h : (w.state.claim c q).1 = some tx) :
    σ.requests tx := by
  obtain ⟨hp, -⟩ := ServerState.claim_some h
  rw [show tx = q from (hσ.wf.pending hp).1]
  exact (hσ.entry hp).mp hc

/-- A connection outside the scope claims nothing of it. -/
theorem claim_of_not (hc : ¬ σ.conns c) : σ.state (w.state.claim c q).2 = σ.state w.state ∧
    ∀ tx, (w.state.claim c q).1 = some tx → ¬ σ.requests tx := by
  cases hcl : (w.state.claim c q).1 with
  | none => exact ⟨by rw [ServerState.claim_none hcl], by simp⟩
  | some tx =>
      obtain ⟨hp, herase⟩ := ServerState.claim_some hcl
      have hq : ¬ σ.requests q := (hσ.entry hp).not.mp hc
      constructor
      · rw [state, ServerState.claim_services, ServerState.claim_config, herase,
          PartialMap.transport_erase_of_none (ids_of_not hq)]
        rfl
      · rintro _ ⟨⟩
        rwa [show tx = q from (hσ.wf.pending hp).1]

/-- The handle of the service goes with its connection. -/
theorem cleanup (hc : σ.conns c) :
    σ.state (w.state.cleanupConnection σ.service c) =
      (σ.state w.state).cleanupConnection σ.service (σ.name c) := by
  have hany : ((σ.state w.state).services σ.service).any (fun h => h.connId = σ.name c) =
      (w.state.services σ.service).any (fun h => h.connId = c) := by
    rw [state_services]
    cases hs : w.state.services σ.service with
    | none => rfl
    | some h =>
        refine decide_eq_decide.mpr ⟨fun e => ?_, fun e => congrArg σ.name e⟩
        exact name_injective ((hσ.handle hs).mpr rfl) hc e
  unfold ServerState.cleanupConnection
  rw [hany, state]
  congr 1
  · split
    · exact PartialMap.transport_erase ownService_same
    · rfl
  · refine PartialMap.transport_retain fun q p hq hp => decide_eq_decide.mpr ?_
    have hreq : σ.requests q := of_not_not fun h => hq (ids_of_not h)
    exact (not_congr ⟨congrArg σ.name, name_injective ((hσ.entry hp).mpr hreq) hc⟩)

/-- The cleanup of a connection outside the scope leaves it alone. -/
theorem cleanup_of_not (hc : ¬ σ.conns c) (hs : s ≠ σ.service) :
    σ.state (w.state.cleanupConnection s c) = σ.state w.state := by
  rw [state, state]
  congr 1
  · refine PartialMap.transport_congr fun s' hs' => ?_
    have hne : s' = σ.service := of_not_not fun h => hs' (ownService_other h)
    rw [ServerState.cleanup_services_other (hne ▸ hs.symm)]
  · refine PartialMap.transport_congr fun q hq => congrArg _ ?_
    have hreq : σ.requests q := of_not_not fun h => hq (ids_of_not h)
    refine PartialMap.retain_of_forall fun p hp => decide_eq_true fun e => hc ?_
    exact e ▸ (hσ.entry hp).mpr hreq

/-- Whoever holds a sender of a connection of the scope in what is left holds it in the server. -/
theorem holds (hc : σ.conns c) {h : Holder} (hh : (σ.world w).Holds (σ.name c) h) :
    ∃ h, w.Holds c h := by
  cases h with
  | run =>
      obtain ⟨_, hk', hp⟩ := hh
      rw [world_conns hc] at hk'
      obtain ⟨k, hk, rfl⟩ := Option.map_eq_some_iff.mp hk'
      exact ⟨.run, k, hk, (Phase.holdsOutgoing_rename _).symm.trans hp⟩
  | registry s =>
      obtain ⟨_, hs, ht⟩ := hh
      obtain ⟨s', h, hs', hh, rfl⟩ := PartialMap.transport_eq_some.mp hs
      refine ⟨.registry s', h, hh, ?_⟩
      have hown : s' = σ.service := of_not_not fun hne => by
        rw [ownService_other hne] at hs'; cases hs'
      have hone := (hσ.wf.service hh).1.1
      exact name_injective (hone ▸ (hσ.handle hh).mpr hown) hc ht
  | dispatch q =>
      obtain ⟨_, hd, ht⟩ := hh
      obtain ⟨q', d, hq', hd, rfl⟩ := PartialMap.transport_eq_some.mp hd
      obtain ⟨rfl, hreq⟩ := PEquiv.ofSet_eq_some_iff.mp hq'
      rw [show (d.rename σ.name).phase.outgoingTx = d.phase.outgoingTx.map σ.name from
        DispatchPhase.outgoingTx_rename _] at ht
      obtain ⟨tx, htx, ht⟩ := Option.map_eq_some_iff.mp ht
      cases name_injective ((hσ.sender hd htx).mpr hreq) hc ht
      exact ⟨.dispatch _, d, hd, htx⟩
  | replacing c' =>
      obtain ⟨_, s, h, hk', hp, ht⟩ := hh
      obtain ⟨c₁, k, hc₁, hk, rfl⟩ := PartialMap.transport_eq_some.mp hk'
      cases hph : k.phase with
      | registered s' replaced =>
          rw [Connection.phase_rename hph] at hp
          obtain ⟨rfl, hr⟩ := Phase.registered.inj hp
          obtain ⟨h, rfl, rfl⟩ := Option.map_eq_some_iff.mp hr
          have hin : σ.conns c₁ := of_not_not fun hne => by
            rw [names_of_not hne] at hc₁; cases hc₁
          obtain ⟨⟨hone, -⟩, -, hreg⟩ := hσ.wf.replaced hk hph
          have hs : s' = σ.service := (hσ.accepted hk (by rw [hph]; rfl)).mp hin
          refine ⟨.replacing c₁, k, s', h, hk, hph, ?_⟩
          exact name_injective (hone ▸ (hσ.registeredFor hreg).mpr hs) hc ht
      | _ => rw [Connection.phase_rename hph] at hp; cases hp

end Scope.Fits

/-! ### Steps -/

namespace Scope

variable {serde : SerdeJson} {σ : Scope} {w w' : World} {e : Event}

/-- A step of the server makes a step of what is left of it, or changes nothing there. -/
def Simulates (serde : SerdeJson) (σ : Scope) (w : World) (e : Event) (w' : World) : Prop :=
  match σ.keep e with
  | none => σ.world w' = σ.world w
  | some e' => Step serde (σ.world w) e' (σ.world w')

theorem simulates (hin : σ.keeps e → Step serde (σ.world w) (e.rename σ.name) (σ.world w'))
    (hout : ¬ σ.keeps e → σ.world w' = σ.world w) : Simulates serde σ w e w' := by
  unfold Simulates keep
  by_cases he : σ.keeps e
  · rw [if_pos he]; exact hin he
  · rw [if_neg he]; exact hout he

/-- A step that writes one connection. -/
theorem simulates_setConn {c : ConnId} {k k' : Connection} (hk : w.conns c = some k)
    (he : σ.keeps e = σ.conns c)
    (h : σ.conns c → (σ.world w).conns (σ.name c) = some (k.rename σ.name) →
      Step serde (σ.world w) (e.rename σ.name)
        ((σ.world w).setConn (σ.name c) (k'.rename σ.name))) :
    Simulates serde σ w e (w.setConn c k') := by
  refine simulates (fun hc => ?_) fun hc => ?_
  · rw [he] at hc
    rw [world_setConn hc]
    exact h hc (world_conns_some hc hk)
  · rw [he] at hc
    exact world_setConn_of_not hc

/-- A step that writes one dispatch. -/
theorem simulates_setDispatch {q : RequestId} {d d' : Dispatch} (hq : w.dispatches q = some d)
    (he : σ.keeps e = σ.requests q)
    (h : σ.requests q → (σ.world w).dispatches q = some (d.rename σ.name) →
      Step serde (σ.world w) (e.rename σ.name)
        ((σ.world w).setDispatch q (d'.rename σ.name))) :
    Simulates serde σ w e (w.setDispatch q d') := by
  refine simulates (fun hreq => ?_) fun hreq => ?_
  · rw [he] at hreq
    rw [world_setDispatch hreq]
    exact h hreq (world_dispatches_some hreq hq)
  · rw [he] at hreq
    exact world_setDispatch_of_not hreq

/-- **A step of the server, seen through a scope that fits.** -/
theorem simulates_of_step (h : Step serde w e w') (hσ : σ.Fits w)
    (he : ∀ q incoming, e = .request q incoming →
      (σ.requests q ↔ incoming.service = σ.service)) : Simulates serde σ w e w' := by
  cases h with
  | create =>
      refine simulates (fun hc => ?_) fun hc => ?_
      · have hc : σ.conns w.nextConnId := hc
        have hw : σ.world { w.setConn w.nextConnId .new with nextConnId := w.nextConnId + 1 } =
            { (σ.world w).setConn (σ.name w.nextConnId) .new with
              nextConnId := σ.name (w.nextConnId + 1) } :=
          congrArg (fun v : World => { v with nextConnId := σ.name (w.nextConnId + 1) })
            (world_setConn (w := w) (k := .new) hc)
        rw [hw, name_succ, if_pos hc]
        exact .create
      · have hc : ¬ σ.conns w.nextConnId := hc
        have hw : σ.world { w.setConn w.nextConnId .new with nextConnId := w.nextConnId + 1 } =
            { σ.world w with nextConnId := σ.name (w.nextConnId + 1) } :=
          congrArg (fun v : World => { v with nextConnId := σ.name (w.nextConnId + 1) })
            (world_setConn_of_not (w := w) (k := .new) hc)
        rw [hw, name_succ, if_neg hc]
        rfl
  | @conn c k k' e hk hs =>
      exact simulates_setConn hk rfl fun _ hk => .conn hk (hs.rename σ.name)
  | @register c k s hk hp =>
      have hs : σ.conns c ↔ s = σ.service := hσ.accepted hk (by rw [hp]; rfl)
      refine simulates (fun hc => ?_) fun hc => ?_
      · obtain rfl := hs.mp hc
        rw [world_setConn_withState hc, Fits.register]
        have h : Step serde (σ.world w) _ _ := .register (world_conns_some hc hk)
          (Connection.phase_rename hp)
        rwa [show (σ.world w).state.services σ.service = _ from state_services] at h
      · exact world_setConn_withState_of_not hc (Fits.register_of_not (hs.not.mp hc))
  | @closeReplaced c old k s hk hp =>
      have hold : σ.conns old ↔ σ.conns c := by
        rw [hσ.registeredFor (hσ.wf.closing hk hp).2, hσ.accepted hk (by rw [hp]; rfl)]
      refine simulates (fun hc => ?_) fun hc => ?_
      · have h : Step serde (σ.world w) _ _ := .closeReplaced (world_conns_some hc hk)
          (Connection.phase_rename hp)
        have hconns : ((w.conns.insert c { k with phase := .relay s }).modify old
              fun k => { k with incomingTx := false }).transport σ.names (.rename σ.name) =
            ((σ.world w).conns.insert (σ.name c) { k.rename σ.name with phase := .relay s }).modify
              (σ.name old) fun k => { k with incomingTx := false } :=
          (PartialMap.transport_modify (names_of_kept (hold.mpr hc)) (by intro; rfl)).trans
            (congrArg (PartialMap.modify · _ _) (PartialMap.transport_insert (names_of_kept hc) _))
        rwa [← hconns] at h
      · exact congrArg (World.mk _ _ · _)
          ((PartialMap.transport_modify_of_none (names_of_not (hold.not.mpr hc)) _).trans
            (PartialMap.transport_insert_of_none (names_of_not hc) _))
  | @respond c k s m r hk hp =>
      refine simulates (fun hc => ?_) fun hc => ?_
      · have h : Step serde (σ.world w) _ _ := .respond (world_conns_some hc hk)
          (Connection.phase_rename hp)
        rw [show (σ.world w).state.claim (σ.name c) _ = _ from hσ.claim hc] at h
        have hw : σ.world { w.setConn c { k with phase := .relay s } with
              state := (w.state.claim c r.requestId).2
              dispatches := w.answered r (w.state.claim c r.requestId).1 } =
            { (σ.world w).setConn (σ.name c) { k.rename σ.name with phase := .relay s } with
              state := σ.state (w.state.claim c r.requestId).2
              dispatches := (σ.world w).answered r (w.state.claim c r.requestId).1 } :=
          congrArg₂ (World.mk _ _) (PartialMap.transport_insert (names_of_kept hc) _)
            (world_answered fun tx htx => hσ.claimed hc htx)
        rw [hw]
        exact h
      · obtain ⟨hst, htx⟩ := hσ.claim_of_not hc
        refine (congrArg (World.mk _ _ _) (world_answered_of_not htx)).trans ?_
        exact world_setConn_withState_of_not hc hst
  | @cleanup c k s hk hp =>
      have hs : σ.conns c ↔ s = σ.service := hσ.accepted hk (by rw [hp]; rfl)
      refine simulates (fun hc => ?_) fun hc => ?_
      · obtain rfl := hs.mp hc
        rw [world_setConn_withState hc, hσ.cleanup hc]
        exact Step.cleanup (k := k.rename σ.name) (world_conns_some hc hk)
          (Connection.phase_rename hp)
      · exact world_setConn_withState_of_not hc (hσ.cleanup_of_not hc (hs.not.mp hc))
  | @drainEnd c k callback hk hd ho hh =>
      refine simulates_setConn hk rfl fun hc hk => .drainEnd hk hd ho fun h hh' => ?_
      obtain ⟨h, hh'⟩ := hσ.holds hc hh'
      exact hh h hh'
  | @runReturned c k s hk hp hd =>
      exact simulates_setConn hk rfl fun _ hk =>
        Step.runReturned (k := k.rename σ.name) hk (Connection.phase_rename hp) hd
  | @request q incoming hq =>
      refine simulates (fun hreq => ?_) fun hreq => world_setDispatch_of_not hreq
      rw [world_setDispatch hreq]
      exact .request (by rw [world_dispatches hreq, hq]; rfl)
  | @notConnected q d hq hp hs =>
      refine simulates_setDispatch hq rfl fun hreq hq' =>
        Step.notConnected (d := d.rename σ.name) hq' (Dispatch.phase_rename hp) ?_
      have hid : σ.requests d.req.requestId := (hσ.wf.dispatch hq).requestId.symm ▸ hreq
      exact (Fits.park ((hσ.requested hq).mp hreq) hid).trans (congrArg (Option.map _) hs)
  | @assign q d handle st hq hp hs =>
      have hid : d.req.requestId = q := (hσ.wf.dispatch hq).requestId
      refine simulates (fun hreq => ?_) fun hreq => ?_
      · rw [world_setDispatch_withState hreq]
        have hpark : (σ.state w.state).park d.req.service d.req.requestId q =
            some (handle.rename σ.name, σ.state st) :=
          (Fits.park ((hσ.requested hq).mp hreq) (hid.symm ▸ hreq)).trans
            (congrArg (Option.map _) hs)
        have h : Step serde (σ.world w) _ _ := Step.assign (d := d.rename σ.name)
          (world_dispatches_some hreq hq) (Dispatch.phase_rename hp) hpark
        exact h
      · obtain ⟨-, rfl⟩ := ServerState.park_eq_some.mp hs
        refine world_setDispatch_withState_of_not hreq ?_
        exact congrArg (ServerState.mk _ _)
          (PartialMap.transport_insert_of_none (ids_of_not (hid.symm ▸ hreq)) _)
  | @send q d tx k hq hp hk hs =>
      have htx : σ.conns tx ↔ σ.requests q := hσ.sender hq (by rw [hp]; rfl)
      refine simulates (fun hreq => ?_) fun hreq => ?_
      · rw [world_setDispatch hreq, world_setConn (htx.mpr hreq)]
        exact Step.send (d := d.rename σ.name) (world_dispatches_some hreq hq)
          (Dispatch.phase_rename hp) (world_conns_some (htx.mpr hreq) hk) hs
      · rw [world_setDispatch_of_not hreq, world_setConn_of_not (htx.not.mpr hreq)]
  | @connectionLost q d tx k hq hp hk hd =>
      refine simulates_setDispatch hq rfl fun hreq hq' => ?_
      have hc := (hσ.sender hq (by rw [hp]; rfl)).mpr hreq
      exact Step.connectionLost (d := d.rename σ.name) hq' (Dispatch.phase_rename hp)
        (world_conns_some hc hk) hd
  | @answered q d tx r hq hp hr =>
      exact simulates_setDispatch hq rfl fun _ hq' =>
        Step.answered (d := d.rename σ.name) hq' (Dispatch.phase_rename hp) hr
  | @disconnected q d tx hq hp hr hs =>
      exact simulates_setDispatch hq rfl fun _ hq' =>
        Step.disconnected (d := d.rename σ.name) hq' (Dispatch.phase_rename hp) hr
          fun h => hs (senderParked h)
  | @timeout q d tx hq hp =>
      exact simulates_setDispatch hq rfl fun _ hq' =>
        Step.timeout (d := d.rename σ.name) hq'
          (hp.imp Dispatch.phase_rename Dispatch.phase_rename)
  | @failed q d tx err hq hp =>
      have hid : d.req.requestId = q := (hσ.wf.dispatch hq).requestId
      refine simulates (fun hreq => ?_) fun hreq => ?_
      · rw [world_setDispatch_withState hreq]
        have h : Step serde (σ.world w) _ _ := Step.failed (d := d.rename σ.name)
          (world_dispatches_some hreq hq) (Dispatch.phase_rename hp)
        have hstate : σ.state (w.state.unpark d.req.requestId) =
            (σ.state w.state).unpark d.req.requestId :=
          congrArg (ServerState.mk _ _) (PartialMap.transport_erase (ids_of_kept (hid.symm ▸ hreq)))
        rw [hstate]
        exact h
      · refine world_setDispatch_withState_of_not hreq ?_
        exact congrArg (ServerState.mk _ _)
          (PartialMap.transport_erase_of_none (ids_of_not (hid.symm ▸ hreq)))
  | @cancel q d hq hp =>
      exact simulates_setDispatch hq rfl fun _ hq' =>
        Step.cancel (d := d.rename σ.name) hq' ((DispatchPhase.running_rename _).trans hp)

end Scope

end Outpunch
