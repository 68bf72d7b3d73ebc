import Outpunch.Library.Rank
import Outpunch.Server.Exec
import Outpunch.Server.History

/-!
# Server — how much work a server does

A server does no more than it was given.  A rank is given to each connection, by where its `run`
stands and what its channels hold, and to each dispatch; a new connection, a push and a request
raise it, and what the tasks of the server do lowers it by one at least (`World.rank`).  So the
steps of its tasks are bounded by what was asked of it (`work_bounded`), and there is no loop
among them.
-/

namespace Outpunch

variable {serde : SerdeJson} {config : ServerConfig} {tr : List Event} {w w' : World}

/-! ### The steps of the tasks -/

/-- The step is one of `run`, of the drain task or of a call of `push_message` that goes on. -/
def ConnEvent.ofTask : ConnEvent → Bool
  | .onMessage | .push _ | .pushClosed _ | .gone _ | .close | .run | .panic _ => false
  | _ => true

/-- The connection of whose tasks it is a step. -/
def Event.connOf : Event → Option ConnId
  | .conn c e => if e.ofTask then some c else none
  | .register c _ | .closeReplaced c _ | .respond c _ _ _ | .cleanup c _ | .drainEnd c
  | .runReturned c => some c
  | _ => none

/-- The dispatch of which it is a step. -/
def Event.dispatchOf : Event → Option RequestId
  | .assign q _ _ | .send q _ _ | .fail q _ | .ret q _ => some q
  | _ => none

/-- The step is one of a task of the server, or its timer fires. -/
def Event.ofTask (e : Event) : Bool := e.connOf.isSome || e.dispatchOf.isSome

def ConnEvent.brings : ConnEvent → ℕ
  | .push _ => 3
  | _ => 0

/-- What the event asks of the server, as it is paid for by the rank. -/
def Event.brings : Event → ℕ
  | .create _ => 13
  | .conn _ e => e.brings
  | .request _ _ => 5
  | _ => 0

/-! ### Ranks -/

def Phase.rank : Phase → ℕ
  | .created => 12
  | .auth => 11
  | .check _ => 10
  | .reply _ _ => 9
  | .register _ => 7
  | .registered _ _ => 6
  | .closing _ _ | .respond _ _ _ => 5
  | .relay _ => 4
  | .cleanup _ => 3
  | .leaving _ => 2
  | .joining _ => 1
  | .done _ => 0

def Drain.rank : Drain → ℕ
  | .idle | .running _ => 1
  | .ended => 0

/-- What is left to do for the tasks of a connection, if nothing more comes. -/
def Connection.rank (k : Connection) : ℕ :=
  k.phase.rank + k.drain.rank + 3 * k.pushing.length + 2 * k.incoming.length + k.outgoing.length

def DispatchPhase.rank : DispatchPhase → ℕ
  | .locking => 5
  | .sending _ => 4
  | .waiting _ => 2
  | .failed _ _ => 1
  | .returned _ | .cancelled => 0

/-- The requests that were made. -/
def Event.requested : Event → Option RequestId
  | .request q _ => some q
  | _ => none

def requestedIn (tr : List Event) : Finset RequestId :=
  (Lts.record Event.requested tr).toFinset

def World.connRank (w : World) (c : ConnId) : ℕ := (w.conns c).elim 0 Connection.rank

def World.dispatchRank (w : World) (q : RequestId) : ℕ :=
  (w.dispatches q).elim 0 fun d => d.phase.rank

/-- What is left to do in a state a history led to. -/
def World.rank (tr : List Event) (w : World) : ℕ :=
  ∑ c ∈ Finset.range w.nextConnId, w.connRank c + ∑ q ∈ requestedIn tr, w.dispatchRank q

/-! ### One connection -/

/-- What the event brings to the connection `c`. -/
def Event.connBrings (c : ConnId) : Event → ℕ
  | .conn c' e => if c' = c then e.brings else 0
  | .send _ tx _ => if tx = c then 1 else 0
  | _ => 0

/-- What it brings to all connections. -/
def Event.connsBring : Event → ℕ
  | .conn _ e => e.brings
  | .send _ _ _ => 1
  | _ => 0

section

variable {k k' : Connection} {e : ConnEvent}

theorem Connection.authNext_rank (raw : String) : (authNext serde raw).rank < 12 := by
  rcases @authNext_cases serde raw with ⟨_, -, h⟩ | ⟨-, h⟩ <;> rw [h] <;> simp [Phase.rank]

theorem Connection.checkNext_rank (msg : AuthMessage) :
    (checkNext serde config msg).rank = 9 := by
  unfold checkNext
  split <;> rfl

theorem Connection.authReturned_rank (service : Option String) :
    (authReturned service).rank ≤ 7 := by
  cases service <;> simp [authReturned, Phase.rank]

theorem Connection.upgradeNext_rank (service : String) (replaced : Option ServiceHandle) :
    (upgradeNext service replaced).rank ≤ 5 := by
  cases replaced <;> simp [upgradeNext, Phase.rank]

theorem Connection.relayNext_rank (service : String) (m : Pushed) :
    (relayNext serde service m).rank ≤ 5 := by
  rcases @relayNext_cases serde service m with ⟨_, -, h⟩ | ⟨-, h⟩ <;> rw [h] <;>
    simp [Phase.rank]

/-- A step of `run` to `p`. -/
theorem Connection.rank_phase {p : Phase} (h : p.rank < k.phase.rank) :
    { k with phase := p }.rank + 1 ≤ k.rank := by
  simp only [Connection.rank]
  omega

/-- A step of `run` that takes a message. -/
theorem Connection.rank_recv {p : Phase} {m : Pushed} {rest : List Pushed}
    (hi : k.incoming = m :: rest) (h : p.rank < k.phase.rank + 2) :
    { k with incoming := rest, phase := p }.rank + 1 ≤ k.rank := by
  simp only [Connection.rank, hi, List.length_cons]
  omega

/-- A step of `run` that sends a message. -/
theorem Connection.rank_send {p : Phase} {text : String} (h : p.rank + 1 < k.phase.rank) :
    { k with outgoing := k.outgoing ++ [text], phase := p }.rank + 1 ≤ k.rank := by
  simp only [Connection.rank, List.length_append, List.length_singleton]
  omega

/-- A step of the drain task that takes a message. -/
theorem Connection.rank_drain {text : String} {rest : List String}
    (ho : k.outgoing = text :: rest) : { k with outgoing := rest }.rank + 1 ≤ k.rank := by
  simp only [Connection.rank, ho, List.length_cons]
  omega

/-- A step of a connection is paid for. -/
theorem Connection.Step.rank_le (h : Connection.Step serde config k e k') :
    k'.rank + (if e.ofTask then 1 else 0) ≤ k.rank + e.brings := by
  cases h with
  | onMessage | pushClosed _ | close => exact Nat.le_refl _
  | push _ _ =>
      simp only [Connection.rank, List.length_append, List.length_singleton, ConnEvent.ofTask,
        Bool.false_eq_true, if_false, ConnEvent.brings]
      omega
  | sent hm _ _ =>
      have hpos := List.length_pos_of_mem hm
      simp only [Connection.rank, List.length_erase_of_mem hm, List.length_append,
        List.length_singleton, ConnEvent.ofTask, if_true]
      omega
  | gone hm =>
      simp only [Connection.rank, List.length_erase_of_mem hm, ConnEvent.ofTask,
        Bool.false_eq_true, if_false]
      omega
  | run hp =>
      simp only [Connection.rank, hp, Phase.rank, Drain.rank, ConnEvent.ofTask,
        Bool.false_eq_true, if_false]
      omega
  | authTimeout hp | authClosed hp _ | relayClosed hp _ | dropOutgoing hp =>
      exact rank_phase (by rw [hp]; simp [Phase.rank])
  | check hp => exact rank_phase (by rw [hp, checkNext_rank]; simp [Phase.rank])
  | @authRecv m _ hp hi =>
      refine rank_recv hi ?_
      rw [hp]
      exact (authNext_rank m.text).trans (by simp [Phase.rank])
  | @reply _ service hp _ =>
      refine rank_send ?_
      rw [hp]
      exact (Nat.add_le_add_right (authReturned_rank service) 1).trans_lt (by simp [Phase.rank])
  | @replyLost _ service hp _ =>
      refine rank_phase ?_
      rw [hp]
      exact (authReturned_rank service).trans_lt (by simp [Phase.rank])
  | @upgrade service replaced hp =>
      refine rank_phase ?_
      rw [hp]
      exact (upgradeNext_rank service replaced).trans_lt (by simp [Phase.rank])
  | @relayRecv service m _ hp hi =>
      refine rank_recv hi ?_
      rw [hp]
      exact (relayNext_rank service m).trans_lt (by simp [Phase.rank])
  | deliver _ ho | discard _ ho => exact rank_drain ho
  | panic hd _ =>
      simp only [Connection.rank, hd, Drain.rank, List.length_nil, ConnEvent.ofTask,
        Bool.false_eq_true, if_false]
      omega

/-- A step of a task is one of a connection it concerns. -/
theorem Event.concerns_of_connOf {c : ConnId} {e : Event} (h : e.connOf = some c) :
    e.ConcernsConn c := by
  cases e with
  | conn c' e => exact Option.some.inj (Option.ite_none_right_eq_some.mp h).2
  | closeReplaced c' old => exact .inl (Option.some.inj h)
  | register _ _ | respond _ _ _ _ | cleanup _ _ | drainEnd _ | runReturned _ =>
      exact Option.some.inj h
  | _ => cases h

/-- A move of a connection is paid for. -/
theorem Connection.Move.rank_le {c : ConnId} {e : Event} (h : Connection.Move serde w c k e k') :
    k'.rank + (if e.connOf = some c then 1 else 0) ≤ k.rank + e.connBrings c := by
  have task : ∀ {e : Event} {k' : Connection}, e.connOf = some c → k'.rank + 1 ≤ k.rank →
      k'.rank + (if e.connOf = some c then 1 else 0) ≤ k.rank + e.connBrings c := by
    intro e k' he hk
    rw [if_pos he]
    exact hk.trans (Nat.le_add_right ..)
  cases h with
  | @own e _ hs =>
      have hle := hs.rank_le
      cases e <;> simpa [Event.connOf, Event.connBrings, ConnEvent.ofTask] using hle
  | register hp | closeReplaced hp _ | respond hp | cleanup hp | runReturned hp _ =>
      exact task rfl (rank_phase (by rw [hp]; simp [Phase.rank]))
  | drainEnd hd _ _ =>
      refine task rfl ?_
      simp only [Connection.rank, hd, Drain.rank]
      omega
  | @closed c' hne =>
      have hother : (Event.closeReplaced c' c).connOf ≠ some c := fun he => hne (Option.some.inj he)
      rw [if_neg hother]
      exact Nat.le_refl _
  | send _ =>
      simp only [Connection.rank, Event.connOf, Event.connBrings, List.length_append,
        List.length_singleton, if_true, reduceCtorEq, if_false]
      omega
  | other hno =>
      rw [if_neg fun he => hno (Event.concerns_of_connOf he)]
      exact Nat.le_add_right ..

end

/-! ### One dispatch -/

/-- What a step of a dispatch takes from its rank. -/
def Event.dispatchCost (q : RequestId) : Event → ℕ
  | .assign q' _ _ | .fail q' _ | .ret q' _ => if q' = q then 1 else 0
  | .send q' _ _ => if q' = q then 2 else 0
  | _ => 0

def Event.dispatchesCost : Event → ℕ
  | .assign _ _ _ | .fail _ _ | .ret _ _ => 1
  | .send _ _ _ => 2
  | _ => 0

theorem Dispatch.Move.rank_le {q : RequestId} {d d' : Dispatch} {e : Event}
    (h : Dispatch.Move w q d e d') :
    d'.phase.rank + e.dispatchCost q ≤ d.phase.rank := by
  cases h with
  | notConnected hp _ | assign hp _ | send hp | answered hp _ | failed hp =>
      rw [hp]
      simp [DispatchPhase.rank, Event.dispatchCost]
  | fail hp =>
      rcases hp with hp | hp <;> rw [hp] <;> simp [DispatchPhase.rank, Event.dispatchCost]
  | cancel _ => exact Nat.zero_le _
  | respond _ =>
      unfold Dispatch.answer
      split <;> exact Nat.le_refl _
  | @other e hno =>
      cases e with
      | assign q' _ _ | send q' _ _ | fail q' _ | ret q' _ =>
          have hne : q' ≠ q := hno
          simp [Event.dispatchCost, hne]
      | _ => exact Nat.le_refl _

/-! ### The server -/

theorem requestedIn_snoc (tr : List Event) (e : Event) :
    requestedIn (tr ++ [e]) = requestedIn tr ∪ e.requested.toList.toFinset := by
  have hrec : Lts.record Event.requested (tr ++ [e]) =
      Lts.record Event.requested tr ++ e.requested.toList := Lts.record_snoc
  rw [requestedIn, hrec, List.toFinset_append]
  rfl

theorem mem_requestedIn {q : RequestId} :
    q ∈ requestedIn tr ↔ ∃ incoming, .request q incoming ∈ tr := by
  rw [requestedIn, List.mem_toFinset, Lts.mem_record]
  constructor
  · rintro ⟨e, he, hq⟩
    cases e with
    | request q' incoming => cases hq; exact ⟨incoming, he⟩
    | _ => cases hq
  · rintro ⟨incoming, he⟩
    exact ⟨_, he, rfl⟩

/-- What the event brings to all the connections there are. -/
theorem sum_connBrings_le (n : ConnId) (e : Event) :
    ∑ c ∈ Finset.range n, e.connBrings c ≤ e.connsBring := by
  have one : ∀ {c' : ConnId} {m : ℕ}, ∑ c ∈ Finset.range n, (if c' = c then m else 0) ≤ m := by
    intro c' m
    rw [Finset.sum_ite_eq]
    split <;> simp
  cases e with
  | conn _ _ | send _ _ _ => exact one
  | _ => simp [Event.connBrings]

theorem Step.nextConnId_eq {e : Event} (h : Step serde w e w') (he : ∀ c, e ≠ .create c) :
    w'.nextConnId = w.nextConnId := by
  cases h with
  | create => exact absurd rfl (he _)
  | _ => rfl

/-- A connection pays for a step. -/
theorem Step.connRank_add_le {e : Event} (h : Step serde w e w') (hw : w.Wf)
    (he : ∀ c, e ≠ .create c) (c : ConnId) :
    w'.connRank c + (if e.connOf = some c then 1 else 0) ≤ w.connRank c + e.connBrings c := by
  cases hk : w.conns c with
  | some k =>
      obtain ⟨k', hk', hm⟩ := h.move hw.fresh hw.closesOthers hk
      simp only [World.connRank, hk, hk', Option.elim_some]
      exact hm.rank_le
  | none =>
      have hk' : w'.conns c = none := Option.eq_none_iff_forall_ne_some.mpr fun k' hk' => by
        rcases h.move_inv hw.fresh hw.closesOthers hk' with ⟨-, hc, -⟩ | ⟨k, hk₁, -⟩
        · exact he c hc
        · rw [hk] at hk₁; cases hk₁
      have hno : e.connOf ≠ some c := fun hc => by
        rcases h.conn_of_concerns hw (Event.concerns_of_connOf hc) with ⟨k, hk₁⟩ | hc
        · rw [hk] at hk₁; cases hk₁
        · exact he c hc
      simp [World.connRank, hk, hk', hno]

/-- A step of a task is one of a connection there is. -/
theorem Step.connOf_lt {e : Event} (h : Step serde w e w') (hw : w.Wf) {c : ConnId}
    (hc : e.connOf = some c) : c < w.nextConnId := by
  by_contra hle
  have hnone := hw.fresh c (Nat.not_lt.mp hle)
  rcases h.conn_of_concerns hw (Event.concerns_of_connOf hc) with ⟨k, hk⟩ | rfl
  · rw [hnone] at hk; cases hk
  · cases hc

/-- The connections pay for a step, up to what it brings them. -/
theorem Step.sum_connRank_le {e : Event} (h : Step serde w e w') (hw : w.Wf)
    (he : ∀ c, e ≠ .create c) :
    ∑ c ∈ Finset.range w'.nextConnId, w'.connRank c + (if e.connOf.isSome then 1 else 0) ≤
      ∑ c ∈ Finset.range w.nextConnId, w.connRank c + e.connsBring := by
  have hsum := Lts.sum_add_cost_le (S := Finset.range w.nextConnId)
    e.connBrings fun c _ => h.connRank_add_le hw he c
  have hcost : ∑ c ∈ Finset.range w.nextConnId, (if e.connOf = some c then 1 else 0) =
      if e.connOf.isSome then 1 else 0 := by
    cases hc : e.connOf with
    | none => simp
    | some c =>
        simp only [Option.some.injEq, Option.isSome_some, if_true, Finset.sum_ite_eq,
          Finset.mem_range, if_pos (h.connOf_lt hw hc)]
  have hgain := sum_connBrings_le w.nextConnId e
  rw [h.nextConnId_eq he, ← hcost]
  omega

/-- A step of a dispatch is one of a dispatch there is. -/
theorem Step.dispatch_of_dispatchOf {e : Event} (h : Step serde w e w') {q : RequestId}
    (hq : e.dispatchOf = some q) : ∃ d, w.dispatches q = some d := by
  cases h with
  | notConnected hd _ _ | assign hd _ _ | send hd _ _ _ | connectionLost hd _ _ _
  | answered hd _ _ | disconnected hd _ _ _ | timeout hd _ | failed hd _ =>
      cases hq; exact ⟨_, hd⟩
  | _ => cases hq

/-- A dispatch pays for a step. -/
theorem Step.dispatchRank_add_le {e : Event} (h : Step serde w e w')
    (he : ∀ q incoming, e ≠ .request q incoming) (q : RequestId) :
    w'.dispatchRank q + e.dispatchCost q ≤ w.dispatchRank q := by
  cases hd : w.dispatches q with
  | some d =>
      obtain ⟨d', hd', hm⟩ := h.dispatch_move hd
      simp only [World.dispatchRank, hd, hd', Option.elim_some]
      exact hm.rank_le
  | none =>
      have hd' : w'.dispatches q = none := Option.eq_none_iff_forall_ne_some.mpr fun d' hd' => by
        rcases h.dispatch_move_inv hd' with ⟨-, incoming, hq, -⟩ | ⟨d, hd₁, -⟩
        · exact he q incoming hq
        · rw [hd] at hd₁; cases hd₁
      have hcost : e.dispatchCost q = 0 := by
        have hno : e.dispatchOf ≠ some q := fun hq => by
          obtain ⟨d, hd₁⟩ := h.dispatch_of_dispatchOf hq
          rw [hd] at hd₁; cases hd₁
        cases e with
        | assign q' _ _ | send q' _ _ | fail q' _ | ret q' _ =>
            exact if_neg fun hq => hno (congrArg some hq)
        | _ => rfl
      simp [World.dispatchRank, hd, hd', hcost]

/-- The dispatches pay for a step. -/
theorem Step.sum_dispatchRank_le {e : Event} (h : Step serde w e w')
    (hr : ServerRun serde config tr w) (he : ∀ q incoming, e ≠ .request q incoming) :
    ∑ q ∈ requestedIn tr, w'.dispatchRank q + e.dispatchesCost ≤
      ∑ q ∈ requestedIn tr, w.dispatchRank q := by
  have hsum := Lts.sum_add_cost_le (S := requestedIn tr) (fun _ => 0)
    fun q _ => h.dispatchRank_add_le he q
  have hmem : ∀ {q}, e.dispatchOf = some q → q ∈ requestedIn tr := fun hq => by
    obtain ⟨d, hd⟩ := h.dispatch_of_dispatchOf hq
    obtain ⟨incoming, hin, -⟩ := requested_of_run hr hd
    exact mem_requestedIn.mpr ⟨incoming, hin⟩
  have hcost : ∑ q ∈ requestedIn tr, e.dispatchCost q = e.dispatchesCost := by
    cases e with
    | assign q _ _ | send q _ _ | fail q _ | ret q _ =>
        simp only [Event.dispatchCost, Finset.sum_ite_eq, if_pos (hmem rfl)]
        rfl
    | _ => exact Finset.sum_const_zero
  rw [hcost, Finset.sum_const_zero] at hsum
  exact hsum

/-- A new connection is paid for. -/
theorem rank_create {c : ConnId} (h : Step serde w (.create c) w') :
    w'.rank (tr ++ [Event.create c]) = w.rank tr + 13 := by
  obtain ⟨hnext, hconns, hdispatches⟩ : w'.nextConnId = w.nextConnId + 1 ∧
      w'.conns = w.conns.insert w.nextConnId .new ∧ w'.dispatches = w.dispatches := by
    cases h with
    | create => exact ⟨rfl, rfl, rfl⟩
  have hreq : requestedIn (tr ++ [Event.create c]) = requestedIn tr := by
    rw [requestedIn_snoc]
    exact Finset.union_empty _
  have hold : ∀ c ∈ Finset.range w.nextConnId, w'.connRank c = w.connRank c := fun c hc => by
    rw [World.connRank, hconns, PartialMap.insert_other (Finset.mem_range.mp hc).ne,
      World.connRank]
  have hnew : w'.connRank w.nextConnId = 13 := by
    rw [World.connRank, hconns, PartialMap.insert_same]
    rfl
  have hsame : w'.dispatchRank = w.dispatchRank := by
    funext q
    rw [World.dispatchRank, hdispatches, World.dispatchRank]
  rw [World.rank, hnext, Finset.sum_range_succ, Finset.sum_congr rfl hold, hnew, hreq, hsame,
    World.rank]
  exact Nat.add_right_comm ..

/-- A request is paid for. -/
theorem rank_request {q : RequestId} {incoming : IncomingRequest}
    (hr : ServerRun serde config tr w) (h : Step serde w (.request q incoming) w') :
    w'.rank (tr ++ [Event.request q incoming]) = w.rank tr + 5 := by
  obtain ⟨hq, hconns, d, hp, hdispatches⟩ : w.dispatches q = none ∧
      w'.conns = w.conns ∧ ∃ d : Dispatch, d.phase = .locking ∧
        w'.dispatches = w.dispatches.insert q d := by
    cases h with
    | request hq => exact ⟨hq, rfl, _, rfl, rfl⟩
  have hfresh : q ∉ requestedIn tr := fun hmem => by
    obtain ⟨incoming, hin⟩ := mem_requestedIn.mp hmem
    obtain ⟨d, hd, -⟩ := dispatch_of_request hr hin
    rw [hq] at hd; cases hd
  have hreq : requestedIn (tr ++ [Event.request q incoming]) = insert q (requestedIn tr) := by
    rw [requestedIn_snoc, Finset.insert_eq, Finset.union_comm]
    rfl
  have hold : ∀ q' ∈ requestedIn tr, w'.dispatchRank q' = w.dispatchRank q' := fun q' hq' => by
    have hne : q' ≠ q := fun he => hfresh (he ▸ hq')
    rw [World.dispatchRank, hdispatches, PartialMap.insert_other hne, World.dispatchRank]
  have hnew : w'.dispatchRank q = 5 := by
    rw [World.dispatchRank, hdispatches, PartialMap.insert_same, Option.elim_some, hp]
    rfl
  have hsame : w'.connRank = w.connRank := by
    funext c
    rw [World.connRank, hconns, World.connRank]
  rw [World.rank, hreq, Finset.sum_insert hfresh, Finset.sum_congr rfl hold, hnew, hsame,
    h.nextConnId_eq fun c => by simp, World.rank, Nat.add_assoc, Nat.add_comm 5]

/-- A step is paid for. -/
theorem rank_snoc_le (hr : ServerRun serde config tr w) {e : Event} (h : Step serde w e w') :
    w'.rank (tr ++ [e]) + (if e.ofTask then 1 else 0) ≤ w.rank tr + e.brings := by
  have hw := wf_of_run hr
  by_cases hcreate : ∃ c, e = .create c
  · obtain ⟨c, rfl⟩ := hcreate
    exact (rank_create h).le
  by_cases hrequest : ∃ q incoming, e = .request q incoming
  · obtain ⟨q, incoming, rfl⟩ := hrequest
    exact (rank_request hr h).le
  simp only [not_exists] at hcreate hrequest
  have hreq : requestedIn (tr ++ [e]) = requestedIn tr := by
    rw [requestedIn_snoc]
    cases e with
    | request q incoming => exact absurd rfl (hrequest q incoming)
    | _ => exact Finset.union_empty _
  have hconns := h.sum_connRank_le hw hcreate
  have hdispatches := h.sum_dispatchRank_le hr hrequest
  have hpaid : (if e.ofTask then 1 else 0) + e.connsBring ≤
      (if e.connOf.isSome then 1 else 0) + e.dispatchesCost + e.brings := by
    cases e with
    | create c => exact absurd rfl (hcreate c)
    | request q incoming => exact absurd rfl (hrequest q incoming)
    | conn c e =>
        simp [Event.ofTask, Event.dispatchOf, Event.connsBring, Event.brings,
          Event.dispatchesCost]
    | _ => simp [Event.ofTask, Event.connOf, Event.dispatchOf, Event.connsBring,
        Event.dispatchesCost]
  rw [World.rank, World.rank, hreq]
  omega

theorem rank_new (config : ServerConfig) : (World.new config).rank [] = 0 := by
  simp [World.rank, World.new, World.connRank, PartialMap.empty, requestedIn]

/-- **A server does no more than it was given**: every step of its tasks is paid for by a
connection, a push or a request. -/
theorem work_bounded (h : ServerRun serde config tr w) :
    tr.countP Event.ofTask ≤ (tr.map Event.brings).sum := by
  have hle := h.countP_le (fun tr w => w.rank tr) Event.ofTask Event.brings
    fun hr hs => rank_snoc_le hr hs
  rw [rank_new] at hle
  omega

/-- A session of one connection, two pushes and one dispatch. -/
theorem work_bounded_session :
    (demoSession "q").countP Event.ofTask ≤ ((demoSession "q").map Event.brings).sum := by
  obtain ⟨w, h⟩ := @exists_run compactJson demoConfig (demoSession "q") (by decide +kernel)
  exact work_bounded h

end Outpunch
