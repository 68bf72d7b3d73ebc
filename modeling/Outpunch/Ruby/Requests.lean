import Outpunch.Ruby.Tasks
import Outpunch.Server.Pending

/-!
# Ruby — one dispatch for each request

What `handle_request` does with its task, in any run of a process and however its thread is
interrupted (`requests_exact`).  A call runs one dispatch at most, of its own request, and no two
calls run the same; what it returns is what its dispatch returned, and its task never fails.  The
dispatch is dropped only where the call raises, and a call raises only an exception that hit its
thread.  So as long as no exception hits a call, no entry of the core is left behind
(`interrupts_leak_nothing`).
-/

namespace Outpunch

open Gvl (Interrupt)

variable {serde : SerdeJson} {config : ServerConfig} {tr : List ProcessEvent} {a a' : RubyProcess}
  {p : CallId} {q : RequestId} {r r' : RequestCall}

/-! ### One call -/

/-- An interrupt hit the thread of the call `p`. -/
def RequestHit (p : CallId) (tr : List ProcessEvent) (i : Interrupt String) : Prop :=
  .request p (.interrupt i) ∈ tr

/-- The call of `handle_request` of which it is an event. -/
def ProcessEvent.ofRequest : ProcessEvent → Option CallId
  | .request p _ | .requestBegan p _ _ | .requestDropped p => some p
  | _ => none

/-- What an event makes of the call `p`. -/
inductive RequestCall.Move (w : World) (p : CallId) (r : RequestCall) :
    ProcessEvent → RequestCall → Prop where
  | wait {e : WaitEvent} {r' : RequestCall} (hn : r.next w e = some r') :
      Move w p r (.request p e) r'
  | began {q : RequestId} (hd : r.dispatch = none) (hn : r.dropped = false) :
      Move w p r (.requestBegan p q r.args.incoming) { r with dispatch := some q }
  | dropped (hd : r.dispatch = none) (ha : r.aborted) :
      Move w p r (.requestDropped p) { r with dropped := true }
  | other {e : ProcessEvent} (he : e.ofRequest ≠ some p) : Move w p r e r

/-- A call stays, and makes one move. -/
theorem ProcessStep.requestMove {e : ProcessEvent} (h : ProcessStep serde a e a')
    (hr : a.requests p = some r) :
    ∃ r', a'.requests p = some r' ∧ RequestCall.Move a.server p r e r' := by
  -- a step that writes the call `p'` alone is a move of it
  have write : ∀ {p' r₁ r₂}, a.requests p' = some r₁ → (p' ≠ p → e.ofRequest ≠ some p) →
      (p' = p → RequestCall.Move a.server p r₁ e r₂) →
      ∃ r', (a.requests.insert p' r₂) p = some r' ∧ RequestCall.Move a.server p r e r' := by
    intro p' r₁ r₂ hr₁ hother hsame
    by_cases hp : p' = p
    · subst hp
      cases hr₁.symm.trans hr
      exact ⟨r₂, PartialMap.insert_same .., hsame rfl⟩
    · exact ⟨r, (PartialMap.insert_other (Ne.symm hp)).trans hr, .other (hother hp)⟩
  have ne : ∀ {p' : CallId}, p' ≠ p → some p' ≠ some p := fun hp h => hp (Option.some.inj h)
  cases h with
  | requestCalled hp =>
      have hne : p ≠ _ := fun he => by rw [he, hp] at hr; cases hr
      exact ⟨r, (PartialMap.insert_other hne).trans hr, .other (by simp [ProcessEvent.ofRequest])⟩
  | requestBegan hr' hd hn _ => exact write hr' ne (by rintro rfl; exact .began hd hn)
  | requestDropped hr' hd ha => exact write hr' ne (by rintro rfl; exact .dropped hd ha)
  | request hr' hn => exact write hr' ne (by rintro rfl; exact .wait hn)
  | _ => exact ⟨r, hr, .other (by simp [ProcessEvent.ofRequest])⟩

/-- A call that is there after a step was there before it, or is made by it. -/
theorem ProcessStep.requestMove_inv {e : ProcessEvent} (h : ProcessStep serde a e a')
    (hr' : a'.requests p = some r') :
    (∃ args, e = .requestCalled p args ∧ r' = .new args) ∨
      ∃ r, a.requests p = some r ∧ RequestCall.Move a.server p r e r' := by
  cases hr : a.requests p with
  | some r =>
      obtain ⟨r₁, hr₁, hm⟩ := h.requestMove hr
      cases hr₁.symm.trans hr'
      exact .inr ⟨r, rfl, hm⟩
  | none =>
      have other : ∀ {p' r₁ r₂}, a.requests p' = some r₁ →
          (a.requests.insert p' r₂) p ≠ some r' := fun {p' _ _} hr₁ hins => by
        rcases PartialMap.insert_eq_some.mp hins with ⟨rfl, -⟩ | ⟨-, hold⟩
        · rw [hr] at hr₁; cases hr₁
        · rw [hr] at hold; cases hold
      cases h with
      | requestCalled _ =>
          rcases PartialMap.insert_eq_some.mp hr' with ⟨rfl, rfl⟩ | ⟨-, hold⟩
          · exact .inl ⟨_, rfl, rfl⟩
          · rw [hr] at hold; cases hold
      | requestBegan hr₁ _ _ _ | requestDropped hr₁ _ _ | request hr₁ _ =>
          exact absurd hr' (other hr₁)
      | _ => rw [hr] at hr'; cases hr'

/-! ### One dispatch -/

/-- Only the task that runs it drops a dispatch. -/
theorem ProcessStep.cancel_inv {e : ProcessEvent} (h : ProcessStep serde a e a')
    (he : e.toServer = some (.cancel q)) : ∃ p r, e = .requestCancelled p q ∧
      a.requests p = some r ∧ r.dispatch = some q ∧ r.aborted := by
  cases h with
  | @host e _ hfree _ =>
      cases e with
      | server e => cases he; cases hfree
      | call p c e =>
          obtain ⟨_, -, he⟩ := Option.map_eq_some_iff.mp he
          cases he
      | called _ _ _ => cases he
  | requestCancelled hr hd ha _ => cases he; exact ⟨_, _, rfl, hr, hd, ha⟩
  | _ => cases he

/-- Only a task that begins makes a dispatch. -/
theorem ProcessStep.request_inv {e : ProcessEvent} (h : ProcessStep serde a e a')
    {incoming : IncomingRequest} (he : e.toServer = some (.request q incoming)) :
    ∃ p r, e = .requestBegan p q incoming ∧ a.requests p = some r ∧
      a'.requests p = some { r with dispatch := some q } ∧ incoming = r.args.incoming := by
  cases h with
  | @host e _ hfree _ =>
      cases e with
      | server e => cases he; cases hfree
      | call p c e =>
          obtain ⟨_, -, he⟩ := Option.map_eq_some_iff.mp he
          cases he
      | called _ _ _ => cases he
  | requestBegan hr _ _ _ =>
      cases he
      exact ⟨_, _, rfl, hr, PartialMap.insert_same .., rfl⟩
  | _ => cases he

/-- A dispatch stays; once it is over it stands still, and it is dropped only by its task. -/
theorem ProcessStep.dispatchMove {e : ProcessEvent} (h : ProcessStep serde a e a') {d : Dispatch}
    (hd : a.server.dispatches q = some d) : ∃ d', a'.server.dispatches q = some d' ∧
      d'.req = d.req ∧ (d.phase.running = false → d'.phase = d.phase) ∧
      (d'.phase = .cancelled → d.phase = .cancelled ∨ e.toServer = some (.cancel q)) := by
  have hserver := h.toServer
  cases he : e.toServer with
  | none =>
      rw [he] at hserver
      exact ⟨d, hserver ▸ hd, rfl, fun _ => rfl, .inl⟩
  | some e' =>
      rw [he] at hserver
      obtain ⟨d', hd', hm⟩ := Step.dispatch_move hserver hd
      refine ⟨d', hd', hm.req.1, hm.over, fun hp => ?_⟩
      cases hm with
      | cancel _ => exact .inr rfl
      | respond _ =>
          refine .inl ?_
          revert hp
          unfold Dispatch.answer
          split <;> exact id
      | other _ => exact .inl hp
      | _ => cases hp

theorem DispatchPhase.not_running_of_joined {d : DispatchPhase}
    {joined : Joined (Except TunnelError TunnelResponse)} (h : d.joined = some joined) :
    d.running = false := by
  cases d <;> first | rfl | cases h

/-- What a task gave, it gives. -/
theorem ProcessStep.joined {e : ProcessEvent} (h : ProcessStep serde a e a')
    {joined : Joined (Except TunnelError TunnelResponse)}
    (hj : r.joined a.server = some joined) : r.joined a'.server = some joined := by
  unfold RequestCall.joined at hj ⊢
  split at hj
  · obtain ⟨d, hd, hj⟩ := Option.bind_eq_some_iff.mp hj
    obtain ⟨d', hd', -, hover, -⟩ := h.dispatchMove hd
    rw [hd', Option.bind_some, hover (DispatchPhase.not_running_of_joined hj)]
    exact hj
  · exact hj

/-! ### The invariant -/

/-- What holds of a call of `handle_request`. -/
structure RequestOk (tr : List ProcessEvent) (w : World) (p : CallId) (r : RequestCall) : Prop where
  struck : r.wait.Struck (RequestHit p tr)
  began : ∀ {q}, r.dispatch = some q → .requestBegan p q r.args.incoming ∈ tr ∧
    ∃ d, w.dispatches q = some d
  aborted : r.aborted ↔ ∃ err, r.wait.phase = .raised err
  dropped : r.dropped → r.aborted
  cancelled : ∀ {q d}, r.dispatch = some q → w.dispatches q = some d → d.phase = .cancelled →
    r.aborted
  result : ∀ {joined}, r.wait.phase.result = some joined →
    r.joined w = some joined ∧ ∃ result, joined = .ok result

theorem RequestOk.new (tr : List ProcessEvent) (w : World) (p : CallId) (args : RequestArgs) :
    RequestOk tr w p (.new args) where
  struck := .new _
  began hd := by cases hd
  aborted := by simp [RequestCall.new, Gvl.Call.new]
  dropped hd := by cases hd
  cancelled hd := by cases hd
  result hj := by cases hj

namespace RequestOk

variable {w : World}

/-- A wait that is not over was not aborted, and its task is dropped by nobody. -/
theorem joined_ok (h : RequestOk tr w p r) (hover : r.wait.waited = none)
    {joined : Joined (Except TunnelError TunnelResponse)} (hj : r.joined w = some joined) :
    ∃ result, joined = .ok result := by
  have hno : ¬ r.aborted := fun ha => by
    obtain ⟨err, hp⟩ := h.aborted.mp ha
    rw [WaitFor.waited, hp] at hover
    cases hover
  unfold RequestCall.joined at hj
  split at hj
  · rename_i q hq
    obtain ⟨d, hd, hj⟩ := Option.bind_eq_some_iff.mp hj
    cases hp : d.phase with
    | returned result =>
        rw [hp] at hj
        cases hj
        exact ⟨result, rfl⟩
    | cancelled => exact absurd (h.cancelled hq hd hp) hno
    | _ => rw [hp] at hj; cases hj
  · obtain ⟨hd, -⟩ := Option.ite_none_right_eq_some.mp hj
    exact absurd (h.dropped hd) hno

/-- An event of its wait. -/
theorem wait {e : WaitEvent} (h : RequestOk tr w p r) (hn : r.next w e = some r') :
    RequestOk (tr ++ [ProcessEvent.request p e]) w p r' := by
  obtain ⟨k, hk, rfl⟩ := Option.map_eq_some_iff.mp hn
  have hover := WaitFor.not_over hk
  have hno : r.aborted = false := Bool.eq_false_iff.mpr fun ha => by
    obtain ⟨err, hp⟩ := h.aborted.mp ha
    rw [WaitFor.waited, hp] at hover
    cases hover
  have hresult : ∀ {joined}, k.phase.result = some joined →
      r.joined w = some joined ∧ ∃ result, joined = .ok result := fun {joined} hj => by
    rcases WaitFor.step_cases hk with ⟨joined', _, -, htask, -, hp⟩ | ⟨-, hsame⟩
    · rw [hp] at hj
      cases hj
      exact ⟨htask, h.joined_ok hover htask⟩
    · exact h.result (hsame ▸ hj)
  constructor
  · exact WaitFor.step_struck (h.struck.mono fun i hi => List.mem_append_left _ hi) hk
      fun i hi => hi ▸ List.mem_concat_self
  · exact fun hd => (h.began hd).imp_left (List.mem_append_left _)
  · dsimp only
    cases hp : k.phase with
    | raised err => simp [WaitFor.waited, hp]
    | returned joined =>
        have hjoined : k.phase.result = some joined := by rw [hp]; rfl
        obtain ⟨-, result, rfl⟩ := hresult hjoined
        simp [WaitFor.waited, Joined.waited, hp, hno]
    | _ => simp [WaitFor.waited, hp, hno]
  · exact fun hd => absurd (h.dropped hd) (Bool.eq_false_iff.mp hno)
  · exact fun hq hd hp => absurd (h.cancelled hq hd hp) (Bool.eq_false_iff.mp hno)
  · exact hresult

end RequestOk

/-- What holds of all of them. -/
structure RequestsOk (tr : List ProcessEvent) (a : RubyProcess) : Prop where
  call : ∀ {p r}, a.requests p = some r → RequestOk tr a.server p r
  owner : ∀ {q d}, a.server.dispatches q = some d → ∃ p r, a.requests p = some r ∧
    r.dispatch = some q
  one : ∀ {p p' q r r'}, a.requests p = some r → a.requests p' = some r' →
    r.dispatch = some q → r'.dispatch = some q → p = p'

/-- The dispatch of a call that was not there is new, and its own. -/
theorem RequestCall.Move.dispatch {w : World} {e : ProcessEvent} (h : RequestCall.Move w p r e r')
    (hd : r'.dispatch = some q) : r.dispatch = some q ∨
      e = .requestBegan p q r.args.incoming ∧ r.dispatch = none := by
  cases h with
  | wait hn =>
      obtain ⟨_, -, rfl⟩ := Option.map_eq_some_iff.mp hn
      exact .inl hd
  | began hno _ =>
      cases hd
      exact .inr ⟨rfl, hno⟩
  | dropped _ _ => exact .inl hd
  | other _ => exact .inl hd

theorem RequestCall.Move.dispatch_mono {w : World} {e : ProcessEvent}
    (h : RequestCall.Move w p r e r') (hd : r.dispatch = some q) : r'.dispatch = some q := by
  cases h with
  | wait hn =>
      obtain ⟨_, -, rfl⟩ := Option.map_eq_some_iff.mp hn
      exact hd
  | began hno _ => rw [hno] at hd; cases hd
  | dropped _ _ => exact hd
  | other _ => exact hd

/-- A dispatch that begins is new. -/
theorem ProcessStep.dispatch_of_began {incoming : IncomingRequest}
    (h : ProcessStep serde a (.requestBegan p q incoming) a') :
    a.server.dispatches q = none ∧
      ∃ d, a'.server.dispatches q = some d ∧ d.phase = .locking := by
  have hstep : Step serde a.server (.request q incoming) a'.server := h.toServer
  generalize a'.server = w' at hstep ⊢
  cases hstep with
  | request hq => exact ⟨hq, _, World.setDispatch_dispatches_same, rfl⟩

/-- The task begins. -/
theorem RequestOk.began_step {w w' : World} {d : Dispatch} (h : RequestOk tr w p r)
    (hno : r.dispatch = none) (hn : r.dropped = false) (hd : w'.dispatches q = some d)
    (hp : d.phase = .locking) :
    RequestOk (tr ++ [ProcessEvent.requestBegan p q r.args.incoming]) w' p
      { r with dispatch := some q } where
  struck := h.struck.mono fun i hi => List.mem_append_left _ hi
  began hq := by
    cases hq
    exact ⟨List.mem_concat_self, d, hd⟩
  aborted := h.aborted
  dropped := h.dropped
  cancelled hq hd' hc := by
    cases hq
    cases hd.symm.trans hd'
    rw [hp] at hc; cases hc
  result hj := by
    -- no task was joined before it began
    obtain ⟨hj, -⟩ := h.result hj
    rw [RequestCall.joined, hno] at hj
    exact absurd (Option.ite_none_right_eq_some.mp hj).1 (Bool.eq_false_iff.mp hn)

/-- The task is dropped, not having begun. -/
theorem RequestOk.dropped_step {w : World} {e : ProcessEvent} (h : RequestOk tr w p r)
    (hno : r.dispatch = none) (ha : r.aborted) :
    RequestOk (tr ++ [e]) w p { r with dropped := true } where
  struck := h.struck.mono fun i hi => List.mem_append_left _ hi
  began hq := by rw [hno] at hq; cases hq
  aborted := h.aborted
  dropped _ := ha
  cancelled hq := by rw [hno] at hq; cases hq
  result hj := by
    obtain ⟨err, hp⟩ := h.aborted.mp ha
    rw [hp] at hj; cases hj

namespace RequestsOk

/-- A call whose task goes on by itself, or not at all. -/
theorem stay {e : ProcessEvent} (ih : RequestsOk tr a) (h : ProcessStep serde a e a')
    (hr : a.requests p = some r) : RequestOk (tr ++ [e]) a'.server p r := by
  have hok := ih.call hr
  constructor
  · exact hok.struck.mono fun i hi => List.mem_append_left _ hi
  · intro q hq
    obtain ⟨hmem, d, hd⟩ := hok.began hq
    obtain ⟨d', hd', -⟩ := h.dispatchMove hd
    exact ⟨List.mem_append_left _ hmem, d', hd'⟩
  · exact hok.aborted
  · exact hok.dropped
  · intro q d' hq hd' hp
    obtain ⟨-, d, hd⟩ := hok.began hq
    obtain ⟨d₁, hd₁, -, -, hcancel⟩ := h.dispatchMove hd
    cases hd₁.symm.trans hd'
    rcases hcancel hp with hp | he
    · exact hok.cancelled hq hd hp
    · obtain ⟨p', r₁, -, hr₁, hq₁, ha⟩ := h.cancel_inv he
      cases ih.one hr hr₁ hq hq₁
      cases hr.symm.trans hr₁
      exact ha
  · exact fun hj => (hok.result hj).imp_left h.joined

theorem step_call {e : ProcessEvent} (ih : RequestsOk tr a) (h : ProcessStep serde a e a')
    (hr' : a'.requests p = some r') : RequestOk (tr ++ [e]) a'.server p r' := by
  rcases h.requestMove_inv hr' with ⟨args, rfl, rfl⟩ | ⟨r, hr, hm⟩
  · exact .new ..
  · have hok := ih.call hr
    cases hm with
    | wait hn =>
        have hsame : a'.server = a.server := h.toServer
        rw [hsame]
        exact hok.wait hn
    | began hno hn =>
        obtain ⟨-, d, hd, hp⟩ := h.dispatch_of_began
        exact hok.began_step hno hn hd hp
    | dropped hno ha =>
        have hsame : a'.server = a.server := h.toServer
        rw [hsame]
        exact hok.dropped_step hno ha
    | other _ => exact stay ih h hr

theorem step_owner {e : ProcessEvent} (ih : RequestsOk tr a) (h : ProcessStep serde a e a')
    {d' : Dispatch} (hd' : a'.server.dispatches q = some d') :
    ∃ p r, a'.requests p = some r ∧ r.dispatch = some q := by
  have old : ∀ d, a.server.dispatches q = some d →
      ∃ p r, a'.requests p = some r ∧ r.dispatch = some q := fun d hd => by
    obtain ⟨p, r, hr, hq⟩ := ih.owner hd
    obtain ⟨r', hr', hm⟩ := h.requestMove hr
    exact ⟨p, r', hr', hm.dispatch_mono hq⟩
  have hserver := h.toServer
  cases he : e.toServer with
  | none =>
      rw [he] at hserver
      exact old d' (hserver ▸ hd')
  | some e' =>
      rw [he] at hserver
      rcases Step.dispatch_move_inv hserver hd' with ⟨-, incoming, rfl, -⟩ | ⟨d, hd, -⟩
      · obtain ⟨p, r, -, -, hr', -⟩ := h.request_inv he
        exact ⟨p, _, hr', rfl⟩
      · exact old d hd

theorem step_one {e : ProcessEvent} (ih : RequestsOk tr a) (h : ProcessStep serde a e a')
    {p₁ p₂ : CallId} {r₁ r₂ : RequestCall} (hr₁ : a'.requests p₁ = some r₁)
    (hr₂ : a'.requests p₂ = some r₂) (hq₁ : r₁.dispatch = some q) (hq₂ : r₂.dispatch = some q) :
    p₁ = p₂ := by
  -- a call that runs `q` ran it before, or has begun to
  have inv : ∀ {p r}, a'.requests p = some r → r.dispatch = some q →
      (∃ r₀, a.requests p = some r₀ ∧ r₀.dispatch = some q) ∨
        ∃ incoming, e = .requestBegan p q incoming := fun hr hq => by
    rcases h.requestMove_inv hr with ⟨_, -, rfl⟩ | ⟨r₀, hr₀, hm⟩
    · cases hq
    · rcases hm.dispatch hq with hq | ⟨he, -⟩
      · exact .inl ⟨r₀, hr₀, hq⟩
      · exact .inr ⟨_, he⟩
  have fresh : ∀ {p p' incoming r₀}, e = .requestBegan p q incoming → a.requests p' = some r₀ →
      r₀.dispatch ≠ some q := fun he hr₀ hq => by
    subst he
    obtain ⟨-, d, hd⟩ := (ih.call hr₀).began hq
    rw [h.dispatch_of_began.1] at hd; cases hd
  rcases inv hr₁ hq₁ with ⟨r, hr, hq⟩ | ⟨_, he⟩
  · rcases inv hr₂ hq₂ with ⟨r', hr', hq'⟩ | ⟨_, he⟩
    · exact ih.one hr hr' hq hq'
    · exact absurd hq (fresh he hr)
  · rcases inv hr₂ hq₂ with ⟨r', hr', hq'⟩ | ⟨_, he'⟩
    · exact absurd hq' (fresh he hr')
    · cases he.symm.trans he'
      rfl

end RequestsOk

theorem requestsOk_of_run (h : ProcessRun serde config tr a) : RequestsOk tr a :=
  h.invariant RequestsOk
    ⟨fun hr => (by cases hr), fun hd => (by cases hd), fun hr => (by cases hr)⟩
    fun _ ih hs => ⟨ih.step_call hs, ih.step_owner hs, ih.step_one hs⟩

/-! ### One dispatch for each request -/

/-- A dispatch that has returned did so in this run. -/
theorem ret_of_returned {w : World} {l : List Event} (h : ServerRun serde config l w)
    {d : Dispatch} (hd : w.dispatches q = some d) {result : Except TunnelError TunnelResponse}
    (hp : d.phase = .returned result) : .ret q result ∈ l := by
  refine dispatch_invariant (fun l d => d.phase = .returned result → .ret q result ∈ l)
    (fun hp => by cases hp) (fun {l w d e w' d'} _ _ ih _ hm hp => ?_) h hd hp
  have old : d.phase = .returned result → .ret q result ∈ l ++ [e] := fun hp =>
    List.mem_append_left _ (ih hp)
  cases hm with
  | notConnected _ _ | answered _ _ | failed _ => cases hp; exact List.mem_concat_self
  | respond _ =>
      refine old ?_
      revert hp
      unfold Dispatch.answer
      split <;> exact id
  | other _ => exact old hp
  | _ => cases hp

/-- What the calls of `handle_request` do in a run. -/
structure RequestsExact (tr : List ProcessEvent) (a : RubyProcess) : Prop where
  /-- The task of a call runs a dispatch of its own request. -/
  own : ∀ {p r q}, a.requests p = some r → r.dispatch = some q →
    .request q r.args.incoming ∈ processCore tr
  /-- Every dispatch is run by one call. -/
  one : ∀ {q incoming}, .request q incoming ∈ processCore tr →
    ∃! p, ∃ r, a.requests p = some r ∧ r.dispatch = some q
  /-- A call ends with what its dispatch returned, or with an exception that hit its thread. -/
  ended : ∀ {p r out}, a.requests p = some r → r.wait.waited = some out →
    (∃ q result, out = .ok result ∧ r.dispatch = some q ∧ .ret q result ∈ processCore tr) ∨
      ∃ err, out = .error (.raised err) ∧ RequestHit p tr (.raises err)
  /-- A dispatch is dropped where its call has raised. -/
  cancelled : ∀ {p r q}, a.requests p = some r → r.dispatch = some q →
    .cancel q ∈ processCore tr → ∃ err, r.wait.waited = some (.error (.raised err))

/-- **`handle_request` is exact**, however its threads are interrupted. -/
theorem requests_exact (h : ProcessRun serde config tr a) : RequestsExact tr a where
  own hr hq := by
    obtain ⟨hmem, -⟩ := ((requestsOk_of_run h).call hr).began hq
    exact Lts.mem_record.mpr ⟨_, hmem, rfl⟩
  one hmem := by
    obtain ⟨d, hd, -⟩ := dispatch_of_request (processCoreRun h) hmem
    obtain ⟨p, r, hr, hq⟩ := (requestsOk_of_run h).owner hd
    refine ⟨p, ⟨r, hr, hq⟩, ?_⟩
    rintro p' ⟨r', hr', hq'⟩
    exact (requestsOk_of_run h).one hr' hr hq' hq
  ended {p r out} hr hout := by
    have hok := (requestsOk_of_run h).call hr
    rcases WaitFor.waited_eq_some.mp hout with ⟨joined, hp, rfl⟩ | ⟨err, hp, rfl⟩
    · have hresult : r.wait.phase.result = some joined := by rw [hp]; rfl
      obtain ⟨hj, result, rfl⟩ := hok.result hresult
      refine .inl ?_
      unfold RequestCall.joined at hj
      split at hj
      · rename_i q hq
        obtain ⟨d, hd, hj⟩ := Option.bind_eq_some_iff.mp hj
        cases hph : d.phase with
        | returned result' =>
            rw [hph] at hj
            cases hj
            exact ⟨q, result, rfl, hq, ret_of_returned (processCoreRun h) hd hph⟩
        | _ => rw [hph] at hj; cases hj
      · cases (Option.ite_none_right_eq_some.mp hj).2
    · exact .inr ⟨err, rfl, hok.struck.raised err hp⟩
  cancelled hr hq hmem := by
    have hok := (requestsOk_of_run h).call hr
    obtain ⟨d, hd, hp⟩ := cancelled_of_run (processCoreRun h) hmem
    obtain ⟨err, hraised⟩ := hok.aborted.mp (hok.cancelled hq hd hp)
    exact ⟨err, by rw [WaitFor.waited, hraised]⟩

/-- The arguments of a request for a service nobody serves. -/
def demoArgs : RequestArgs where
  service := "app"
  method := "GET"
  path := "/"
  query := ∅
  headers := ∅
  body := some []

/-- The call 1 is woken up once and then gets its error. -/
def wokenRequest : List ProcessEvent :=
  [.requestCalled 1 demoArgs, .request 1 .enter, .requestBegan 1 "q" demoArgs.incoming,
    .request 1 (.interrupt .quiet), .request 1 .cancelled, .request 1 .settle, .request 1 .enter,
    .host (.server (.ret "q" (.error .notConnected))), .request 1 .joined, .request 1 .settle]

/-- The call 2 is hit by an exception, and its dispatch dropped. -/
def stoppedRequest : List ProcessEvent :=
  [.requestCalled 2 demoArgs, .requestBegan 2 "r" demoArgs.incoming, .request 2 .enter,
    .request 2 (.interrupt (.raises "stop")), .request 2 .cancelled, .request 2 .settle,
    .requestCancelled 2 "r"]

/-- How the two calls end. -/
def requestEnds (a : RubyProcess) : Bool :=
  (a.requests 1).any (fun r => r.wait.waited = some (.ok (.error .notConnected))) &&
    (a.requests 2).any (fun r => r.wait.waited = some (.error (.raised "stop")))

/-- Two calls, one woken up and one stopped. -/
theorem requests_exact_interrupted : ∃ a, ProcessRun compactJson demoConfig
    (wokenRequest ++ stoppedRequest) a ∧ requestEnds a ∧
      RequestsExact (wokenRequest ++ stoppedRequest) a := by
  obtain ⟨a, h, hends⟩ := exists_processRun compactJson demoConfig
    (wokenRequest ++ stoppedRequest) requestEnds (by decide +kernel)
  exact ⟨a, h, hends, requests_exact h⟩

/-- **Interrupts that raise nothing leak nothing**: as long as no exception hits a call of
`handle_request`, every entry of the core is of a dispatch that runs. -/
theorem interrupts_leak_nothing (h : ProcessRun serde config tr a)
    (hquiet : ∀ p err, ¬ RequestHit p tr (.raises err)) : a.server.NoLeak := by
  intro q entry hentry
  obtain ⟨-, d, hd, -, hp, -⟩ := (wf_of_run (processCoreRun h)).pending hentry
  refine ⟨d, hd, ?_⟩
  rcases hp with hp | hp
  · cases hphase : d.phase with
    | sending _ | waiting _ | failed _ _ => rfl
    | locking | returned _ | cancelled => rw [hphase] at hp; cases hp
  · obtain ⟨p, r, hr, hq⟩ := (requestsOk_of_run h).owner hd
    have hok := (requestsOk_of_run h).call hr
    obtain ⟨err, hraised⟩ := hok.aborted.mp (hok.cancelled hq hd hp)
    exact absurd (hok.struck.raised err hraised) (hquiet p err)

/-- A client authenticates and is registered.  The call 1 sends it a request, and is woken up while
the entry of its dispatch is parked. -/
def wokenParked : List ProcessEvent :=
  let text := compactJson.toString
    (AuthMessage.toValue { msgType := "auth", token := demoConfig.secret, service := "app" })
  let ok := authOkText compactJson
  let m : Pushed := { n := 0, text }
  [ProcessEvent.host (.server (.create 1)), .host (.server (.conn 1 .onMessage)),
    .host (.called 1 1 (.pushMessage text))] ++
    [CallEvent.enter, .began m, .sent m, .settle].map (fun e => .host (.call 1 1 e)) ++
    [ProcessEvent.runCalled 1 1, .run 1 .enter, .runBegan 1 1] ++
    [ConnEvent.authRecv m, .check (some "app"), .reply ok, .deliver ok].map
      (fun e => .host (.server (.conn 1 e))) ++
    [ProcessEvent.host (.server (.register 1 "app")), .host (.server (.conn 1 .upgrade)),
      .requestCalled 1 demoArgs, .request 1 .enter, .requestBegan 1 "q" demoArgs.incoming,
      .host (.server (.assign "q" 1 1)), .request 1 (.interrupt .quiet), .request 1 .cancelled,
      .request 1 .settle, .request 1 .enter]

/-- The call 1 above goes on, and its entry is the one there is. -/
theorem interrupts_leak_nothing_woken :
    ∃ a, ProcessRun compactJson demoConfig wokenParked a ∧
      (a.server.state.pending "q").isSome ∧ a.server.NoLeak := by
  obtain ⟨a, h, hparked⟩ := exists_processRun compactJson demoConfig wokenParked
    (fun a => (a.server.state.pending "q").isSome) (by decide +kernel)
  refine ⟨a, h, hparked, interrupts_leak_nothing h fun p err hmem => ?_⟩
  simp [RequestHit, wokenParked] at hmem

end Outpunch
