import Outpunch.Rack.Ending

/-!
# Rack — what the threads of a bridge hold

The senders that the core has handed out for the incoming queue of a connection are held by the
call of `push_message` its reader is in, and the lock of its outgoing queue by the call of
`next_outgoing` its writer is in (`Held`).
-/

namespace Outpunch

variable {serde : SerdeJson} {config : ServerConfig} {tr : List RackEvent} {a a' : Rack}
  {c : ConnId} {p : CallId} {b b' : RackBridge} {e : RackEvent} {n n' : NativeCall}
  {o o' : OutgoingQueue} {k k' : Connection}

/-! ### What a call holds -/

/-- The message the call is sending. -/
def NativeCall.sending (n : NativeCall) : Option Pushed :=
  match n.call.phase with
  | .inside (.sending m) _ => some m
  | _ => none

/-- The call has the lock. -/
def NativeCall.receiving (n : NativeCall) : Bool :=
  match n.call.phase with
  | .inside .receiving _ => true
  | _ => false

theorem NativeCall.sending_of_outcome (h : n.outcome ≠ none) : n.sending = none := by
  unfold NativeCall.sending
  cases hp : n.call.phase with
  | returned _ | raised _ => rfl
  | _ => exact absurd (by rw [NativeCall.outcome, hp]) h

theorem NativeCall.receiving_of_outcome (h : n.outcome ≠ none) : n.receiving = false := by
  unfold NativeCall.receiving
  cases hp : n.call.phase with
  | returned _ | raised _ => rfl
  | _ => exact absurd (by rw [NativeCall.outcome, hp]) h

/-- What the steps of a call make of what it holds. -/
theorem NativeCall.holds_next {ce : CallEvent} : n.next ce = some n' →
    n'.sending = (match ce with
      | .began m => some m
      | .interrupt _ => n.sending
      | _ => none) ∧
    n'.receiving = (match ce with
      | .locked => true
      | .interrupt _ => n.receiving
      | _ => false) := by
  intro h
  obtain ⟨-, -, hcall⟩ := NativeCall.next_inv h
  unfold NativeCall.sending NativeCall.receiving
  cases ce with
  | interrupt i =>
      rcases (Gvl.Call.interrupt_inv hcall).2 with ⟨work, permit, hp, hp'⟩ | ⟨-, hp'⟩
      · rw [hp, hp']
        cases work <;> exact ⟨rfl, rfl⟩
      · rw [hp']
        exact ⟨rfl, rfl⟩
  | enter =>
      obtain ⟨-, -, hp | hp⟩ := Gvl.Call.enter_inv hcall <;> rw [hp]
      · cases n.method <;> exact ⟨rfl, rfl⟩
      · exact ⟨rfl, rfl⟩
  | began m =>
      obtain ⟨_, -, hp⟩ := Gvl.Call.advance_inv (Option.ite_none_right_eq_some.mp hcall).2
      rw [hp]
      exact ⟨rfl, rfl⟩
  | locked =>
      obtain ⟨_, -, hp⟩ := Gvl.Call.advance_inv hcall
      rw [hp]
      exact ⟨rfl, rfl⟩
  | closed text =>
      obtain ⟨_, -, hp⟩ := Gvl.Call.finish_inv (Option.ite_none_right_eq_some.mp hcall).2
      rw [hp]
      exact ⟨rfl, rfl⟩
  | sent _ | gone _ | received _ | ended =>
      obtain ⟨_, -, hp⟩ := Gvl.Call.finish_inv hcall
      rw [hp]
      exact ⟨rfl, rfl⟩
  | cancelled work =>
      simp only [NativeCall.stepCall] at hcall
      split at hcall
      · cases hcall
      · rw [(Gvl.Call.cancel_inv hcall).2]
        exact ⟨rfl, rfl⟩
  | settle =>
      rcases Gvl.Call.settle_inv hcall with ⟨value, -, hp⟩ | ⟨-, -, hp | ⟨err, -, hp⟩⟩ <;>
        rw [hp] <;> exact ⟨rfl, rfl⟩

/-- What a call held where it takes a step of its own. -/
theorem NativeCall.held_of_next {ce : CallEvent} : n.next ce = some n' →
    n.sending = (match ce with
      | .sent m | .gone m | .cancelled (.sending m) => some m
      | .interrupt _ => n.sending
      | _ => none) ∧
    n.receiving = (match ce with
      | .received _ | .ended | .cancelled .receiving => true
      | .interrupt _ => n.receiving
      | _ => false) := by
  intro h
  obtain ⟨-, -, hcall⟩ := NativeCall.next_inv h
  unfold NativeCall.sending NativeCall.receiving
  cases ce with
  | interrupt i => exact ⟨rfl, rfl⟩
  | enter =>
      rw [(Gvl.Call.enter_inv hcall).1]
      exact ⟨rfl, rfl⟩
  | began m =>
      obtain ⟨_, hp, -⟩ := Gvl.Call.advance_inv (Option.ite_none_right_eq_some.mp hcall).2
      rw [hp]
      exact ⟨rfl, rfl⟩
  | locked =>
      obtain ⟨_, hp, -⟩ := Gvl.Call.advance_inv hcall
      rw [hp]
      exact ⟨rfl, rfl⟩
  | closed text =>
      obtain ⟨_, hp, -⟩ := Gvl.Call.finish_inv (Option.ite_none_right_eq_some.mp hcall).2
      rw [hp]
      exact ⟨rfl, rfl⟩
  | sent _ | gone _ | received _ | ended =>
      obtain ⟨_, hp, -⟩ := Gvl.Call.finish_inv hcall
      rw [hp]
      exact ⟨rfl, rfl⟩
  | cancelled work =>
      simp only [NativeCall.stepCall] at hcall
      split at hcall
      · cases hcall
      · rw [(Gvl.Call.cancel_inv hcall).1]
        cases work <;> exact ⟨rfl, rfl⟩
  | settle =>
      rcases Gvl.Call.settle_inv hcall with ⟨value, hp, -⟩ | ⟨hp | hp, -⟩ <;> rw [hp] <;>
        exact ⟨rfl, rfl⟩

/-! ### What a bridge holds -/

/-- The message the reader's call is sending. -/
def RackBridge.sending (x : RubyProcess) (b : RackBridge) : List Pushed :=
  (b.reader.call.bind fun p => (x.host.calls p).bind NativeCall.sending).toList

/-- The call of the writer, where it has the lock. -/
def RackBridge.locker (x : RubyProcess) (b : RackBridge) : Option CallId :=
  match b.writer with
  | .waiting p => if (x.host.calls p).any NativeCall.receiving then some p else none
  | _ => none

/-- The senders of a connection and its lock are held by the calls of its bridge. -/
def Held (a : Rack) (c : ConnId) (b : RackBridge) : Prop :=
  ∃ o k, a.process.host.outgoing c = some o ∧ a.process.server.conns c = some k ∧
    o.ready = true ∧ k.pushing = b.sending a.process ∧ o.lock = b.locker a.process

theorem OutgoingQueue.onConn_kept {ce : ConnEvent} (h : o.onConn ce = some o') :
    o'.lock = o.lock ∧ (o.ready = true → o'.ready = true) := by
  cases ce with
  | onMessage =>
      obtain ⟨-, h⟩ := Option.ite_none_right_eq_some.mp h
      cases h
      exact ⟨rfl, fun _ => rfl⟩
  | run | close =>
      obtain ⟨-, h⟩ := Option.ite_none_right_eq_some.mp h
      cases h
      exact ⟨rfl, id⟩
  | push _ | pushClosed _ | sent _ | gone _ | panic _ => cases h
  | _ => cases h; exact ⟨rfl, id⟩

/-- Only calls hold senders. -/
theorem Connection.Step.pushing_kept {ce : ConnEvent} (hs : Connection.Step serde config k ce k')
    (hn : o.onConn ce = some o') : k'.pushing = k.pushing := by
  cases hs with
  | push _ _ | pushClosed _ | sent _ _ _ | gone _ => cases hn
  | _ => rfl

theorem Connection.Move.pushing_kept {w : World} {ev : Event}
    (hm : Connection.Move serde w c k ev k') (he : ∀ ce, ev ≠ .conn c ce) :
    k'.pushing = k.pushing := by
  cases hm with
  | own _ => exact absurd rfl (he _)
  | _ => rfl

/-- Without calls nothing is held. -/
theorem not_held_of_uncalled {tr : List RubyEvent} {x : RubyHost} (h : RubyRun serde config tr x)
    (ho : x.outgoing c = some o) (hno : ∀ p ce, .call p c ce ∉ tr) :
    ∃ k, x.server.conns c = some k ∧ k.pushing = [] ∧ o.lock = none := by
  rcases queue_invariant (c := c)
    (fun tr o k => (∀ p ce, .call p c ce ∉ tr) → k.pushing = [] ∧ o.lock = none)
    (fun _ _ _ => ⟨rfl, rfl⟩)
    (fun {tr a o k e a' o' k'} _ _ _ ih _ hm hno => by
      obtain ⟨hpush, hlock⟩ := ih fun p ce hmem => hno p ce (List.mem_append_left _ hmem)
      cases hm with
      | conn hs hn =>
          exact ⟨(hs.pushing_kept hn).trans hpush, (OutgoingQueue.onConn_kept hn).1.trans hlock⟩
      | server he hm => exact ⟨(hm.pushing_kept he).trans hpush, hlock⟩
      | push _ _ | call _ _ => exact absurd List.mem_concat_self (hno _ _)
      | other _ _ => exact ⟨hpush, hlock⟩) h with ⟨-, hnone, -⟩ | ⟨o₁, k, ho₁, hk, hP⟩
  · rw [ho] at hnone; cases hnone
  · cases ho.symm.trans ho₁
    exact ⟨k, hk, hP hno⟩

/-- A connection without a bridge is not called. -/
theorem uncalled_of_absent (h : RackRun serde config tr a) (hb : a.bridges c = none) (p : CallId)
    (ce : CallEvent) : .call p c ce ∉ rackHost tr := by
  intro hmem
  cases hn : a.process.host.calls p with
  | none => exact not_called_of_absent (rackHostRun h) hn c ce hmem
  | some n =>
      cases conn_of_mem (rackHostRun h) hn hmem
      obtain ⟨b, hb', -⟩ := (owned_of_run h).call hn
      rw [hb] at hb'; cases hb'

namespace Held

theorem of_new {events : List DriverEvent} (h : RackRun serde config tr a)
    (hb : a.bridges c = none) (hs : RackStep serde a (.upgraded c events) a') :
    Held a' c (.new events) := by
  cases hs with
  | upgraded _ ho hr =>
      obtain ⟨k, hk, hpush, hlock⟩ :=
        not_held_of_uncalled (rackHostRun h) ho (uncalled_of_absent h hb)
      exact ⟨_, k, ho, hk, hr, hpush, hlock⟩

/-- A step that leaves what is held as it is. -/
theorem keep (h : Held a c b) (hw : a.process.server.Wf) (hs : RackStep serde a e a')
    (he : ∀ p ce, e.toHost ≠ some (.call p c ce))
    (hsend : b'.sending a'.process = b.sending a.process)
    (hlock : b'.locker a'.process = b.locker a.process) : Held a' c b' := by
  obtain ⟨o, k, ho, hk, hr, hpush, hl⟩ := h
  have stay : ∀ {o' k'}, a'.process.host.outgoing c = some o' →
      a'.process.server.conns c = some k' → (o.ready = true → o'.ready = true) →
      k'.pushing = k.pushing → o'.lock = o.lock → Held a' c b' :=
    fun ho' hk' hr' hp' hl' => ⟨_, _, ho', hk', hr' hr, hp'.trans (hpush.trans hsend.symm),
      hl'.trans (hl.trans hlock.symm)⟩
  have hhost := hs.toHost
  cases hre : e.toHost with
  | none =>
      rw [hre] at hhost
      exact stay (hhost ▸ ho) (show a'.process.host.server.conns c = some k from hhost ▸ hk) id
        rfl rfl
  | some re =>
      rw [hre] at hhost he
      obtain ⟨o', k', ho', hk', hm⟩ := RubyStep.queueMove hhost hw ho hk
      cases hm with
      | conn hstep hn =>
          exact stay ho' hk' (OutgoingQueue.onConn_kept hn).2 (hstep.pushing_kept hn)
            (OutgoingQueue.onConn_kept hn).1
      | server hne hm => exact stay ho' hk' id (hm.pushing_kept hne) rfl
      | push _ _ | call _ _ => exact absurd rfl (he _ _)
      | other _ _ => exact stay ho' hk' id rfl rfl

theorem own {be : RackBridgeEvent} (h : Held a c b) (hrun : RackRun serde config tr a)
    (hb : a.bridges c = some b) (hs : RackStep serde a (.bridge c be) a')
    (hn : RackBridge.Next a.process b be b') : Held a' c b' := by
  have hw := wf_of_run (rackCoreRun hrun)
  have hown := owned_of_run hrun
  have quiet : ∀ p ce, (RackEvent.bridge c be).toHost ≠ some (.call p c ce) :=
    fun _ _ => RackEvent.toHost_bridge
  -- a thread that stays where it is holds what it held
  have reader : b'.reader = b.reader → b'.sending a'.process = b.sending a.process := by
    intro hr
    unfold RackBridge.sending
    rw [hr]
    cases hp : b.reader.call with
    | none => rfl
    | some p => rw [Option.bind_some, Option.bind_some, hown.pending_same hs hb hp (quiet p)]
  have writer : b'.writer = b.writer → b'.locker a'.process = b.locker a.process := by
    intro hr
    unfold RackBridge.locker
    rw [hr]
    cases hwriter : b.writer with
    | waiting p =>
        obtain ⟨n, hn, rfl, -⟩ := hown.waiting hb hwriter
        simp only [hn, hs.call_same hn fun _ => RackEvent.toHost_bridge]
    | _ => rfl
  -- a reader in no call sends nothing
  have idle : b.reader.call = none → b'.reader.call = none →
      b'.sending a'.process = b.sending a.process := by
    intro hr hr'
    rw [RackBridge.sending, RackBridge.sending, hr, hr']
    rfl
  have done : ∀ {p starting rest}, b.reader = .pushing starting p rest →
      a.process.outcome p ≠ none → b'.reader.call = none →
      b'.sending a'.process = b.sending a.process := by
    intro p starting rest hr ho hr'
    obtain ⟨out, ho⟩ := Option.ne_none_iff_exists'.mp ho
    obtain ⟨n, hn, ho⟩ := Option.bind_eq_some_iff.mp ho
    have hno : n.sending = none := NativeCall.sending_of_outcome (by rw [ho]; simp)
    rw [RackBridge.sending, RackBridge.sending, hr', hr]
    simp only [RackReader.call, Option.bind_some, hn, hno]
    rfl
  have took : ∀ {p}, b.writer = .waiting p → a.process.outcome p ≠ none →
      (∀ q, b'.writer ≠ .waiting q) → b'.locker a'.process = b.locker a.process := by
    intro p hwr ho hno
    obtain ⟨out, ho⟩ := Option.ne_none_iff_exists'.mp ho
    obtain ⟨n, hn, ho⟩ := Option.bind_eq_some_iff.mp ho
    have hfalse : n.receiving = false := NativeCall.receiving_of_outcome (by rw [ho]; simp)
    unfold RackBridge.locker
    simp only [hwr, hn, Option.any_some, hfalse]
    cases hwr' : b'.writer with
    | waiting q => exact absurd hwr' (hno q)
    | _ => rfl
  cases hn with
  | @push _ p text _ hr =>
      refine h.keep hw hs quiet ?_ (writer rfl)
      have hnew : a'.process.host.calls p =
          some { conn := c, method := .pushMessage text, call := .new } :=
        ProcessStep.called_inv hs.toProcess
      simp only [RackBridge.sending, RackReader.call, Option.bind_some, hnew, hr]
      rfl
  | pushed hr ho | pushRaised hr ho =>
      exact h.keep hw hs quiet (done hr (by rw [ho]; simp) rfl) (writer rfl)
  | spawnWriter hr =>
      have hmade := hown.made hb
      unfold RackBridge.Made at hmade
      rw [hr] at hmade
      refine h.keep hw hs quiet (idle (by rw [hr]; rfl) rfl) ?_
      simp only [RackBridge.locker, hmade.2]
  | refused hr | handled hr _ _ | writeRaised hr | spawnCore hr | read hr _ | parsed hr
  | readRaised hr | close hr | joinCore hr _ | coreRaised hr _ | joinWriter hr _
  | writerRaised hr _ | closeIo hr | closeIoRaised hr _ =>
      exact h.keep hw hs quiet (idle (by rw [hr]; rfl) rfl) (writer rfl)
  | run _ => exact h.keep hw hs quiet (reader rfl) (writer rfl)
  | @next p hwr =>
      refine h.keep hw hs quiet (reader rfl) ?_
      have hnew : a'.process.host.calls p =
          some { conn := c, method := .nextOutgoing, call := .new } :=
        ProcessStep.called_inv hs.toProcess
      simp only [RackBridge.locker, hnew, hwr]
      rfl
  | taken hwr ho | finished hwr ho _ | takeRaised hwr ho =>
      exact h.keep hw hs quiet (reader rfl) (took hwr (by rw [ho]; simp) (by simp))
  | handed hwr | handRaised hwr | closeFrame hwr | closeFrameRaised hwr | writerCloseIo hwr
  | writerCloseIoRaised hwr =>
      refine h.keep hw hs quiet (reader rfl) ?_
      simp only [RackBridge.locker, hwr]

/-- A step of the call the reader is in. -/
theorem push_step {ce : CallEvent} (h : Held a c b) (hrun : RackRun serde config tr a)
    (hs : RackStep serde a (.process (.host (.call p c ce))) a')
    (hn : a.process.host.calls p = some n) (hnext : n.next ce = some n')
    (hn' : a'.process.host.calls p = some n') {text : String} (hm : n.method = .pushMessage text)
    (hp : b.reader.call = some p) (hlock : b.locker a'.process = b.locker a.process) :
    Held a' c b := by
  obtain ⟨o, k, ho, hk, hr, hpush, hl⟩ := h
  have hhost : RubyStep serde a.process.host (.call p c ce) a'.process.host := hs.toHost
  have hwork := (callOk_of_run (rackHostRun hrun) hn).work
  obtain ⟨hafter, -⟩ := NativeCall.holds_next hnext
  obtain ⟨hbefore, hrecv⟩ := NativeCall.held_of_next hnext
  have hpush' : k.pushing = n.sending.toList := by
    rw [hpush, RackBridge.sending, hp, Option.bind_some, hn]; rfl
  have hsend' : b.sending a'.process = n'.sending.toList := by
    rw [RackBridge.sending, hp, Option.bind_some, hn']; rfl
  -- it never has the lock
  have hno : n.receiving = false := by
    unfold NativeCall.receiving
    split
    · rename_i permit hphase
      have hof := hwork _ _ hphase
      rw [hm] at hof
      exact hof.elim
    · rfl
  obtain ⟨o', k', ho', hk', hmove⟩ :=
    hhost.queueMove (wf_of_run (rackCoreRun hrun)) ho hk
  cases hmove with
  | @push _ _ e₁ _ he hstep =>
      refine ⟨o, k', ho', hk', hr, ?_, hl.trans hlock.symm⟩
      rw [hsend', hafter]
      cases ce with
      | began m =>
          cases he
          cases hstep with
          | push _ _ => exact congrArg (· ++ [m]) (hpush'.trans (by rw [hbefore]))
      | closed text =>
          cases he
          cases hstep with | pushClosed _ => rw [hpush', hbefore]
      | sent m =>
          cases he
          cases hstep with | sent _ _ _ => rw [hpush', hbefore]; exact List.erase_cons_head ..
      | gone m =>
          cases he
          cases hstep with | gone _ => rw [hpush', hbefore]; exact List.erase_cons_head ..
      | cancelled work =>
          cases work with
          | sending m =>
              cases he
              cases hstep with | gone _ => rw [hpush', hbefore]; exact List.erase_cons_head ..
          | _ => cases he
      | _ => cases he
  | call he hq =>
      have hkept : o'.ready = o.ready := (OutgoingQueue.onCall_inv hq).1
      refine ⟨o', k, ho', hk', hkept.trans hr, ?_, ?_⟩
      · rw [hsend', hafter, hpush', hbefore]
        cases ce with
        | began _ | sent _ | gone _ => cases he
        | cancelled work =>
            cases work with
            | sending _ => cases he
            | _ => rfl
        | _ => rfl
      · rw [hlock, ← hl]
        cases ce with
        | received _ | ended => rw [hno] at hrecv; cases hrecv
        | locked =>
            obtain ⟨-, -, hcall⟩ := NativeCall.next_inv hnext
            obtain ⟨permit, hphase, -⟩ := Gvl.Call.advance_inv hcall
            have hof := hwork _ _ hphase
            rw [hm] at hof
            exact hof.elim
        | cancelled work =>
            cases work with
            | receiving => rw [hno] at hrecv; cases hrecv
            | _ => cases hq; rfl
        | _ => cases hq; rfl
  | other _ hc => exact absurd rfl (hc _ _)

/-- A step of the call the writer is in. -/
theorem next_step {ce : CallEvent} (h : Held a c b) (hrun : RackRun serde config tr a)
    (hs : RackStep serde a (.process (.host (.call p c ce))) a')
    (hn : a.process.host.calls p = some n) (hnext : n.next ce = some n')
    (hn' : a'.process.host.calls p = some n') (hm : n.method = .nextOutgoing)
    (hp : b.writer = .waiting p) (hsend : b.sending a'.process = b.sending a.process) :
    Held a' c b := by
  obtain ⟨o, k, ho, hk, hr, hpush, hl⟩ := h
  have hhost : RubyStep serde a.process.host (.call p c ce) a'.process.host := hs.toHost
  have hwork := (callOk_of_run (rackHostRun hrun) hn).work
  obtain ⟨-, hafter⟩ := NativeCall.holds_next hnext
  obtain ⟨hsending, hbefore⟩ := NativeCall.held_of_next hnext
  have hlock : o.lock = if n.receiving then some p else none := by
    rw [hl, RackBridge.locker, hp]; simp only [hn, Option.any_some]
  have hlock' : b.locker a'.process = if n'.receiving then some p else none := by
    rw [RackBridge.locker, hp]; simp only [hn', Option.any_some]
  -- it never sends
  have hno : n.sending = none := by
    unfold NativeCall.sending
    split
    · rename_i m permit hphase
      have hof := hwork _ _ hphase
      rw [hm] at hof
      exact hof.elim
    · rfl
  obtain ⟨o', k', ho', hk', hmove⟩ :=
    hhost.queueMove (wf_of_run (rackCoreRun hrun)) ho hk
  cases hmove with
  | push he _ =>
      obtain ⟨-, -, hcall⟩ := NativeCall.next_inv hnext
      cases ce with
      | began _ | closed _ =>
          rw [(Option.ite_none_right_eq_some.mp hcall).1] at hm; cases hm
      | sent _ | gone _ => rw [hno] at hsending; cases hsending
      | cancelled work =>
          cases work with
          | sending _ => rw [hno] at hsending; cases hsending
          | _ => cases he
      | _ => cases he
  | call he hq =>
      have hkept : o'.ready = o.ready := (OutgoingQueue.onCall_inv hq).1
      refine ⟨o', k, ho', hk', hkept.trans hr, hpush.trans hsend.symm, ?_⟩
      rw [hlock', hafter]
      cases ce with
      | locked =>
          obtain ⟨-, hq⟩ := Option.ite_none_right_eq_some.mp hq
          cases hq
          rfl
      | received msg =>
          simp only [OutgoingQueue.onCall] at hq
          split at hq
          · obtain ⟨-, hq⟩ := Option.ite_none_right_eq_some.mp hq
            cases hq
            rfl
          · cases hq
      | ended =>
          obtain ⟨-, hq⟩ := Option.ite_none_right_eq_some.mp hq
          cases hq
          rfl
      | cancelled work =>
          cases work with
          | receiving => cases hq; rfl
          | _ => cases hq; rw [hlock, hbefore]
      | interrupt _ => cases hq; exact hlock
      | began _ | closed _ | sent _ | gone _ => cases he
      | enter | settle => cases hq; rw [hlock, hbefore]
  | other _ hc => exact absurd rfl (hc _ _)

theorem other (h : Held a c b) (hrun : RackRun serde config tr a) (hb : a.bridges c = some b)
    (hs : RackStep serde a e a') : Held a' c b := by
  have hown := owned_of_run hrun
  -- a thread in another call holds what it held
  have reader : (∀ p ce, b.reader.call = some p → e.toHost ≠ some (.call p c ce)) →
      b.sending a'.process = b.sending a.process := by
    intro he
    unfold RackBridge.sending
    cases hp : b.reader.call with
    | none => rfl
    | some p => rw [Option.bind_some, Option.bind_some, hown.pending_same hs hb hp (he p · hp)]
  have writer : (∀ p ce, b.writer = .waiting p → e.toHost ≠ some (.call p c ce)) →
      b.locker a'.process = b.locker a.process := by
    intro he
    unfold RackBridge.locker
    cases hwriter : b.writer with
    | waiting p =>
        obtain ⟨n, hn, rfl, -⟩ := hown.waiting hb hwriter
        simp only [hn, hs.call_same hn fun ce => he p ce hwriter]
    | _ => rfl
  by_cases hcall : ∃ p ce, e.toHost = some (.call p c ce)
  · obtain ⟨p, ce, hce⟩ := hcall
    obtain rfl := RackEvent.toHost_call hce
    have hhost : RubyStep serde a.process.host (.call p c ce) a'.process.host := hs.toHost
    obtain ⟨n, n', hn, hconn, hnext, hn'⟩ := hhost.call_inv
    obtain ⟨b₁, hb₁, hcalls⟩ := hown.call hn
    rw [hconn, hb] at hb₁
    cases hb₁
    have hpending := hcalls (NativeCall.outcome_of_next hnext)
    cases hm : n.method with
    | pushMessage text =>
        rw [hm] at hpending
        obtain ⟨starting, rest, hr⟩ := hpending
        refine h.push_step hrun hs hn hnext hn' hm (by rw [hr]; rfl) (writer fun q ce' hq heq => ?_)
        cases heq
        obtain ⟨n₁, hn₁, -, hm₁⟩ := hown.waiting hb hq
        cases hn.symm.trans hn₁
        rw [hm] at hm₁; cases hm₁
    | nextOutgoing =>
        rw [hm] at hpending
        refine h.next_step hrun hs hn hnext hn' hm hpending (reader fun q ce' hq heq => ?_)
        cases heq
        obtain ⟨starting, rest, hr⟩ := RackReader.call_eq_some hq
        obtain ⟨n₁, text, hn₁, -, hm₁⟩ := hown.pushing hb hr
        cases hn.symm.trans hn₁
        rw [hm] at hm₁; cases hm₁
  · exact h.keep (wf_of_run (rackCoreRun hrun)) hs (fun p ce hce => hcall ⟨p, ce, hce⟩)
      (reader fun p ce _ hce => hcall ⟨p, ce, hce⟩)
      (writer fun p ce _ hce => hcall ⟨p, ce, hce⟩)

end Held

/-- **What is held of a connection is held by its bridge**, in every run. -/
theorem held_of_run (h : RackRun serde config tr a) (hb : a.bridges c = some b) : Held a c b :=
  rack_invariant (fun _ a b => Held a c b) (fun hr hno hs => .of_new hr hno hs)
    (fun hr hb ih hs hm => by
      cases hm with
      | own hn => exact ih.own hr hb hs hn
      | other _ => exact ih.other hr hb hs) h hb

end Outpunch
