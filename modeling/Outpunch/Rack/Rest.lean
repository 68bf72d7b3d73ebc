import Outpunch.Rack.Holding

/-!
# Rack — bridges left alone

Bridges are at rest when no task of the core, no native call and no thread of a bridge can go on by
itself; the sockets are outside, and threads are not interrupted.  No thread of a bridge then waits
for another, for a native call or for a lock in vain (`rack_at_rest`): `run` reads its socket or is
over, or is blocked in the socket where the driver writes, or joins a writer that is blocked there,
or pushes, while the driver starts, on a queue that is full before the `run` of the core is called.
What the driver gave was received by the core, and what the core sent was handed to the driver,
unless the connection is shut or a thread is blocked.
-/

namespace Outpunch

variable {serde : SerdeJson} {config : ServerConfig} {tr : List RackEvent} {a a' : Rack}
  {c : ConnId} {p : CallId} {b b' : RackBridge} {e : RackEvent} {n n' : NativeCall}

/-- A step that a task, a native call or a thread of a bridge takes by itself. -/
def RackEvent.own : RackEvent → Bool
  | .process (.host (.server e)) => e.own
  | .process (.host (.call _ _ (.interrupt _))) | .process (.run _ (.interrupt _)) => false
  | .process (.host (.call _ _ _)) | .process (.run _ _) | .process (.runBegan _ _)
  | .process (.runPanicked _) | .process (.runClosed _ _) | .process (.runJoined _) => true
  -- the socket
  | .bridge _ (.read _) | .bridge _ (.readRaised _) | .bridge _ (.written _)
  | .bridge _ (.handed _ _) | .bridge _ (.closeFrame _ _) => false
  | .bridge _ _ => true
  | _ => false

/-- Nothing goes on by itself. -/
abbrev Rack.Rests (serde : SerdeJson) (a : Rack) : Prop :=
  Lts.Rests (RackStep serde) (fun e => e.own) a

/-! ### Numbers for new calls -/

/-- The call an event of a bridge makes. -/
def RackEvent.newCall : RackEvent → CallId
  | .bridge _ (.push p _) | .bridge _ (.next p) | .bridge _ (.run p) => p
  | _ => 0

/-- There is a number left for a call. -/
theorem exists_uncalled (h : RackRun serde config tr a) :
    ∃ p, a.process.host.calls p = none ∧ a.process.runs p = none := by
  suffices hN : ∃ N, ∀ p, N ≤ p → a.process.host.calls p = none ∧ a.process.runs p = none from
    hN.imp fun N hN => hN N (Nat.le_refl N)
  refine h.preserves (P := fun a => ∃ N, ∀ p, N ≤ p →
    a.process.host.calls p = none ∧ a.process.runs p = none) (fun {a e a'} ih hs => ?_)
    ⟨0, fun _ _ => ⟨rfl, rfl⟩⟩
  obtain ⟨N, hN⟩ := ih
  refine ⟨max N (e.newCall + 1), fun p hp => ?_⟩
  obtain ⟨hcall, hrun⟩ := hN p ((le_max_left ..).trans hp)
  have hnew : e.newCall ≠ p := Nat.ne_of_lt ((le_max_right N _).trans hp)
  constructor
  · refine Option.eq_none_iff_forall_ne_some.mpr fun n hn => ?_
    rcases hs.call_inv hn with ⟨be, rfl, -, ⟨text, rfl, -⟩ | ⟨rfl, -⟩⟩ | ⟨n₀, hn₀, -⟩
    · exact hnew rfl
    · exact hnew rfl
    · rw [hcall] at hn₀; cases hn₀
  · refine Option.eq_none_iff_forall_ne_some.mpr fun r hr => ?_
    have hstep := hs.toProcess
    cases he : e.toProcess with
    | none =>
        rw [he] at hstep
        exact Option.some_ne_none r (hr.symm.trans
          ((congrArg (fun x : RubyProcess => x.runs p) hstep).trans hrun))
    | some pe =>
        rw [he] at hstep
        rcases ProcessStep.runMove_inv hstep hr with ⟨c, rfl, -⟩ | ⟨r₀, hr₀, -⟩
        · cases e with
          | process _ => cases he; cases hs with | process hfree _ => cases hfree
          | upgraded _ _ => cases he
          | bridge c' be =>
              cases be with
              | run p' => cases he; exact hnew rfl
              | closeFrame handler _ => cases handler <;> cases he
              | _ => cases he
        · rw [hrun] at hr₀; cases hr₀

/-- A connection whose `run` is over has dropped its callback. -/
theorem drain_ended_of_done {tr : List Event} {w : World} (h : ServerRun serde config tr w)
    {k : Connection} (hk : w.conns c = some k) (hd : k.phase.isDone) : k.drain = .ended := by
  refine conn_invariant (fun _ k => k.phase.isDone → k.drain = .ended) (fun _ hd => by cases hd)
    (fun {tr w k e w' k'} hr hk ih _ hm hd => ?_) h hk hd
  by_cases hold : k.phase.isDone
  · exact hm.drain_ended (drain_idle_iff hr hk) (ih hold)
  · -- `run` returns after the drain task
    cases hm with
    | own hs =>
        have hn := hs.next
        generalize k.phase = q, k'.phase = q' at hn hold hd
        cases hn with
        | stay _ => exact absurd hd hold
        | _ => cases hd
    | runReturned _ hdrain => exact hdrain
    | closed _ | drainEnd _ _ _ | send _ | other _ => exact absurd hd hold
    | _ => cases hd

namespace Rack.Rests

/-! ### The core and the calls -/

/-- Calls take no step but interrupts. -/
theorem no_call (hr : a.Rests serde) {t : CallEvent} {x' : RubyHost}
    (hs : RubyStep serde a.process.host (.call p c t) x') : ∃ i, t = .interrupt i := by
  by_contra ht
  refine hr _ _ (.process rfl (.host rfl hs)) ?_
  cases t with
  | interrupt i => exact absurd ⟨i, rfl⟩ ht
  | _ => rfl

/-- A bridge takes no step but at its socket. -/
theorem no_bridge (hr : a.Rests serde) {t : RackBridgeEvent} {x' : RubyProcess}
    (hb : a.bridges c = some b) (hn : b.next a.process t = some b')
    (hp : a.process.Takes serde x' (t.process c)) : (RackEvent.bridge c t).own = false :=
  Bool.eq_false_iff.mpr (hr _ _ (.bridge hb hn hp))

/-- The core is at rest. -/
theorem server (hr : a.Rests serde) (h : RackRun serde config tr a) :
    a.process.server.Rests serde := by
  intro e w' hs he
  cases e with
  | create _ | request _ _ | cancel _ => cases he
  | conn c ce =>
      obtain ⟨k, k', hk, hstep, -⟩ := hs.conn_inv
      obtain ⟨o, ho, -⟩ := queueOk_of_run (rackHostRun h) hk
      -- all but what calls do are steps at the queue
      have free : ∀ {o'}, o.onConn ce = some o' →
          (RubyEvent.server (.conn c ce)).free = true →
          (ProcessEvent.host (.server (.conn c ce))).free = true → False :=
        fun hn hfree hfree' => hr _ _ (.process hfree' (.host hfree (.conn hs ho hn))) he
      cases ce with
      | onMessage | push _ | pushClosed _ | gone _ | close | run | panic _ => cases he
      | sent m =>
          cases hstep with
          | sent hm hl hc =>
              cases hb : a.bridges c with
              | none =>
                  obtain ⟨k₁, hk₁, hpush, -⟩ :=
                    not_held_of_uncalled (rackHostRun h) ho (uncalled_of_absent h hb)
                  cases hk.symm.trans hk₁
                  rw [hpush] at hm; cases hm
              | some b =>
                  obtain ⟨o₁, k₁, -, hk₁, -, hpush, -⟩ := held_of_run h hb
                  cases hk.symm.trans hk₁
                  rw [hpush, RackBridge.sending, Option.mem_toList] at hm
                  obtain ⟨p, hp, hm⟩ := Option.bind_eq_some_iff.mp hm
                  obtain ⟨n, hn, hm⟩ := Option.bind_eq_some_iff.mp hm
                  obtain ⟨starting, rest, hreader⟩ := RackReader.call_eq_some hp
                  obtain ⟨n₁, text, hn₁, rfl, -⟩ := (owned_of_run h).pushing hb hreader
                  cases hn.symm.trans hn₁
                  obtain ⟨permit, hphase⟩ :
                      ∃ permit, n.call.phase = .inside (.sending m) permit := by
                    unfold NativeCall.sending at hm
                    split at hm
                    · rename_i permit hphase
                      cases hm
                      exact ⟨permit, hphase⟩
                    · cases hm
                  have hnext : n.next (.sent m) = some { n with
                      call := { n.call with phase := .left (some (some .sent)) } } := by
                    simp [NativeCall.next, NativeCall.stepCall, Gvl.Call.finish, hphase]
                  obtain ⟨i, hi⟩ := hr.no_call (.callConn (e := .sent m) hn rfl hk hs
                    (fun _ he => by cases he) hnext)
                  cases hi
      | _ => exact free rfl rfl rfl
  | _ => exact hr _ _ (.process rfl (.host rfl (.server rfl hs))) he

/-- A native call that is not over waits for room, or for a message with the lock. -/
theorem call_waits (hr : a.Rests serde) (h : RackRun serde config tr a)
    (hb : a.bridges c = some b) (hn : a.process.host.calls p = some n) (hc : n.conn = c)
    (ho : n.outcome = none) :
    (∃ m permit k, n.call.phase = .inside (.sending m) permit ∧
      a.process.server.conns c = some k ∧ k.phase.listening ∧
      channelCapacity ≤ k.incoming.length) ∨
    ∃ permit o, n.call.phase = .inside .receiving permit ∧
      a.process.host.outgoing c = some o ∧ o.queue = [] ∧
      a.process.host.callbackGone c = false := by
  subst hc
  obtain ⟨o, k, hout, hk, -, hpush, hlock⟩ := held_of_run h hb
  obtain ⟨b₁, hb₁, hcalls⟩ := (owned_of_run h).call hn
  cases hb.symm.trans hb₁
  have hcall := hcalls ho
  have hwork := (callOk_of_run (rackHostRun h) hn).work
  -- a step of the call that leaves the core alone
  have quiet : ∀ {t}, t.conn = none → (n.next t).isSome →
      (o.onCall p (a.process.host.callbackGone n.conn) t).isSome → (∀ i, t ≠ .interrupt i) →
      False := fun he hnext hq hne => by
    obtain ⟨n', hnext⟩ := Option.isSome_iff_exists.mp hnext
    obtain ⟨o', hq⟩ := Option.isSome_iff_exists.mp hq
    obtain ⟨i, hi⟩ := hr.no_call (.call hn he hout hnext hq)
    exact hne i hi
  -- a step of the call at the core
  have atCore : ∀ {t e k'}, t.conn = some e →
      Connection.Step serde a.process.server.state.config k e k' →
      (∀ m, t = .gone m → k.phase.listening = false) → (n.next t).isSome →
      (∀ i, t ≠ .interrupt i) → False := fun he hs hg hnext hne => by
    obtain ⟨n', hnext⟩ := Option.isSome_iff_exists.mp hnext
    obtain ⟨i, hi⟩ := hr.no_call (.callConn hn he hk (.conn hk hs) hg hnext)
    exact hne i hi
  cases hp : n.call.phase with
  | entering =>
      exact (quiet (t := .enter) rfl (by simp [NativeCall.next, NativeCall.stepCall,
        Gvl.Call.enter, hp]) rfl (by simp)).elim
  | left result =>
      exact (quiet (t := .settle) rfl (by simp [NativeCall.next, NativeCall.stepCall,
        Gvl.Call.settle, hp]) rfl (by simp)).elim
  | returned _ | raised _ => rw [NativeCall.outcome, hp] at ho; cases ho
  | inside work permit =>
      have hof := hwork _ _ hp
      cases work with
      | polling =>
          cases hm : n.method with
          | nextOutgoing => rw [hm] at hof; exact hof.elim
          | pushMessage text =>
              cases htx : k.incomingTx with
              | true =>
                  exact (atCore (t := .began { n := k.pushed, text }) rfl (.push rfl htx)
                    (by simp) (by simp [NativeCall.next, NativeCall.stepCall, Gvl.Call.advance,
                      hp, hm]) (by simp)).elim
              | false =>
                  exact (atCore (t := .closed text) rfl (.pushClosed htx) (by simp)
                    (by simp [NativeCall.next, NativeCall.stepCall, Gvl.Call.finish, hp, hm])
                    (by simp)).elim
      | sending m =>
          cases hm : n.method with
          | nextOutgoing => rw [hm] at hof; exact hof.elim
          | pushMessage text =>
              rw [hm] at hcall
              obtain ⟨starting, rest, hreader⟩ := hcall
              have hmem : m ∈ k.pushing := by
                simp [hpush, RackBridge.sending, hreader, RackReader.call, hn, NativeCall.sending,
                  hp]
              cases hl : k.phase.listening with
              | false =>
                  exact (atCore (t := .gone m) rfl (.gone hmem) (fun _ _ => hl)
                    (by simp [NativeCall.next, NativeCall.stepCall, Gvl.Call.finish, hp])
                    (by simp)).elim
              | true =>
                  by_cases hroom : k.incoming.length < channelCapacity
                  · exact (atCore (t := .sent m) rfl (.sent hmem hl hroom) (by simp)
                      (by simp [NativeCall.next, NativeCall.stepCall, Gvl.Call.finish, hp])
                      (by simp)).elim
                  · exact .inl ⟨m, permit, k, rfl, hk, hl, Nat.le_of_not_lt hroom⟩
      | locking =>
          cases hm : n.method with
          | pushMessage text => rw [hm] at hof; exact hof.elim
          | nextOutgoing =>
              rw [hm] at hcall
              have hwriter : b.writer = .waiting p := hcall
              have hfree : o.lock = none := by
                simp [hlock, RackBridge.locker, hwriter, hn, NativeCall.receiving, hp]
              exact (quiet (t := .locked) rfl (by simp [NativeCall.next, NativeCall.stepCall,
                Gvl.Call.advance, hp]) (by simp [OutgoingQueue.onCall, hfree]) (by simp)).elim
      | receiving =>
          refine .inr ⟨permit, o, rfl, hout, ?_⟩
          cases hq : o.queue with
          | cons msg rest =>
              exact (quiet (t := .received msg) rfl (by simp [NativeCall.next,
                NativeCall.stepCall, Gvl.Call.finish, hp]) (by simp [OutgoingQueue.onCall, hq])
                (by simp)).elim
          | nil =>
              refine ⟨rfl, Bool.eq_false_iff.mpr fun hgone => ?_⟩
              exact quiet (t := .ended) rfl (by simp [NativeCall.next, NativeCall.stepCall,
                Gvl.Call.finish, hp]) (by simp [OutgoingQueue.onCall, hq, hgone]) (by simp)

/-! ### The thread of `run` -/

/-- What is no call of a native connection is not there. -/
theorem no_process (hr : a.Rests serde) {pe : ProcessEvent} {x' : RubyProcess}
    (hs : ProcessStep serde a.process pe x') (hfree : pe.free = true) :
    (RackEvent.process pe).own = false :=
  Bool.eq_false_iff.mpr (hr _ _ (.process hfree hs))

/-- A task has begun. -/
theorem not_spawned (hr : a.Rests serde) (h : RackRun serde config tr a) {r : RunCall}
    (hp : a.process.runs p = some r) : r.task ≠ .spawned := by
  intro ht
  obtain ⟨b, hb, -⟩ := (owned_of_run h).run hp
  obtain ⟨o, k, ho, hk, hready, -⟩ := held_of_run h hb
  cases hphase : k.phase with
  | created =>
      have hs : ProcessStep serde a.process (.runBegan p r.conn) _ :=
        .runBegan hp ht (.conn (.conn hk (.run hphase)) ho (if_pos hready))
      cases hr.no_process hs rfl
  | _ =>
      have hs : ProcessStep serde a.process (.runPanicked p) _ :=
        .runPanicked hp ht hk (by rw [hphase]; simp)
      cases hr.no_process hs rfl

/-- The `run` of the core is called, once its thread is made. -/
theorem core_begun (hr : a.Rests serde) (h : RackRun serde config tr a)
    (hb : a.bridges c = some b) (hcore : b.core ≠ .absent) : ∃ p r k, b.core = .running p ∧
      a.process.runs p = some r ∧ r.conn = c ∧ r.task = .running ∧
      a.process.server.conns c = some k ∧ k.phase ≠ .created := by
  cases hc : b.core with
  | absent => exact absurd hc hcore
  | spawned =>
      obtain ⟨p, -, hp⟩ := exists_uncalled h
      obtain ⟨o, k, ho, -, hready, -⟩ := held_of_run h hb
      cases hr.no_bridge (t := .run p) hb (if_pos hc) (.runCalled hp ho hready)
  | running p =>
      obtain ⟨r, hp, rfl⟩ := (owned_of_run h).running hb hc
      have htask : r.task = .running := by
        cases ht : r.task with
        | spawned => exact absurd ht (hr.not_spawned h hp)
        | running => rfl
        | panicked => exact absurd ht (not_panicked h hp)
      obtain ⟨k, hk, hcreated, -⟩ := ((runsOk_of_run (rackProcessRun h)).call hp).conn
      exact ⟨p, r, k, rfl, hp, rfl, htask, hk, hcreated (by rw [htask]; simp)⟩

/-- The `run` of the core is over, once its connection is closed. -/
theorem core_over (hr : a.Rests serde) (h : RackRun serde config tr a) {k : Connection}
    (hk : a.process.server.conns c = some k) (hclosed : k.incomingTx = false)
    (hcreated : k.phase ≠ .created) : k.phase.isDone := by
  cases ((hr.server h).atRest (rackCoreRun h)).conn hk with
  | created hp => exact absurd hp hcreated
  | done hp => rw [hp]; rfl
  | waiting _ hopen _ _ _ => rw [hclosed] at hopen; cases hopen

/-- The thread of `run` is over, once `close` was called. -/
theorem core_joined (hr : a.Rests serde) (h : RackRun serde config tr a)
    (hb : a.bridges c = some b) (hc : b.reader.closed) : b.core.result a.process ≠ none := by
  by_cases hcore : b.core = .absent
  · rw [hcore]
    exact Option.some_ne_none _
  · obtain ⟨p, r, k, hrunning, hp, rfl, htask, hk, hcreated⟩ := hr.core_begun h hb hcore
    obtain ⟨k₁, hk₁, hclosed⟩ := (endOk_of_run h hb).closed hc
    cases hk.symm.trans hk₁
    obtain ⟨o, k₂, ho, hk₂, hready, -⟩ := held_of_run h hb
    have hjoined : r.joined a.process.server = some (.ok ()) := by
      simp [RunCall.joined, htask, hk, hr.core_over h hk hclosed hcreated]
    have hstage := ((runsOk_of_run (rackProcessRun h)).call hp).stage
    -- a step of the wait
    have wait : ∀ {t r'}, r.next a.process.server t = some r' → (∀ i, t ≠ .interrupt i) →
        False := fun {t r'} hn hne => by
      have howned := hr.no_process (.run hp hn) rfl
      cases t with
      | interrupt i => exact hne i rfl
      | _ => cases howned
    rw [hrunning]
    intro hnone
    have hthread : r.stage.thread = none := by
      simpa [RackCore.result, hp] using hnone
    cases hs : r.stage with
    | waiting w =>
        rw [hs] at hstage
        obtain ⟨-, hwaited, -⟩ := hstage
        cases hphase : w.phase with
        | entering =>
            exact wait (t := .enter) (by
              simp only [RunCall.next, hs, WaitFor.step, Gvl.Call.enter, hphase]; rfl) (by simp)
        | inside _ permit =>
            exact wait (t := .joined) (by
              simp only [RunCall.next, hs, WaitFor.step, hjoined, Option.bind_some,
                Gvl.Call.finish, hphase]; rfl) (by simp)
        | left result =>
            exact wait (t := .settle) (by
              simp only [RunCall.next, hs, WaitFor.step, Gvl.Call.settle, hphase]; rfl) (by simp)
        | returned _ | raised _ => simp [WaitFor.waited, hphase] at hwaited
    | closing err =>
        have hstep : ProcessStep serde a.process (.runClosed p r.conn) _ :=
          .runClosed hp hs (.conn (.conn hk .close) ho (if_pos hready))
        cases hr.no_process hstep rfl
    | joining err =>
        have hstep : ProcessStep serde a.process (.runJoined p) _ :=
          .runJoined hp hs (by rw [hjoined]; rfl)
        cases hr.no_process hstep rfl
    | ended result => rw [hs] at hthread; rcases result with (_ | _) | _ <;> cases hthread
    | unwound => rw [hs] at hthread; cases hthread

/-! ### The threads that read and write -/

/-- The bridge alone. -/
theorem no_step (hr : a.Rests serde) (hb : a.bridges c = some b) {t : RackBridgeEvent}
    (hn : (b.next a.process t).isSome) (hp : t.process c = none) :
    (RackEvent.bridge c t).own = false := by
  obtain ⟨b', hn⟩ := Option.isSome_iff_exists.mp hn
  have hstay : a.process.Takes serde a.process (t.process c) := by rw [hp]; rfl
  exact hr.no_bridge hb hn hstay

/-- The bridge calls `close`. -/
theorem no_close (hr : a.Rests serde) (h : RackRun serde config tr a) (hb : a.bridges c = some b)
    {t : RackBridgeEvent} (hn : (b.next a.process t).isSome)
    (he : t.process c = some (.host (.server (.conn c .close)))) :
    (RackEvent.bridge c t).own = false := by
  obtain ⟨b', hn⟩ := Option.isSome_iff_exists.mp hn
  obtain ⟨o, k, ho, hk, hready, -⟩ := held_of_run h hb
  have hs : a.process.Takes serde _ (some (.host (.server (.conn c .close)))) :=
    ProcessStep.host rfl (.conn (.conn hk .close) ho (if_pos hready))
  exact hr.no_bridge hb hn (he.symm ▸ hs)

/-- The writer is not there or over, or blocked in the socket, or waits for a message of a core
connection that is not over and has sent nothing that was not handed to the driver. -/
theorem writer_rests (hr : a.Rests serde) (h : RackRun serde config tr a)
    (hb : a.bridges c = some b) : b.writer = .absent ∨ (∃ result, b.writer = .ended result) ∨
      (∃ msg, b.writer = .writing msg) ∨ b.writer = .closing ∨
      ∃ p k, b.writer = .waiting p ∧ toDriver c tr = enqueued c (rackCore tr) ∧
        a.process.server.conns c = some k ∧ ¬ k.phase.isDone := by
  have hown := owned_of_run h
  cases hw : b.writer with
  | absent => exact .inl rfl
  | ended result => exact .inr (.inl ⟨result, rfl⟩)
  | writing msg => exact .inr (.inr (.inl ⟨msg, rfl⟩))
  | closing => exact .inr (.inr (.inr (.inl rfl)))
  | closingIo =>
      cases hr.no_step (t := .writerCloseIo none) hb (by simp [RackBridge.next, hw]) rfl
  | taking =>
      obtain ⟨p, hp, -⟩ := exists_uncalled h
      obtain ⟨o, k, ho, -, hready, -⟩ := held_of_run h hb
      have hs : ProcessStep serde a.process (.host (.called p c .nextOutgoing)) _ :=
        .host rfl (.called hp ho hready)
      cases hr.no_bridge (t := .next p) hb (if_pos hw) hs
  | waiting p =>
      obtain ⟨n, hn, hconn, hm⟩ := hown.waiting hb hw
      have hout : n.outcome = none := by
        refine Option.eq_none_iff_forall_ne_some.mpr fun out hout => ?_
        have hp : a.process.outcome p = some out := Option.bind_eq_some_iff.mpr ⟨n, hn, hout⟩
        have hstep : (b.next a.process .taken).isSome := by
          simp only [RackBridge.next, hw, hp]
          rcases out with err | (- | (- | msg)) <;> rfl
        cases hr.no_step hb hstep rfl
      rcases hr.call_waits h hb hn hconn hout with ⟨m, permit, -, hphase, -⟩ |
        ⟨permit, o, hphase, ho, hqueue, hgone⟩
      · have hof := (callOk_of_run (rackHostRun h) hn).work _ _ hphase
        rw [hm] at hof
        exact hof.elim
      · have hcore : b.core ≠ .absent := by
          have hmade := hown.made hb
          unfold RackBridge.Made at hmade
          intro hcore
          split at hmade
          · rw [hw] at hmade; cases hmade.2
          · rw [hw] at hmade; cases hmade.2
          · exact hmade.1 hcore
          · exact hmade.1 hcore
          · exact hmade.1 hcore
          · exact hmade.1 hcore
          · rw [hw] at hmade; cases hmade.mp hcore
        obtain ⟨-, -, k, -, -, -, -, hk, hcreated⟩ := hr.core_begun h hb hcore
        have hdone : ¬ k.phase.isDone := fun hd => by
          rw [RubyHost.callbackGone, show a.process.host.server.conns c = some k from hk] at hgone
          simp [drain_ended_of_done (rackCoreRun h) hk hd] at hgone
        refine .inr (.inr (.inr (.inr ⟨p, k, rfl, ?_, hk, hdone⟩)))
        have htook : n.took = none := by
          rw [NativeCall.took, hphase]; rfl
        rw [enqueued_eq_toDriver h hb]
        simp [RackBridge.inHand, hw, hn, htook, waiting, ho, hqueue,
          show a.process.host.server.conns c = some k from hk,
          (hr.server h).outgoing (rackCoreRun h) hk hcreated]

/-- A reader in a call waits for room that nobody makes: the driver is starting. -/
theorem pushing_rests (hr : a.Rests serde) (h : RackRun serde config tr a)
    (hb : a.bridges c = some b) {starting : Bool} {rest : List DriverEvent}
    (hreader : b.reader = .pushing starting p rest) : starting = true ∧ b.core = .absent ∧
      ∃ k, a.process.server.conns c = some k ∧ k.phase = .created ∧
        channelCapacity ≤ k.incoming.length := by
  have hown := owned_of_run h
  obtain ⟨n, text, hn, hconn, hm⟩ := hown.pushing hb hreader
  have hout : n.outcome = none := by
    refine Option.eq_none_iff_forall_ne_some.mpr fun out hout => ?_
    have hp : a.process.outcome p = some out := Option.bind_eq_some_iff.mpr ⟨n, hn, hout⟩
    have hstep : (b.next a.process .pushed).isSome := by
      simp only [RackBridge.next, hreader, hp]
      rcases out with err | value <;> rfl
    cases hr.no_step hb hstep rfl
  rcases hr.call_waits h hb hn hconn hout with ⟨m, permit, k, -, hk, hl, hfull⟩ |
    ⟨permit, o, hphase, -⟩
  · have hcreated : k.phase = .created := by
      cases ((hr.server h).atRest (rackCoreRun h)).conn hk with
      | created hp => exact hp
      | done hp => rw [hp] at hl; cases hl
      | waiting _ _ hin _ _ => rw [hin] at hfull; cases hfull
    have hcore : b.core = .absent := by
      by_contra hcore
      obtain ⟨-, -, k₁, -, -, -, -, hk₁, hne⟩ := hr.core_begun h hb hcore
      cases hk.symm.trans hk₁
      exact hne hcreated
    refine ⟨?_, hcore, k, hk, hcreated, hfull⟩
    have hmade := hown.made hb
    unfold RackBridge.Made at hmade
    rw [hreader] at hmade
    cases starting with
    | true => rfl
    | false => exact absurd hcore hmade.1
  · have hof := (callOk_of_run (rackHostRun h) hn).work _ _ hphase
    rw [hm] at hof
    exact hof.elim

/-- The driver calls its handlers, until it writes. -/
theorem driver_rests (hr : a.Rests serde) (h : RackRun serde config tr a)
    (hb : a.bridges c = some b) {starting : Bool} {events : List DriverEvent}
    (hreader : b.reader = .driver starting events) : ∃ rest, events = .write :: rest := by
  cases events with
  | nil =>
      cases starting with
      | true => cases hr.no_step (t := .spawnCore) hb (by simp [RackBridge.next, hreader]) rfl
      | false => cases hr.no_step (t := .parsed) hb (by simp [RackBridge.next, hreader]) rfl
  | cons d rest =>
      cases d with
      | text t =>
          obtain ⟨p, hp, -⟩ := exists_uncalled h
          obtain ⟨o, k, ho, -, hready, -⟩ := held_of_run h hb
          have hs : ProcessStep serde a.process (.host (.called p c (.pushMessage t))) _ :=
            .host rfl (.called hp ho hready)
          obtain ⟨b', hb'⟩ : ∃ b', b.next a.process (.push p t) = some b' := by
            simp only [RackBridge.next, hreader, if_pos]
            exact ⟨_, rfl⟩
          cases hr.no_bridge hb hb' hs
      | binary => cases hr.no_step (t := .refused) hb (by simp [RackBridge.next, hreader]) rfl
      | error msg =>
          cases hr.no_step (t := .errorHandler) hb (by simp [RackBridge.next, hreader]) rfl
      | close =>
          cases hr.no_close (t := .closeHandler) h hb (by simp [RackBridge.next, hreader]) rfl
      | write => exact ⟨rest, rfl⟩

end Rack.Rests

/-! ### What is left -/

/-- Where the `run` of a bridge stands when nothing goes on by itself. -/
inductive RackBridge.ReaderRests (a : Rack) (c : ConnId) (b : RackBridge) : Prop where
  | reading (hr : b.reader = .reading)
  | ended {err : Option RackError} (hr : b.reader = .ended err)
  /-- It is blocked in the socket, where the driver writes. -/
  | driving {starting : Bool} {rest : List DriverEvent}
      (hr : b.reader = .driver starting (.write :: rest))
  /-- Its writer is blocked in the socket. -/
  | writing {err : Option RackError} (hr : b.reader = .joiningWriter err)
      (hw : (∃ msg, b.writer = .writing msg) ∨ b.writer = .closing)
  /-- The driver gave more as it started than the queue holds, and nobody takes it out. -/
  | starting {p : CallId} {rest : List DriverEvent} {k : Connection}
      (hr : b.reader = .pushing true p rest) (hc : b.core = .absent)
      (hk : a.process.server.conns c = some k) (hp : k.phase = .created)
      (hfull : channelCapacity ≤ k.incoming.length)

/-- A bridge when nothing goes on by itself. -/
structure RackBridge.AtRest (c : ConnId) (tr : List RackEvent) (a : Rack) (b : RackBridge) :
    Prop where
  reader : b.ReaderRests a c
  /-- What the driver gave was received, but for what `run` still has to push, unless the connection
  is shut. -/
  received : ∀ {k events}, b.core ≠ .absent → b.reader.events = some events →
    a.process.server.conns c = some k → ¬ k.Shut →
    (received c (rackCore tr)).map Pushed.text ++ payloads events = given c tr
  /-- What the core sent was handed to the driver, unless the writer is blocked in the socket or has
  raised. -/
  handed : b.writer ≠ .absent → (∀ msg, b.writer ≠ .writing msg) →
    (∀ err, b.writer ≠ .ended (.error err)) → toDriver c tr = enqueued c (rackCore tr)

theorem readerRests_of_rests (hr : a.Rests serde) (h : RackRun serde config tr a)
    (hb : a.bridges c = some b) : b.ReaderRests a c := by
  cases hreader : b.reader with
  | driver starting events =>
      obtain ⟨rest, rfl⟩ := hr.driver_rests h hb hreader
      exact .driving hreader
  | pushing starting p rest =>
      obtain ⟨rfl, hc, k, hk, hp, hfull⟩ := hr.pushing_rests h hb hreader
      exact .starting hreader hc hk hp hfull
  | spawning => cases hr.no_step (t := .spawnWriter) hb (by simp [RackBridge.next, hreader]) rfl
  | reading => exact .reading hreader
  | closing err =>
      cases hr.no_close (t := .close) h hb (by simp [RackBridge.next, hreader]) rfl
  | joiningCore err =>
      obtain ⟨out, hout⟩ :=
        Option.ne_none_iff_exists'.mp (hr.core_joined h hb (by rw [hreader]; rfl))
      have hn : (b.next a.process .joinCore).isSome := by
        simp only [RackBridge.next, hreader, hout]
        rcases out with e | u <;> rfl
      cases hr.no_step hb hn rfl
  | joiningWriter err =>
      refine .writing hreader ?_
      rcases hr.writer_rests h hb with hw | ⟨result, hw⟩ | hw | hw | ⟨p, k, hw, -, hk, hdone⟩
      · have hn : (b.next a.process .joinWriter).isSome := by
          simp only [RackBridge.next, hreader, hw]
          rfl
        cases hr.no_step hb hn rfl
      · have hn : (b.next a.process .joinWriter).isSome := by
          simp only [RackBridge.next, hreader, hw]
          rcases result with e | u <;> rfl
        cases hr.no_step hb hn rfl
      · exact .inl hw
      · exact .inr hw
      · -- the connection is closed, so its `run` is over
        obtain ⟨k₁, hk₁, hclosed⟩ := (endOk_of_run h hb).closed (by rw [hreader]; rfl)
        cases hk.symm.trans hk₁
        have hcore : b.core ≠ .absent := by
          have hmade := (owned_of_run h).made hb
          unfold RackBridge.Made at hmade
          rw [hreader, hw] at hmade
          intro hcore
          cases hmade.mp hcore
        obtain ⟨-, -, k₂, -, -, -, -, hk₂, hcreated⟩ := hr.core_begun h hb hcore
        cases hk.symm.trans hk₂
        exact absurd (hr.core_over h hk hclosed hcreated) hdone
  | closingIo err =>
      cases hr.no_step (t := .closeIo none) hb (by simp [RackBridge.next, hreader]) rfl
  | ended err => exact .ended hreader

/-- **No thread of a bridge is stuck on another**, nor on a native call or a lock. -/
theorem rack_at_rest (h : RackRun serde config tr a) (hr : a.Rests serde)
    (hb : a.bridges c = some b) : b.AtRest c tr a where
  reader := readerRests_of_rests hr h hb
  received {k events} hcore hevents hk hopen := by
    have hrun := rackCoreRun h
    -- the core has taken all that has arrived
    obtain ⟨-, -, k₁, -, -, -, -, hk₁, hcreated⟩ := hr.core_begun h hb hcore
    cases hk.symm.trans hk₁
    have hin : k.incoming = [] := by
      cases ((hr.server h).atRest hrun).conn hk with
      | created hp => exact absurd hp hcreated
      | done hp => exact absurd (Connection.shut_iff.mpr (.inr (by rw [hp]; rfl))) hopen
      | waiting _ _ hin _ _ => exact hin
    have harrived := arrived_eq hrun hk
    rw [hin, List.append_nil] at harrived
    have hhand : b.reader.inHand a.process = [] := by
      cases hreader : b.reader with
      | pushing starting p rest => exact absurd (hr.pushing_rests h hb hreader).2.1 hcore
      | _ => rfl
    rw [← harrived, given_eq_arrived h hb hk hopen hevents, hhand, List.append_nil]
  handed habsent hwriting herr := by
    rcases hr.writer_rests h hb with hw | ⟨result, hw⟩ | ⟨msg, hw⟩ | hw | ⟨p, k, hw, hall, -⟩
    · exact absurd hw habsent
    · rcases result with err | u
      · exact absurd hw (herr err)
      · exact toDriver_of_finished h hb (by rw [hw]; rfl)
    · exact absurd hw (hwriting msg)
    · exact toDriver_of_finished h hb (by rw [hw]; rfl)
    · exact hall

/-! ### A client that waits -/

/-- What everything waits for after `rackOpening`. -/
structure WaitsAlone (a : Rack) : Prop where
  bridge : ∃ b, a.bridges 1 = some b ∧ b.reader = .reading ∧ b.core = .running 1 ∧
    b.writer = .waiting 4
  conn : ∃ k s, a.process.server.conns 1 = some k ∧ k.phase = .relay s ∧ k.incoming = [] ∧
    k.pushing = [] ∧ k.outgoing = [] ∧ k.incomingTx = true ∧ k.drain = .running true
  done : ∀ p, p = 2 ∨ p = 3 → ∃ n, a.process.host.calls p = some n ∧ n.outcome ≠ none
  next : ∃ n, a.process.host.calls 4 = some n ∧ n.call.phase = .inside .receiving false
  queue : ∃ o, a.process.host.outgoing 1 = some o ∧ o.queue = []
  run : ∃ r w, a.process.runs 1 = some r ∧ r.conn = 1 ∧ r.task = .running ∧
    r.stage = .waiting w ∧ w.phase = .inside () false

/-- The test for it. -/
def waitsAlone (a : Rack) : Bool :=
  (a.bridges 1).any (fun b =>
    decide (b.reader = .reading ∧ b.core = .running 1 ∧ b.writer = .waiting 4)) &&
  (a.process.server.conns 1).any (fun k =>
    (match k.phase, k.drain with
      | .relay _, .running true => true
      | _, _ => false) &&
    decide (k.incoming = [] ∧ k.pushing = [] ∧ k.outgoing = [] ∧ k.incomingTx = true)) &&
  ((a.process.host.calls 2).any fun n => n.outcome.isSome) &&
  ((a.process.host.calls 3).any fun n => n.outcome.isSome) &&
  ((a.process.host.calls 4).any fun n => n.call.phase = .inside .receiving false) &&
  ((a.process.host.outgoing 1).any fun o => o.queue = []) &&
  ((a.process.runs 1).any fun r =>
    decide (r.conn = 1 ∧ r.task = .running) && match r.stage with
      | .waiting w => decide (w.phase = .inside () false)
      | _ => false)

theorem waitsAlone_of_test (h : waitsAlone a) : WaitsAlone a := by
  simp only [waitsAlone, Bool.and_eq_true, Option.any_eq_true, decide_eq_true_eq] at h
  obtain ⟨⟨⟨⟨⟨⟨⟨b, hb, hbridge⟩, ⟨k, hk, hphase, hqueues⟩⟩, h2⟩, h3⟩, hnext⟩, hqueue⟩,
    ⟨r, hr, ⟨hconn, htask⟩, hstage⟩⟩ := h
  refine ⟨⟨b, hb, hbridge⟩, ?_, fun p hp => ?_, hnext, hqueue, ?_⟩
  · split at hphase
    · rename_i s hp hd
      exact ⟨k, s, hk, hp, hqueues.1, hqueues.2.1, hqueues.2.2.1, hqueues.2.2.2, hd⟩
    · cases hphase
  · rcases hp with rfl | rfl
    · exact h2.imp fun n hn => ⟨hn.1, Option.isSome_iff_ne_none.mp hn.2⟩
    · exact h3.imp fun n hn => ⟨hn.1, Option.isSome_iff_ne_none.mp hn.2⟩
  · split at hstage
    · rename_i w hs
      exact ⟨r, w, hr, hconn, htask, hs, of_decide_eq_true hstage⟩
    · cases hstage

/-- A connection that is there was made. -/
theorem created_of_conn {tr : List Event} {w : World} (h : ServerRun serde config tr w)
    {k : Connection} (hk : w.conns c = some k) : .create c ∈ tr :=
  conn_invariant (fun tr _ => .create c ∈ tr) (fun _ => List.mem_concat_self)
    (fun _ _ ih _ _ => List.mem_append_left _ ih) h hk

namespace WaitsAlone

/-- No task of the core goes on, where there is one connection and no dispatch. -/
theorem server (hw : WaitsAlone a)
    (hconn : ∀ c k, a.process.server.conns c = some k → c = 1)
    (hdispatch : ∀ q, a.process.server.dispatches q = none) :
    a.process.server.Rests serde := by
  obtain ⟨k, s, hk, hphase, hin, hpush, hout, htx, hdrain⟩ := hw.conn
  have conn : ∀ {c k₁}, a.process.server.conns c = some k₁ → k₁ = k := fun hk₁ => by
    obtain rfl := hconn _ _ hk₁
    exact Option.some.inj (hk₁.symm.trans hk)
  have phase : ∀ {c k₁}, a.process.server.conns c = some k₁ → k₁.phase = .relay s :=
    fun hk₁ => (congrArg Connection.phase (conn hk₁)).trans hphase
  intro e w' hs he
  cases hs with
  | create | request _ | cancel _ _ => cases he
  | conn hk₁ hs =>
      obtain rfl := conn hk₁
      cases hs with
      | onMessage | push _ _ | pushClosed _ | gone _ | close | run _ | panic _ _ => cases he
      | sent hm _ _ => rw [hpush] at hm; cases hm
      | deliver _ ho | discard _ ho => rw [hout] at ho; cases ho
      | relayRecv _ hi => rw [hin] at hi; cases hi
      | relayClosed _ hend => cases htx.symm.trans hend.2.2
      | authTimeout hp | authRecv hp _ | authClosed hp _ | check hp | reply hp _ | replyLost hp _
      | upgrade hp | dropOutgoing hp => rw [hphase] at hp; cases hp
  | register hk₁ hp | closeReplaced hk₁ hp | respond hk₁ hp | cleanup hk₁ hp
  | runReturned hk₁ hp _ => rw [phase hk₁] at hp; cases hp
  | drainEnd hk₁ _ _ hh => exact hh .run ⟨_, hk₁, by rw [phase hk₁]; rfl⟩
  | notConnected hq _ _ | assign hq _ _ | send hq _ _ _ | connectionLost hq _ _ _
  | answered hq _ _ | disconnected hq _ _ _ | timeout hq _ | failed hq _ =>
      rw [hdispatch] at hq; cases hq

/-- No native call goes on, where these three were made. -/
theorem calls (hw : WaitsAlone a) (h : RackRun serde config tr a)
    (hcalled : ∀ q n, a.process.host.calls q = some n → q = 2 ∨ q = 3 ∨ q = 4) {ce : CallEvent}
    {x' : RubyHost} (hs : RubyStep serde a.process.host (.call p c ce) x') :
    ∃ i, ce = .interrupt i := by
  obtain ⟨n, n', hn, -, hnext, -⟩ := hs.call_inv
  have hdone : ¬ (p = 2 ∨ p = 3) := fun hp => by
    obtain ⟨n₁, hn₁, hout⟩ := hw.done p hp
    cases hn.symm.trans hn₁
    exact hout (NativeCall.outcome_of_next hnext)
  obtain rfl : p = 4 := by
    rcases hcalled p n hn with hp | hp | hp
    · exact absurd (.inl hp) hdone
    · exact absurd (.inr hp) hdone
    · exact hp
  obtain ⟨n₁, hn₁, hphase⟩ := hw.next
  cases hn.symm.trans hn₁
  obtain ⟨b, hb, -, -, hwriter⟩ := hw.bridge
  obtain ⟨n₂, hn₂, hconn, -⟩ := (owned_of_run h).waiting hb hwriter
  cases hn.symm.trans hn₂
  obtain ⟨o, ho, hqueue⟩ := hw.queue
  obtain ⟨k, s, hk, -, -, -, -, -, hdrain⟩ := hw.conn
  have hgone : a.process.host.callbackGone 1 = false := by
    rw [RubyHost.callbackGone, show a.process.host.server.conns 1 = some k from hk]
    simp [hdrain]
  cases ce with
  | interrupt i => exact ⟨i, rfl⟩
  | received _ | ended =>
      cases hs with
      | callConn _ he _ _ _ _ => cases he
      | call hb₁ _ ho₁ _ hq =>
          cases hn.symm.trans hb₁
          rw [hconn] at ho₁ hq
          cases ho.symm.trans ho₁
          simp [OutgoingQueue.onCall, hqueue, hgone] at hq
  | cancelled work =>
      obtain ⟨-, -, hcall⟩ := NativeCall.next_inv hnext
      simp only [NativeCall.stepCall] at hcall
      split at hcall
      · cases hcall
      · rw [(Gvl.Call.cancel_inv hcall).1] at hphase; cases hphase
  | _ => simp [NativeCall.next, NativeCall.stepCall, Gvl.Call.enter, Gvl.Call.advance,
      Gvl.Call.finish, Gvl.Call.settle, hphase] at hnext

/-- The thread of `run` waits. -/
theorem runs (hw : WaitsAlone a) (h : RackRun serde config tr a)
    (hconn : ∀ c k, a.process.server.conns c = some k → c = 1) {pe : ProcessEvent}
    {r : RunCall} (hr : a.process.runs p = some r) {r' : RunCall}
    (hm : RunCall.Move a.process.server p r pe r') (he : pe.ofRun = some p) :
    ∃ i, pe = .run p (.interrupt i) := by
  obtain ⟨b, hb, -, hcore, -⟩ := hw.bridge
  obtain ⟨b₁, hb₁, hcore₁⟩ := (owned_of_run h).run hr
  obtain ⟨o, k₁, -, hk₁, -⟩ := held_of_run h hb₁
  rw [hconn _ _ hk₁] at hb₁
  cases hb.symm.trans hb₁
  obtain rfl : p = 1 := RackCore.running.inj (hcore₁.symm.trans hcore)
  obtain ⟨r₁, w, hr₁, hc, ht, hs, hphase⟩ := hw.run
  cases hr.symm.trans hr₁
  obtain ⟨k, s, hk, hp, -⟩ := hw.conn
  have hjoined : r.joined a.process.server = none := by
    simp [RunCall.joined, ht, hc, hk, hp, Phase.isDone]
  cases hm with
  | began ht₁ | panicked ht₁ _ _ => rw [ht] at ht₁; cases ht₁
  | closed hs₁ | joined hs₁ _ => rw [hs] at hs₁; cases hs₁
  | other hno => exact absurd he hno
  | @wait we _ hn =>
      cases we with
      | interrupt i => exact ⟨i, rfl⟩
      | _ =>
          simp [RunCall.next, hs, WaitFor.step, Gvl.Call.enter, hjoined, Gvl.Call.cancel,
            Gvl.Call.settle, hphase] at hn

/-- The threads of the bridge wait. -/
theorem bridges (hw : WaitsAlone a)
    (hconn : ∀ c b, a.bridges c = some b → c = 1) {be : RackBridgeEvent}
    (hb : a.bridges c = some b) (hn : RackBridge.Next a.process b be b') :
    (RackEvent.bridge c be).own = false := by
  obtain rfl := hconn _ _ hb
  obtain ⟨b₁, hb₁, hreader, hcore, hwriter⟩ := hw.bridge
  cases hb.symm.trans hb₁
  obtain ⟨n, hcall, hphase⟩ := hw.next
  have hout : a.process.outcome 4 = none := by
    simp [RubyProcess.outcome, hcall, NativeCall.outcome, hphase]
  cases hn with
  | read _ _ | readRaised _ => rfl
  | push hr | pushed hr _ | pushRaised hr _ | refused hr | handled hr _ _ | writeRaised hr
  | spawnCore hr | spawnWriter hr | parsed hr | close hr | joinCore hr _ | coreRaised hr _
  | joinWriter hr _ | writerRaised hr _ | closeIo hr | closeIoRaised hr _ =>
      rw [hreader] at hr; cases hr
  | run hc => rw [hcore] at hc; cases hc
  | next hwr | handed hwr | handRaised hwr | closeFrame hwr | closeFrameRaised hwr
  | writerCloseIo hwr | writerCloseIoRaised hwr => rw [hwriter] at hwr; cases hwr
  | taken hwr ho | finished hwr ho _ | takeRaised hwr ho =>
      cases hwriter.symm.trans hwr
      rw [hout] at ho; cases ho

end WaitsAlone

theorem rests_of_waitsAlone (h : RackRun compactJson demoConfig rackOpening a)
    (hw : WaitsAlone a) : a.Rests compactJson := by
  have hevents : (rackCore rackOpening).all fun e => match e with
      | .create c => c = 1
      | .request _ _ => false
      | _ => true := by decide +kernel
  have hcalls : (rackHost rackOpening).all fun e => match e with
      | .called p _ _ => decide (p = 2 ∨ p = 3 ∨ p = 4)
      | _ => true := by decide +kernel
  rw [List.all_eq_true] at hevents hcalls
  have hconn : ∀ c k, a.process.server.conns c = some k → c = 1 := fun c k hk =>
    of_decide_eq_true (hevents _ (created_of_conn (rackCoreRun h) hk))
  have hdispatch : ∀ q, a.process.server.dispatches q = none := fun q =>
    Option.eq_none_iff_forall_ne_some.mpr fun d hd => by
      obtain ⟨incoming, hreq, -⟩ := requested_of_run (rackCoreRun h) hd
      cases hevents _ hreq
  have hcalled : ∀ q n, a.process.host.calls q = some n → q = 2 ∨ q = 3 ∨ q = 4 := fun q n hn =>
    of_decide_eq_true (hcalls _ (called_of_run (rackHostRun h) hn))
  have hserver : a.process.server.Rests compactJson := hw.server hconn hdispatch
  intro e a' hs he
  cases hs with
  | upgraded _ _ _ => cases he
  | bridge hb hn _ =>
      refine Bool.eq_false_iff.mp (hw.bridges (fun c b hb => ?_) hb (RackBridge.next_inv hn)) he
      obtain ⟨o, k, -, hk, -⟩ := held_of_run h hb
      exact hconn c k hk
  | process _ hs =>
      -- a step of the thread of `run` is an interrupt
      have noRun : ∀ {p r r' pe}, a.process.runs p = some r →
          RunCall.Move a.process.server p r pe r' → pe.ofRun = some p →
          (RackEvent.process pe).own = true → False := fun hr hm hof he => by
        obtain ⟨i, rfl⟩ := hw.runs h hconn hr hm hof
        cases he
      cases hs with
      | requestCalled _ | requestBegan _ _ _ _ | requestDropped _ _ _ | requestCancelled _ _ _ _
      | request _ _ | runCalled _ _ _ => cases he
      | runBegan hb ht _ => exact noRun hb (.began ht) rfl he
      | runPanicked hb ht hk hp => exact noRun hb (.panicked ht hk hp) rfl he
      | run hb hn => exact noRun hb (.wait hn) rfl he
      | runClosed hb ht _ => exact noRun hb (.closed ht) rfl he
      | runJoined hb ht hj => exact noRun hb (.joined ht hj) rfl he
      | host _ hs =>
          cases hs with
          | create hs | conn hs _ _ | server _ hs => exact hserver _ _ hs he
          | called _ _ _ => cases he
          | callConn hb hc hk hs hg hn =>
              obtain ⟨i, rfl⟩ := hw.calls h hcalled (.callConn hb hc hk hs hg hn)
              cases he
          | call hb hc ho hn hq =>
              obtain ⟨i, rfl⟩ := hw.calls h hcalled (.call hb hc ho hn hq)
              cases he

/-- A client that is registered and waits, with nothing going on. -/
theorem rack_at_rest_opening : ∃ a b, RackRun compactJson demoConfig rackOpening a ∧
    a.Rests compactJson ∧ a.bridges 1 = some b ∧ b.reader = .reading ∧
    b.AtRest 1 rackOpening a := by
  obtain ⟨a, h, htest⟩ :=
    exists_rackRun compactJson demoConfig rackOpening waitsAlone (by decide +kernel)
  have hw := waitsAlone_of_test htest
  have hr := rests_of_waitsAlone h hw
  obtain ⟨b, hb, hreader, -⟩ := hw.bridge
  exact ⟨a, b, h, hr, hb, hreader, rack_at_rest h hr hb⟩

end Outpunch
