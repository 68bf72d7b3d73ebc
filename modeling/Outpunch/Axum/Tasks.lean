import Outpunch.Axum.Delivery
import Outpunch.Server.Disconnect

/-!
# Axum — the tasks `handle_ws` leaves behind

When `handle_ws` returns, the read task is aborted and the handle of the write task was given to a
timeout.  A handle that is dropped detaches its task; so where the time to flush runs out first,
the write task goes on with the socket and the messages it holds.

`connection.run()` waits for the drain task, which drops the callback, so the write task ends once
its queue is empty (`TaskOk.drained`).  So it is over when `handle_ws` returns exactly when the
socket has completed the sends it was given and the task has had its turn
(`released_iff_of_flushed`), and a run whose returns all find it so leaves no task behind
(`no_task_left`).
-/

namespace Outpunch

variable {serde : SerdeJson} {config : ServerConfig} {tr : List AxumEvent} {a a' : Axum}
  {c : ConnId}

/-- Both tasks are over or aborted, and no message is held. -/
structure Bridge.Released (b : Bridge) : Prop where
  writer : b.writer = .ended
  reader : b.reader = .ended ∨ b.aborted = true
  queue : b.queue = []

/-- The write task has something left to do: the socket has not completed a send, or the task is
woken by a message or by the end of its channel and has not run. -/
def Bridge.WriterBusy (b : Bridge) (callbackGone : Bool) : Prop :=
  b.writer = .sending ∨ b.writer = .receiving ∧ (b.queue ≠ [] ∨ callbackGone = true)

/-- A return of `handle_ws` finds nothing left to do for its write task. -/
def FlushedInTime (a : Axum) : AxumEvent → Prop
  | .bridge c .flushed => ∀ b, a.bridges c = some b → ¬ b.WriterBusy (a.callbackGone c)
  | _ => True

/-! ### What the tasks have come to -/

/-- How far the tasks of a bridge are, by where `handle_ws` stands. -/
structure TaskOk (b : Bridge) (k : Connection) : Prop where
  spawned : b.writer = .idle → b.main = .connected ∨ b.main = .bridged
  drained : b.main = .flushing ∨ b.main = .returned → k.drain = .ended
  emptied : b.writer = .ended → b.queue = []
  aborted : b.main = .returned → b.aborted = true

/-- A task that is over receives nothing more. -/
theorem Bridge.receive_ended {b : Bridge} {text : String} (h : b.writer = .ended) :
    b.receive text = b := if_pos h

theorem Bridge.receive_fields (b : Bridge) (text : String) :
    (b.receive text).main = b.main ∧ (b.receive text).writer = b.writer ∧
      (b.receive text).aborted = b.aborted := by
  unfold Bridge.receive
  split <;> exact ⟨rfl, rfl, rfl⟩

/-- An event of the connection neither ends a task nor aborts the read task. -/
theorem Bridge.onConn_tasks {b b' : Bridge} {listening : Bool} {e : ConnEvent}
    (h : b.onConn listening e = some b') :
    b'.writer = b.writer ∧ b'.aborted = b.aborted ∧ (b.writer = .ended → b'.queue = b.queue) := by
  cases e with
  | deliver text =>
      cases Bridge.onConn_deliver h
      obtain ⟨-, hw, ha⟩ := b.receive_fields text
      exact ⟨hw, ha, fun hend => congrArg Bridge.queue (Bridge.receive_ended hend)⟩
  | panic _ => cases h
  | onMessage | run | push _ | pushClosed _ | sent _ | gone _ | close =>
      obtain ⟨-, h⟩ := Option.ite_none_right_eq_some.mp h
      cases h
      exact ⟨rfl, rfl, fun _ => rfl⟩
  | _ => cases h; exact ⟨rfl, rfl, fun _ => rfl⟩

/-- An event of the connection does not bring `handle_ws` to its end. -/
theorem Bridge.onConn_late {b b' : Bridge} {listening : Bool} {e : ConnEvent}
    (h : b.onConn listening e = some b') :
    (b'.main = .connected ∨ b'.main = .bridged ↔ b.main = .connected ∨ b.main = .bridged) ∧
      (b'.main = .flushing ↔ b.main = .flushing) ∧ (b'.main = .returned ↔ b.main = .returned) := by
  rcases Bridge.onConn_main h with ⟨-, hm, hm'⟩ | ⟨-, hm, hm'⟩ | ⟨-, hm⟩
  · simp [hm, hm']
  · simp [hm, hm']
  · simp [hm]

namespace TaskOk

variable {b b' : Bridge} {k k' : Connection}

theorem conn {e : ConnEvent} (h : TaskOk b k) (hs : Connection.Step serde config k e k')
    (hidle : k.drain = .idle ↔ k.phase = .created)
    (hn : b.onConn k.phase.listening e = some b') : TaskOk b' k' := by
  obtain ⟨hw, ha, hq⟩ := Bridge.onConn_tasks hn
  obtain ⟨hearly, hflush, hret⟩ := Bridge.onConn_late hn
  exact ⟨fun hidle => hearly.mpr (h.spawned (hw ▸ hidle)),
    fun hm => hs.drain_ended hidle (h.drained (hm.imp hflush.mp hret.mp)),
    fun hend => (hq (hw ▸ hend)).trans (h.emptied (hw ▸ hend)),
    fun hm => ha.trans (h.aborted (hret.mp hm))⟩

theorem bridge {e : BridgeEvent} {gone : Bool} (h : TaskOk b k) (hn : b.next gone e = some b') :
    TaskOk b' k := by
  cases e with
  | spawnWrite =>
      obtain ⟨hm, hn⟩ := Option.ite_none_right_eq_some.mp hn
      cases hn
      exact ⟨fun hidle => (by cases hidle), by simp, fun hend => (by cases hend), by simp⟩
  | spawnRead =>
      obtain ⟨hm, hn⟩ := Option.ite_none_right_eq_some.mp hn
      cases hn
      exact ⟨fun hidle => absurd (h.spawned hidle) (by simp [hm]), by simp, h.emptied, by simp⟩
  | sink text =>
      simp only [Bridge.next] at hn
      split at hn
      · obtain ⟨-, hn'⟩ := Option.ite_none_right_eq_some.mp hn
        cases hn'
        exact ⟨fun hidle => (by cases hidle), h.drained, fun hend => (by cases hend), h.aborted⟩
      · cases hn
  | sinkOk =>
      obtain ⟨-, hn⟩ := Option.ite_none_right_eq_some.mp hn
      cases hn
      exact ⟨fun hidle => (by cases hidle), h.drained, fun hend => (by cases hend), h.aborted⟩
  | sinkErr =>
      obtain ⟨-, hn⟩ := Option.ite_none_right_eq_some.mp hn
      cases hn
      exact ⟨fun hidle => (by cases hidle), h.drained, fun _ => rfl, h.aborted⟩
  | writeEnd =>
      obtain ⟨⟨-, hq, -⟩, hn⟩ := Option.ite_none_right_eq_some.mp hn
      cases hn
      exact ⟨fun hidle => (by cases hidle), h.drained, fun _ => hq, h.aborted⟩
  | flushed =>
      obtain ⟨hm, hn⟩ := Option.ite_none_right_eq_some.mp hn
      cases hn
      exact ⟨fun hidle => absurd (h.spawned hidle) (by simp [hm]), fun _ => h.drained (.inl hm),
        h.emptied, fun _ => rfl⟩
  | readCancelled =>
      obtain ⟨-, hn⟩ := Option.ite_none_right_eq_some.mp hn
      cases hn
      exact ⟨h.spawned, h.drained, h.emptied, h.aborted⟩

/-- The drain task stays over, whatever the server does. -/
theorem move {e : AxumEvent} (h : TaskOk b k) (hidle : k.drain = .idle ↔ k.phase = .created)
    (hm : Bridge.Move serde a c b k e b' k') : TaskOk b' k' := by
  cases hm with
  | conn hs hn => exact h.conn hs hidle hn
  | runReturned hrun _ hd =>
      exact ⟨fun hw => absurd (h.spawned hw) (by simp [hrun]), fun _ => hd, h.emptied,
        fun hm => (by cases hm)⟩
  | bridge hn => exact h.bridge hn
  | other _ => exact h
  | server he hr hm =>
      refine ⟨h.spawned, fun hb => ?_, h.emptied, h.aborted⟩
      have hd := h.drained hb
      cases hm with
      | own _ => exact absurd rfl (he _)
      | runReturned _ _ => exact absurd rfl hr
      | drainEnd _ _ _ => rfl
      | _ => exact hd

end TaskOk

/-- **Invariant of the tasks.** -/
theorem taskOk_of_run (h : AxumRun serde config tr a) {b : Bridge} (hb : a.bridges c = some b) :
    ∃ k, a.server.conns c = some k ∧ TaskOk b k := by
  rcases bridge_invariant (c := c) (fun _ b k => TaskOk b k)
    (fun _ _ => ⟨fun _ => .inl rfl, by simp [Bridge.new], by simp [Bridge.new],
      by simp [Bridge.new]⟩)
    (fun hr _ hk h _ hm => h.move (drain_idle_iff (serverRun hr) hk) hm) h with
    ⟨-, hno, -⟩ | ⟨b', k, hb', hk, hok⟩
  · rw [hno] at hb; cases hb
  · cases hb'.symm.trans hb
    exact ⟨k, hk, hok⟩

/-! ### When `handle_ws` returns -/

/-- A bridge is made with its connection. -/
theorem AxumStep.bridge_inv {e : AxumEvent} (hs : AxumStep serde a e a') {b' : Bridge}
    (hb' : a'.bridges c = some b') : b' = .new ∨ ∃ b, a.bridges c = some b := by
  cases hs with
  | create _ =>
      rcases PartialMap.insert_eq_some.mp hb' with ⟨-, rfl⟩ | ⟨-, hb⟩
      · exact .inl rfl
      · exact .inr ⟨b', hb⟩
  | conn _ _ hb _ | runReturned _ hb _ | bridge hb _ =>
      rcases PartialMap.insert_eq_some.mp hb' with ⟨rfl, -⟩ | ⟨-, hb'⟩
      · exact .inr ⟨_, hb⟩
      · exact .inr ⟨b', hb'⟩
  | server _ _ => exact .inr ⟨b', hb'⟩

/-- A bridge comes to its end by a return of `handle_ws`; after it, a write task that is over
stays over. -/
theorem Bridge.Move.returned {b b' : Bridge} {k k' : Connection} {e : AxumEvent}
    (hm : Bridge.Move serde a c b k e b' k') (hret : b'.main = .returned) :
    (e = .bridge c .flushed ∧ b.main = .flushing ∧ b'.writer = b.writer) ∨
      b.main = .returned ∧ (b.writer = .ended → b'.writer = .ended) := by
  cases hm with
  | conn _ hn =>
      exact .inr ⟨(Bridge.onConn_late hn).2.2.mp hret, fun hw =>
        (Bridge.onConn_tasks hn).1.trans hw⟩
  | runReturned _ _ _ => cases hret
  | server _ _ _ | other _ => exact .inr ⟨hret, id⟩
  | @bridge e _ hn =>
      cases e with
      | flushed =>
          obtain ⟨hm, hn⟩ := Option.ite_none_right_eq_some.mp hn
          cases hn
          exact .inl ⟨rfl, hm, rfl⟩
      | spawnWrite | spawnRead =>
          obtain ⟨-, hn⟩ := Option.ite_none_right_eq_some.mp hn
          cases hn
          cases hret
      | sink text =>
          simp only [Bridge.next] at hn
          split at hn
          · rename_i hw _
            obtain ⟨-, hn'⟩ := Option.ite_none_right_eq_some.mp hn
            cases hn'
            exact .inr ⟨hret, fun hend => by rw [hw] at hend; cases hend⟩
          · cases hn
      | sinkOk =>
          obtain ⟨hw, hn⟩ := Option.ite_none_right_eq_some.mp hn
          cases hn
          exact .inr ⟨hret, fun hend => by rw [hw] at hend; cases hend⟩
      | sinkErr | writeEnd =>
          obtain ⟨-, hn⟩ := Option.ite_none_right_eq_some.mp hn
          cases hn
          exact .inr ⟨hret, fun _ => rfl⟩
      | readCancelled =>
          obtain ⟨-, hn⟩ := Option.ite_none_right_eq_some.mp hn
          cases hn
          exact .inr ⟨hret, id⟩

/-- While `handle_ws` waits for it, a write task that has nothing left to do is over: its channel
is closed. -/
theorem ended_iff_of_flushing (h : AxumRun serde config tr a) {b : Bridge}
    (hb : a.bridges c = some b) (hm : b.main = .flushing) :
    b.writer = .ended ↔ ¬ b.WriterBusy (a.callbackGone c) := by
  obtain ⟨k, hk, hok⟩ := taskOk_of_run h hb
  have hgone : a.callbackGone c = true := by
    rw [Axum.callbackGone, hk]
    exact decide_eq_true (hok.drained (.inl hm))
  have hidle : b.writer ≠ .idle := fun hw => absurd (hok.spawned hw) (by simp [hm])
  rw [Bridge.WriterBusy, hgone]
  cases hw : b.writer with
  | idle => exact absurd hw hidle
  | receiving | sending | ended => simp

/-- After the return, all is released where the write task is over. -/
theorem released_iff_of_returned (h : AxumRun serde config tr a) {b : Bridge}
    (hb : a.bridges c = some b) (hm : b.main = .returned) : b.Released ↔ b.writer = .ended := by
  obtain ⟨k, -, hok⟩ := taskOk_of_run h hb
  exact ⟨Bridge.Released.writer, fun hw => ⟨hw, .inr (hok.aborted hm), hok.emptied hw⟩⟩

/-- **A return of `handle_ws` releases all exactly when it finds the write task with nothing left
to do.** -/
theorem released_iff_of_flushed (h : AxumRun serde config tr a)
    (hs : AxumStep serde a (.bridge c .flushed) a') {b' : Bridge} (hb' : a'.bridges c = some b') :
    b'.Released ↔ FlushedInTime a (.bridge c .flushed) := by
  have hret : b'.main = .returned ∧ ∃ b, a.bridges c = some b ∧ b.main = .flushing ∧
      b'.writer = b.writer := by
    cases hs with
    | bridge hb hn =>
        obtain ⟨hm, hn⟩ := Option.ite_none_right_eq_some.mp hn
        cases hn
        cases (PartialMap.insert_same ..).symm.trans hb'
        exact ⟨rfl, _, hb, hm, rfl⟩
  obtain ⟨hret, b, hb, hm, hw⟩ := hret
  rw [released_iff_of_returned (h.snoc hs) hb' hret, hw, ended_iff_of_flushing h hb hm]
  exact ⟨fun hdone b₁ hb₁ => by cases hb.symm.trans hb₁; exact hdone, fun hok => hok b hb⟩

/-- A run whose returns all find the write task with nothing left to do. -/
theorem writer_ended_of_run (h : Lts.Run (Lts.guarded (AxumStep serde) FlushedInTime)
    (Axum.new config) tr a) {b : Bridge} (hb : a.bridges c = some b) (hm : b.main = .returned) :
    b.writer = .ended := by
  refine h.invariant (fun _ a => ∀ b, a.bridges c = some b → b.main = .returned →
      b.writer = .ended) (fun b hb => (by cases hb))
    (fun {tr a e a'} hr ih hs b' hb' hm' => ?_) b hb hm
  have hrun : AxumRun serde config tr a := hr.of_guarded
  rcases hs.1.bridge_inv hb' with rfl | ⟨b, hb⟩
  · cases hm'
  · obtain ⟨k, hk, -⟩ := taskOk_of_run hrun hb
    obtain ⟨b₁, k', hb₁, -, hmove⟩ := hs.1.move (wf_of_run (serverRun hrun)) hb hk
    cases hb₁.symm.trans hb'
    rcases hmove.returned hm' with ⟨rfl, hm, hw⟩ | ⟨hm, hw⟩
    · exact hw.trans ((ended_iff_of_flushing hrun hb hm).mpr (hs.2 b hb))
    · exact hw (ih b hb hm)

/-- **No task is left behind** in a run whose returns of `handle_ws` all find the write task with
nothing left to do; and one that does not leaves it behind. -/
theorem no_task_left :
    (∀ {tr a c b}, Lts.Run (Lts.guarded (AxumStep serde) FlushedInTime) (Axum.new config) tr a →
      a.bridges c = some b → b.main = .returned → b.Released) ∧
    (∀ {tr a c a' b'}, AxumRun serde config tr a → AxumStep serde a (.bridge c .flushed) a' →
      a'.bridges c = some b' → (b'.Released ↔ FlushedInTime a (.bridge c .flushed))) :=
  ⟨fun h hb hm => (released_iff_of_returned h.of_guarded hb hm).mpr (writer_ended_of_run h hb hm),
    fun h hs hb' => released_iff_of_flushed h hs hb'⟩

/-! ### A client that is replaced -/

/-- A client connects behind a bridge, as `c`, and is registered. -/
def bridgedHandshake (c : ConnId) : List AxumEvent :=
  [AxumEvent.server (.create c), .server (.conn c .onMessage), .bridge c .spawnWrite,
    .bridge c .spawnRead, .server (.conn c .run)] ++
  ((registration compactJson demoConfig c "app").drop 3).map .server

/-- A client is sent the auth reply, which its socket takes, and a request, which the socket takes
if it `completes` the send.  Then a second client replaces it. -/
def replacedSession (completes : Bool) : List AxumEvent :=
  let ok := authOkText compactJson
  let json := serializeRequest compactJson (buildTunnelRequest "q" demoRequest)
  bridgedHandshake 1 ++
  [AxumEvent.server (.conn 1 (.deliver ok)), .bridge 1 (.sink ok), .bridge 1 .sinkOk] ++
  (dispatching compactJson 1 "q" demoRequest).map .server ++
  [AxumEvent.server (.conn 1 (.deliver json)), .bridge 1 (.sink json), .server (.cancel "q")] ++
  (if completes then [.bridge 1 .sinkOk] else []) ++ bridgedHandshake 2 ++
  [AxumEvent.server (.closeReplaced 2 1), .server (.conn 1 .relayClosed),
    .server (.cleanup 1 "app"), .server (.conn 1 .dropOutgoing)]

/-- The `run` of the replaced client waits for its drain task, which has nothing to hand over. -/
structure AwaitsDrain (writer : WriteTask) (a : Axum) : Prop where
  bridge : ∃ b, a.bridges 1 = some b ∧ b.main = .running ∧ b.writer = writer ∧ b.queue = []
  replaced : ∃ k s, a.server.conns 1 = some k ∧ k.phase = .joining s ∧ k.drain = .running true ∧
    k.outgoing = []
  replacing : ∃ k s, a.server.conns 2 = some k ∧ k.phase = .relay s

/-- The test of it. -/
def awaitsDrain (writer : WriteTask) (a : Axum) : Bool :=
  ((a.bridges 1).any fun b => decide (b.main = .running ∧ b.writer = writer ∧ b.queue = [])) &&
  ((a.server.conns 1).any fun k =>
    (match k.phase with | .joining _ => true | _ => false) &&
      decide (k.drain = .running true ∧ k.outgoing = [])) &&
  (a.server.conns 2).any fun k => match k.phase with | .relay _ => true | _ => false

theorem awaitsDrain_of_test {writer : WriteTask} (h : awaitsDrain writer a) :
    AwaitsDrain writer a := by
  simp only [awaitsDrain, Bool.and_eq_true, Option.any_eq_true, decide_eq_true_eq] at h
  obtain ⟨⟨⟨b, hb, hbridge⟩, k, hk, hp, hd, ho⟩, k₂, hk₂, hp₂⟩ := h
  refine ⟨⟨b, hb, hbridge⟩, ?_, ?_⟩
  · split at hp
    · rename_i s hs
      exact ⟨k, s, hk, hs, hd, ho⟩
    · cases hp
  · split at hp₂
    · rename_i s hs
      exact ⟨k₂, s, hk₂, hs⟩
    · cases hp₂

/-- The run up to the drain task. -/
theorem exists_awaitsDrain (completes : Bool) : ∃ a,
    AxumRun compactJson demoConfig (replacedSession completes) a ∧
      AwaitsDrain (if completes then .receiving else .sending) a := by
  have htest : (Lts.execAll (Axum.exec compactJson) (Axum.new demoConfig)
      (replacedSession completes)).any
        (awaitsDrain (if completes then .receiving else .sending)) := by
    cases completes <;> decide +kernel
  obtain ⟨a, h, hat⟩ := Lts.exists_run_of_execAll Axum.exec_sound _ htest
  exact ⟨a, h, awaitsDrain_of_test hat⟩

/-- No one holds the sender of the replaced client any more. -/
theorem not_held_of_awaitsDrain {completes : Bool} {writer : WriteTask}
    (h : AxumRun compactJson demoConfig (replacedSession completes) a)
    (hat : AwaitsDrain writer a) : ∀ o, ¬ a.server.Holds 1 o := by
  have hevents : ((serverEvents (replacedSession completes)).all fun e => match e with
      | .assign q _ _ => decide (.cancel q ∈ serverEvents (replacedSession completes))
      | .register c _ => decide (c = 1 ∨ c = 2)
      | _ => true) := by
    cases completes <;> decide +kernel
  rw [List.all_eq_true] at hevents
  have hclean : .cleanup 1 "app" ∈ serverEvents (replacedSession completes) := by
    cases completes <;> decide +kernel
  obtain ⟨k₁, s₁, hk₁, hp₁, -⟩ := hat.replaced
  obtain ⟨k₂, s₂, hk₂, hp₂⟩ := hat.replacing
  intro o ho
  have ho := holderOfCleaned_of_run (serverRun h) hclean o ho
  cases o with
  | run =>
      obtain ⟨k, hk, hp⟩ := ho
      cases hk₁.symm.trans hk
      rw [hp₁] at hp
      cases hp
  | registry s => exact ho
  | dispatch q => exact ho.2.1 (of_decide_eq_true (hevents _ ho.1))
  | replacing c =>
      obtain ⟨k, s, g, hk, hp, -, -, hreg⟩ := ho
      rcases of_decide_eq_true (hevents _ hreg) with rfl | rfl
      · cases hk₁.symm.trans hk
        rw [hp₁] at hp
        cases hp
      · cases hk₂.symm.trans hk
        rw [hp₂] at hp
        cases hp

/-- The events after which `handle_ws` of the replaced client waits for its write task. -/
def flushingSession (completes : Bool) : List AxumEvent :=
  replacedSession completes ++ [AxumEvent.server (.drainEnd 1)] ++
    [AxumEvent.server (.runReturned 1)]

/-- The run up to the grace period, in which no `handle_ws` returned. -/
theorem exists_flushing (completes : Bool) : ∃ a b,
    Lts.Run (Lts.guarded (AxumStep compactJson) FlushedInTime) (Axum.new demoConfig)
      (flushingSession completes) a ∧
    a.bridges 1 = some b ∧ b.main = .flushing ∧ b.queue = [] ∧
    b.writer = if completes then .receiving else .sending := by
  obtain ⟨a, h, hat⟩ := exists_awaitsDrain completes
  obtain ⟨b, hb, hm, hw, hq⟩ := hat.bridge
  obtain ⟨k, s, hk, hp, hd, ho⟩ := hat.replaced
  obtain ⟨a₁, hdrain, hk₁, hb₁⟩ : ∃ a₁, AxumStep compactJson a (.server (.drainEnd 1)) a₁ ∧
      a₁.server.conns 1 = some { k with drain := .ended } ∧ a₁.bridges 1 = some b :=
    ⟨_, .server rfl (.drainEnd hk hd ho (not_held_of_awaitsDrain h hat)),
      World.setConn_conns_same, hb⟩
  obtain ⟨a₂, hret, hb₂⟩ : ∃ a₂, AxumStep compactJson a₁ (.server (.runReturned 1)) a₂ ∧
      a₂.bridges 1 = some { b with main := .flushing } :=
    ⟨_, .runReturned (.runReturned hk₁ hp rfl) hb₁ hm, PartialMap.insert_same a₁.bridges 1 _⟩
  have hrun := (h.snoc hdrain).snoc hret
  refine ⟨a₂, _, hrun.guard (fun e he a => ?_), hb₂, rfl, hq, hw⟩
  have hno : (flushingSession completes).all fun e => match e with
      | .bridge _ .flushed => false
      | _ => true := by
    cases completes <;> decide +kernel
  have hne := List.all_eq_true.mp hno e he
  unfold FlushedInTime
  split
  · cases hne
  · trivial

/-- A bridge takes a step of its own. -/
theorem exists_bridgeStep {b b' : Bridge} {e : BridgeEvent} (hb : a.bridges c = some b)
    (hn : b.next (a.callbackGone c) e = some b') :
    ∃ a', AxumStep serde a (.bridge c e) a' ∧ a'.bridges c = some b' :=
  ⟨_, .bridge hb hn, PartialMap.insert_same ..⟩

/-- A replaced client whose socket takes all it is sent. -/
theorem no_task_left_replaced : ∃ a b,
    Lts.Run (Lts.guarded (AxumStep compactJson) FlushedInTime) (Axum.new demoConfig)
      (flushingSession true ++ [AxumEvent.bridge 1 .writeEnd] ++ [.bridge 1 .flushed]) a ∧
    a.bridges 1 = some b ∧ b.main = .returned ∧ b.Released := by
  obtain ⟨a, b, h, hb, hm, hq, hw⟩ := exists_flushing true
  obtain ⟨k, hk, hok⟩ := taskOk_of_run h.of_guarded hb
  have hgone : a.callbackGone 1 = true := by
    rw [Axum.callbackGone, hk]
    exact decide_eq_true (hok.drained (.inl hm))
  obtain ⟨a₁, hend, hb₁⟩ :=
    @exists_bridgeStep compactJson a 1 b _ .writeEnd hb (if_pos ⟨hw, hq, hgone⟩)
  obtain ⟨a₂, hret, hb₂⟩ := @exists_bridgeStep compactJson a₁ 1 _ _ .flushed hb₁ (if_pos hm)
  have hdone : FlushedInTime a₁ (.bridge 1 .flushed) := fun b' hb' => by
    cases hb₁.symm.trans hb'
    simp [Bridge.WriterBusy]
  have hrun := (h.snoc ⟨hend, trivial⟩).snoc ⟨hret, hdone⟩
  exact ⟨a₂, _, hrun, hb₂, rfl, no_task_left.1 hrun hb₂ rfl⟩

/-- A replaced client that has stopped reading: `handle_ws` returns, and its write task is still at
the send. -/
theorem write_task_left : ∃ a b,
    AxumRun compactJson demoConfig (flushingSession false ++ [AxumEvent.bridge 1 .flushed]) a ∧
    a.bridges 1 = some b ∧ b.main = .returned ∧ b.writer = .sending ∧ ¬ b.Released := by
  obtain ⟨a, b, h, hb, hm, -, hw⟩ := exists_flushing false
  obtain ⟨a₁, hret, hb₁⟩ := @exists_bridgeStep compactJson a 1 b _ .flushed hb (if_pos hm)
  refine ⟨a₁, _, h.of_guarded.snoc hret, hb₁, rfl, hw, fun hrel => ?_⟩
  have hend : b.writer = .ended := hrel.writer
  rw [hw] at hend
  cases hend

end Outpunch
