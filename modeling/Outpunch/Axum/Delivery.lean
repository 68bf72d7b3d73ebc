import Outpunch.Axum.Bridge
import Outpunch.Server.Delivery

/-!
# Axum — from the queue to the socket

What is enqueued on a connection passes the drain task and its callback, the channel to the write
task, and the socket.  Each stage hands on what it took, in order, and keeps the rest
(`BridgeOk`), so the socket is given a prefix of what was enqueued, and what is missing is still
queued unless a send on the socket failed (`delivered_of_run`).
-/

namespace Outpunch

variable {serde : SerdeJson} {config : ServerConfig} {tr : List AxumEvent} {a : Axum} {c : ConnId}

/-- A message the write task of `c` passes to `ws_sink.send`. -/
def AxumEvent.sinks (c : ConnId) : AxumEvent → Option String
  | .bridge c' (.sink text) => if c' = c then some text else none
  | _ => none

/-- The messages passed to `ws_sink.send` for `c`, in order. -/
abbrev sunk (c : ConnId) (tr : List AxumEvent) : List String := Lts.record (AxumEvent.sinks c) tr

/-- A send on the socket of `c` failed. -/
def SinkFailed (c : ConnId) (tr : List AxumEvent) : Prop := AxumEvent.bridge c .sinkErr ∈ tr

theorem sinkFailed_snoc {e : AxumEvent} (he : e ≠ .bridge c .sinkErr) :
    SinkFailed c (tr ++ [e]) ↔ SinkFailed c tr := by
  simp [SinkFailed, Ne.symm he]

/-! ### Steps of a bridge -/

/-- `handle_ws` has not come to `connection.run()`. -/
def WsMain.beforeRun : WsMain → Bool
  | .connected | .bridged | .writing | .ready => true
  | _ => false

theorem Bridge.onConn_deliver {b b' : Bridge} {listening : Bool} {text : String}
    (h : b.onConn listening (.deliver text) = some b') : b' = b.receive text :=
  (Option.some.inj h).symm

/-- Only a delivery shows in the queue. -/
theorem Bridge.onConn_queue {b b' : Bridge} {listening : Bool} {e : ConnEvent}
    (h : b.onConn listening e = some b') (he : ∀ text, e ≠ .deliver text) :
    b'.queue = b.queue ∧ b'.writer = b.writer := by
  cases e with
  | deliver text => exact absurd rfl (he text)
  | panic _ => cases h
  | onMessage | run | push _ | pushClosed _ | sent _ | gone _ | close =>
      obtain ⟨-, h⟩ := Option.ite_none_right_eq_some.mp h
      cases h
      exact ⟨rfl, rfl⟩
  | _ => cases h; exact ⟨rfl, rfl⟩

/-- `handle_ws` moves on at `on_message` and at `run`. -/
theorem Bridge.onConn_main {b b' : Bridge} {listening : Bool} {e : ConnEvent}
    (h : b.onConn listening e = some b') :
    (e = .onMessage ∧ b.main = .connected ∧ b'.main = .bridged) ∨
      (e = .run ∧ b.main = .ready ∧ b'.main = .running) ∨
      (e ≠ .onMessage ∧ e ≠ .run) ∧ b'.main = b.main := by
  cases e with
  | onMessage =>
      obtain ⟨hm, h⟩ := Option.ite_none_right_eq_some.mp h
      cases h
      exact .inl ⟨rfl, hm, rfl⟩
  | run =>
      obtain ⟨hm, h⟩ := Option.ite_none_right_eq_some.mp h
      cases h
      exact .inr (.inl ⟨rfl, hm, rfl⟩)
  | panic _ => cases h
  | push _ | pushClosed _ | sent _ | gone _ | close =>
      obtain ⟨-, h⟩ := Option.ite_none_right_eq_some.mp h
      cases h
      exact .inr (.inr ⟨by simp, rfl⟩)
  | deliver text =>
      cases h
      refine .inr (.inr ⟨by simp, ?_⟩)
      unfold Bridge.receive
      split <;> rfl
  | _ => cases h; exact .inr (.inr ⟨by simp, rfl⟩)

/-! ### `run` has the callback -/

/-- The callback is set before `run` is called, so the drain task has it. -/
structure CallbackOk (b : Bridge) (k : Connection) : Prop where
  created : b.main.beforeRun → k.phase = .created
  callback : b.main.beforeRun → b.main ≠ .connected → k.callback = true
  drain : k.drain ≠ .running false
  writer : b.main = .connected ∨ b.main = .bridged → b.writer = .idle

theorem CallbackOk.conn {b b' : Bridge} {k k' : Connection} {e : ConnEvent} (h : CallbackOk b k)
    (hs : Connection.Step serde config k e k') (hn : b.onConn k.phase.listening e = some b') :
    CallbackOk b' k' := by
  rcases Bridge.onConn_main hn with ⟨rfl, hm, hm'⟩ | ⟨rfl, hm, hm'⟩ | ⟨⟨hne, hne'⟩, hm⟩
  · obtain ⟨-, hw⟩ := Bridge.onConn_queue hn (by simp)
    cases hs with
    | onMessage =>
        exact ⟨fun _ => h.created (by rw [hm]; rfl), fun _ _ => rfl, h.drain, fun _ =>
          hw.trans (h.writer (.inl hm))⟩
  · cases hs with
    | run _ =>
        refine ⟨fun hb => ?_, fun hb => ?_, ?_, fun hb => ?_⟩
        · rw [hm'] at hb; cases hb
        · rw [hm'] at hb; cases hb
        · simp [h.callback (by rw [hm]; rfl) (by rw [hm]; simp)]
        · rcases hb with hb | hb <;> rw [hm'] at hb <;> cases hb
  · have hcallback : k'.callback = k.callback := by
      cases hs with
      | onMessage => exact absurd rfl hne
      | run _ => exact absurd rfl hne'
      | _ => rfl
    have hdrain : k'.drain = k.drain ∨ k'.drain = .ended := by
      cases hs with
      | run _ => exact absurd rfl hne'
      | panic _ _ => exact .inr rfl
      | _ => exact .inl rfl
    have hwriter : b'.writer = b.writer := by
      cases e with
      | deliver text =>
          cases Bridge.onConn_deliver hn
          unfold Bridge.receive
          split <;> rfl
      | _ => exact (Bridge.onConn_queue hn (by simp)).2
    refine ⟨fun hb => ?_, fun hb hc => ?_, ?_, fun hb => ?_⟩
    · have hphase := h.created (hm ▸ hb)
      have hnext := hs.next
      rw [hphase] at hnext
      generalize hp : k'.phase = p at hnext
      cases hnext with
      | stay _ => rfl
      | run => exact absurd rfl hne'
    · exact hcallback.trans (h.callback (hm ▸ hb) (hm ▸ hc))
    · rcases hdrain with hd | hd <;> rw [hd]
      · exact h.drain
      · simp
    · exact hwriter.trans (h.writer (hm ▸ hb))

theorem CallbackOk.bridge {b b' : Bridge} {k : Connection} {e : BridgeEvent} {gone : Bool}
    (h : CallbackOk b k) (hn : b.next gone e = some b') : CallbackOk b' k := by
  have idle : b.writer ≠ .idle → ¬ (b.main = .connected ∨ b.main = .bridged) := fun hw hm =>
    hw (h.writer hm)
  cases e with
  | spawnWrite | spawnRead =>
      obtain ⟨hm, hn⟩ := Option.ite_none_right_eq_some.mp hn
      cases hn
      exact ⟨fun _ => h.created (by rw [hm]; rfl), fun _ _ =>
        h.callback (by rw [hm]; rfl) (by rw [hm]; simp), h.drain, by simp⟩
  | sink text =>
      simp only [Bridge.next] at hn
      split at hn
      · rename_i hw _
        obtain ⟨-, hn'⟩ := Option.ite_none_right_eq_some.mp hn
        cases hn'
        exact ⟨h.created, h.callback, h.drain, fun hm => absurd hm (idle (by rw [hw]; simp))⟩
      · cases hn
  | sinkOk | sinkErr =>
      obtain ⟨hw, hn⟩ := Option.ite_none_right_eq_some.mp hn
      cases hn
      exact ⟨h.created, h.callback, h.drain, fun hm => absurd hm (idle (by rw [hw]; simp))⟩
  | writeEnd =>
      obtain ⟨⟨hw, -⟩, hn⟩ := Option.ite_none_right_eq_some.mp hn
      cases hn
      exact ⟨h.created, h.callback, h.drain, fun hm => absurd hm (idle (by rw [hw]; simp))⟩
  | flushed =>
      obtain ⟨hm, hn⟩ := Option.ite_none_right_eq_some.mp hn
      cases hn
      exact ⟨fun hb => (by cases hb), fun hb => (by cases hb), h.drain, by simp⟩
  | readCancelled =>
      obtain ⟨-, hn⟩ := Option.ite_none_right_eq_some.mp hn
      cases hn
      exact ⟨h.created, h.callback, h.drain, h.writer⟩

theorem CallbackOk.move {b b' : Bridge} {k k' : Connection} {e : AxumEvent}
    (h : CallbackOk b k) (hm : Bridge.Move serde a c b k e b' k') : CallbackOk b' k' := by
  -- a step of `run` after the first
  have later : k.phase ≠ .created → k'.drain = k.drain → CallbackOk b k' := by
    intro hp hd
    have hb : ¬ b.main.beforeRun = true := fun hb => hp (h.created hb)
    exact ⟨fun hb' => absurd hb' hb, fun hb' => absurd hb' hb, hd ▸ h.drain, h.writer⟩
  cases hm with
  | conn hs hn => exact h.conn hs hn
  | runReturned _ _ hd => exact ⟨fun hb => (by cases hb), fun hb => (by cases hb), h.drain, by simp⟩
  | bridge hn => exact h.bridge hn
  | other _ => exact h
  | server he hr hm =>
      cases hm with
      | own _ => exact absurd rfl (he _)
      | register hp | closeReplaced hp _ | respond hp | cleanup hp =>
          exact later (by rw [hp]; simp) rfl
      | runReturned _ _ => exact absurd rfl hr
      | drainEnd _ _ _ => exact ⟨h.created, h.callback, by simp, h.writer⟩
      | closed _ | send _ => exact ⟨h.created, h.callback, h.drain, h.writer⟩
      | other _ => exact h

/-! ### The stages to the socket -/

/-- What the write task has done with what the callback was handed. -/
structure Written (handed sunk : List String) (failed : Prop) (b : Bridge) (k : Connection) :
    Prop where
  writing : b.writer ≠ .ended → handed = sunk ++ b.queue ∧ ¬ failed
  ended : b.writer = .ended →
    sunk.IsPrefix handed ∧ (failed ∨ handed = sunk ∧ b.queue = [] ∧ k.drain = .ended)

namespace Written

variable {hnd snk rest : List String} {failed : Prop} {text : String} {b b' : Bridge}
  {k k' : Connection}

/-- A step that shows at neither end. -/
theorem quiet (h : Written hnd snk failed b k) (hq : b'.queue = b.queue)
    (hw : b'.writer = b.writer) (hd : k.drain = .ended → k'.drain = .ended) :
    Written hnd snk failed b' k' where
  writing hne := hq ▸ h.writing (hw ▸ hne)
  ended he := (h.ended (hw ▸ he)).imp_right fun h => h.imp_right fun ⟨h₁, h₂, h₃⟩ =>
    ⟨h₁, hq.trans h₂, hd h₃⟩

/-- The drain task hands a message over. -/
theorem deliver (h : Written hnd snk failed b k) (hd : k.drain ≠ .ended) :
    Written (hnd ++ [text]) snk failed (b.receive text) k' := by
  by_cases hw : b.writer = .ended
  · obtain ⟨hpre, hfail⟩ := h.ended hw
    rw [Bridge.receive, if_pos hw]
    refine ⟨fun hne => absurd hw hne, fun _ => ⟨hpre.trans (List.prefix_append ..), .inl ?_⟩⟩
    exact hfail.resolve_right fun ⟨_, _, hend⟩ => hd hend
  · obtain ⟨heq, hno⟩ := h.writing hw
    rw [Bridge.receive, if_neg hw]
    exact ⟨fun _ => ⟨by rw [heq, List.append_assoc], hno⟩, fun he => absurd he hw⟩

/-- The write task passes a message to the socket. -/
theorem sink (h : Written hnd snk failed b k) (hw : b.writer = .receiving)
    (hq : b.queue = text :: rest) :
    Written hnd (snk ++ [text]) failed { b with writer := .sending, queue := rest } k := by
  obtain ⟨heq, hno⟩ := h.writing (by rw [hw]; simp)
  refine ⟨fun _ => ⟨?_, hno⟩, fun he => by cases he⟩
  rw [heq, hq, List.append_assoc, List.singleton_append]

theorem sinkErr (h : Written hnd snk failed b k) (hw : b.writer = .sending) {failed' : Prop}
    (hf : failed') : Written hnd snk failed' { b with writer := .ended, queue := [] } k := by
  obtain ⟨heq, -⟩ := h.writing (by rw [hw]; simp)
  exact ⟨fun hne => absurd rfl hne, fun _ => ⟨heq ▸ List.prefix_append .., .inl hf⟩⟩

theorem writeEnd (h : Written hnd snk failed b k) (hw : b.writer = .receiving)
    (hq : b.queue = []) (hd : k.drain = .ended) :
    Written hnd snk failed { b with writer := .ended } k := by
  obtain ⟨heq, -⟩ := h.writing (by rw [hw]; simp)
  rw [hq, List.append_nil] at heq
  exact ⟨fun hne => absurd rfl hne, fun _ => ⟨heq ▸ List.prefix_rfl, .inr ⟨heq, hq, hd⟩⟩⟩

end Written

structure BridgeOk (c : ConnId) (tr : List AxumEvent) (b : Bridge) (k : Connection) : Prop where
  callback : CallbackOk b k
  kept : ∀ e ∈ serverEvents tr, ¬ e.Loses c
  written : Written (handed c (serverEvents tr)) (sunk c tr) (SinkFailed c tr) b k

/-- Nothing was passed to a socket that is not there. -/
theorem sunk_of_absent (hno : ∀ be, .bridge c be ∉ tr) : sunk c tr = [] := by
  refine Lts.record_eq_nil.mpr fun e he => ?_
  cases e with
  | server e => rfl
  | bridge c' be =>
      cases be with
      | sink text =>
          refine if_neg fun hc => ?_
          subst hc
          exact hno _ he
      | _ => rfl

theorem BridgeOk.new (hno : ∀ e ∈ serverEvents tr, ¬ e.ConcernsConn c)
    (hno' : ∀ be, .bridge c be ∉ tr) :
    BridgeOk c (tr ++ [AxumEvent.server (.create c)]) .new .new where
  callback := ⟨fun _ => rfl, fun _ hne => absurd rfl hne, by simp [Connection.new], fun _ => rfl⟩
  kept e he hl := by
    rw [serverEvents_server] at he
    rcases List.mem_append.mp he with he | he
    · refine hno e he ?_
      obtain ⟨text, rfl | rfl⟩ := hl <;> rfl
    · cases List.mem_singleton.mp he
      obtain ⟨text, h | h⟩ := hl <;> cases h
  written := by
    have hno'' : ∀ be, .bridge c be ∉ tr ++ [AxumEvent.server (.create c)] := by simpa using hno'
    rw [serverEvents_server, handed, Event.recordOf_hands.new hno, sunk_of_absent hno'']
    exact ⟨fun _ => ⟨rfl, hno'' _⟩, fun he => by cases he⟩

/-- Nothing is lost on the way to the callback. -/
theorem Bridge.Move.not_loses {b b' : Bridge} {k k' : Connection} {e : Event}
    (hm : Bridge.Move serde a c b k (.server e) b' k') (h : CallbackOk b k) : ¬ e.Loses c := by
  rintro ⟨text, rfl | rfl⟩
  · cases hm with
    | conn hs _ =>
        cases hs with
        | discard hd _ => exact h.drain hd
    | server he _ _ => exact he _ rfl
  · cases hm with
    | conn _ hn => cases hn
    | server he _ _ => exact he _ rfl

theorem Written.conn {hnd snk : List String} {failed : Prop} {b b' : Bridge} {k k' : Connection}
    {e : ConnEvent} (h : Written hnd snk failed b k) (hs : Connection.Step serde config k e k')
    (hidle : k.drain = .idle ↔ k.phase = .created)
    (hn : b.onConn k.phase.listening e = some b') :
    Written (hnd ++ ((Event.conn c e).hands c).toList) snk failed b' k' := by
  cases e with
  | deliver text =>
      cases Bridge.onConn_deliver hn
      rw [show (Event.conn c (.deliver text)).hands c = some text from if_pos rfl]
      refine h.deliver fun hd => ?_
      cases hs with
      | deliver hd' _ => rw [hd] at hd'; cases hd'
  | panic _ => cases hn
  | _ =>
      obtain ⟨hq, hw⟩ := Bridge.onConn_queue hn (by simp)
      rw [show (Event.conn c _).hands c = none from rfl, Option.toList_none, List.append_nil]
      exact h.quiet hq hw (hs.drain_ended hidle)

theorem Written.bridge {hnd : List String} {b b' : Bridge} {k : Connection} {e : BridgeEvent}
    (h : Written hnd (sunk c tr) (SinkFailed c tr) b k) (hcb : CallbackOk b k)
    (hn : b.next (decide (k.drain = .ended)) e = some b') :
    Written hnd (sunk c (tr ++ [AxumEvent.bridge c e]))
      (SinkFailed c (tr ++ [AxumEvent.bridge c e])) b' k := by
  have same : (∀ text, e ≠ .sink text) →
      sunk c (tr ++ [AxumEvent.bridge c e]) = sunk c tr := by
    intro hne
    refine Lts.record_snoc_of_none ?_
    cases e with
    | sink text => exact absurd rfl (hne text)
    | _ => rfl
  have kept : e ≠ .sinkErr → (SinkFailed c (tr ++ [AxumEvent.bridge c e]) ↔ SinkFailed c tr) :=
    fun hne => sinkFailed_snoc fun h => hne (AxumEvent.bridge.inj h).2
  cases e with
  | sink text =>
      simp only [Bridge.next] at hn
      split at hn
      · rename_i hw hq
        obtain ⟨rfl, hn'⟩ := Option.ite_none_right_eq_some.mp hn
        cases hn'
        have hs : sunk c (tr ++ [AxumEvent.bridge c (.sink text)]) = sunk c tr ++ [text] :=
          Lts.record_snoc_of_some (if_pos rfl)
        rw [hs, kept (by simp)]
        exact h.sink hw hq
      · cases hn
  | sinkErr =>
      obtain ⟨hw, hn⟩ := Option.ite_none_right_eq_some.mp hn
      cases hn
      rw [same (by simp)]
      exact h.sinkErr hw List.mem_concat_self
  | writeEnd =>
      obtain ⟨⟨hw, hq, hd⟩, hn⟩ := Option.ite_none_right_eq_some.mp hn
      cases hn
      rw [same (by simp), kept (by simp)]
      exact h.writeEnd hw hq (of_decide_eq_true hd)
  | spawnWrite =>
      obtain ⟨hm, hn⟩ := Option.ite_none_right_eq_some.mp hn
      cases hn
      rw [same (by simp), kept (by simp)]
      have hw : b.writer = .idle := hcb.writer (.inr hm)
      exact ⟨fun _ => h.writing (by rw [hw]; simp), fun he => by cases he⟩
  | sinkOk =>
      obtain ⟨hw, hn⟩ := Option.ite_none_right_eq_some.mp hn
      cases hn
      rw [same (by simp), kept (by simp)]
      exact ⟨fun _ => h.writing (by rw [hw]; simp), fun he => by cases he⟩
  | spawnRead | flushed | readCancelled =>
      obtain ⟨-, hn⟩ := Option.ite_none_right_eq_some.mp hn
      cases hn
      rw [same (by simp), kept (by simp)]
      exact h.quiet rfl rfl id

theorem BridgeOk.move {b b' : Bridge} {k k' : Connection} {e : AxumEvent}
    (hr : AxumRun serde config tr a) (hk : a.server.conns c = some k) (h : BridgeOk c tr b k)
    (hm : Bridge.Move serde a c b k e b' k') : BridgeOk c (tr ++ [e]) b' k' := by
  refine ⟨h.callback.move hm, fun e' he' => ?_, ?_⟩
  · cases e with
    | server e =>
        rw [serverEvents_server] at he'
        rcases List.mem_append.mp he' with he' | he'
        · exact h.kept e' he'
        · exact List.mem_singleton.mp he' ▸ hm.not_loses h.callback
    | bridge c' be => exact h.kept e' (serverEvents_bridge tr c' be ▸ he')
  · have hidle := drain_idle_iff (serverRun hr) hk
    -- an event of the server shows at the callback only
    have server : ∀ {e : Event}, Written (handed c (serverEvents tr) ++ (e.hands c).toList)
        (sunk c tr) (SinkFailed c tr) b' k' →
        Written (handed c (serverEvents (tr ++ [AxumEvent.server e])))
          (sunk c (tr ++ [AxumEvent.server e])) (SinkFailed c (tr ++ [AxumEvent.server e])) b' k' :=
      fun {e} h => by
      have hs : sunk c (tr ++ [AxumEvent.server e]) = sunk c tr := Lts.record_snoc_of_none rfl
      rw [serverEvents_server, handed, Lts.record_snoc, hs, sinkFailed_snoc (by simp)]
      exact h
    cases hm with
    | conn hs hn => exact server (h.written.conn hs hidle hn)
    | runReturned _ _ _ =>
        refine server ?_
        rw [show (Event.runReturned c).hands c = none from rfl, Option.toList_none, List.append_nil]
        exact h.written.quiet rfl rfl id
    | @server e _ he _ hm =>
        refine server ?_
        rw [(Event.drain_of_ne he).2, Option.toList_none, List.append_nil]
        exact h.written.quiet rfl rfl (hm.drain_ended hidle)
    | bridge hn =>
        rw [serverEvents_bridge]
        exact h.written.bridge h.callback hn
    | @other c' be hc =>
        have hs : sunk c (tr ++ [AxumEvent.bridge c' be]) = sunk c tr := by
          refine Lts.record_snoc_of_none ?_
          cases be with
          | sink text => exact if_neg hc
          | _ => rfl
        rw [serverEvents_bridge, hs, sinkFailed_snoc (by simp [hc])]
        exact h.written

theorem bridgeOk_of_run (h : AxumRun serde config tr a) {k : Connection}
    (hk : a.server.conns c = some k) : ∃ b, a.bridges c = some b ∧ BridgeOk c tr b k := by
  rcases bridge_invariant (c := c) (BridgeOk c) BridgeOk.new
    (fun hr _ hk h _ hm => h.move hr hk hm) h with ⟨hno, -⟩ | ⟨b, k', hb, hk', hok⟩
  · rw [hno] at hk; cases hk
  · cases hk.symm.trans hk'
    exact ⟨b, hb, hok⟩

/-! ### To the socket -/

/-- What was enqueued on `c` and is still on its way: in the channel to the write task, or in the
outgoing channel. -/
def stillQueued (a : Axum) (c : ConnId) : List String :=
  ((a.bridges c).map Bridge.queue).getD [] ++ ((a.server.conns c).map Connection.outgoing).getD []

/-- The socket of `c` was given a prefix of what was enqueued, and the rest is queued unless a
send on the socket failed. -/
structure Delivered (tr : List AxumEvent) (a : Axum) (c : ConnId) : Prop where
  sunk : (sunk c tr).IsPrefix (enqueued c (serverEvents tr))
  rest : ¬ SinkFailed c tr →
    enqueued c (serverEvents tr) = Outpunch.sunk c tr ++ stillQueued a c

theorem delivered_of_run (h : AxumRun serde config tr a) (c : ConnId) : Delivered tr a c := by
  cases hk : a.server.conns c with
  | none =>
      have henq : enqueued c (serverEvents tr) = [] := by
        have hno := not_concerns_of_absent (serverRun h) hk
        exact Lts.record_eq_nil.mpr fun e he => Event.recordOf_enqueues.other (hno e he)
      rcases bridge_invariant (c := c) (fun _ _ _ => True) (fun _ _ => trivial)
        (fun _ _ _ _ _ _ => trivial) h with ⟨-, hb, hno⟩ | ⟨b, k, -, hk', -⟩
      · have hsunk := sunk_of_absent hno
        refine ⟨hsunk ▸ List.nil_prefix, fun _ => ?_⟩
        simp [stillQueued, hb, hk, henq, hsunk]
      · rw [hk] at hk'; cases hk'
  | some k =>
      obtain ⟨b, hb, hok⟩ := bridgeOk_of_run h hk
      have henq := enqueued_eq (serverRun h) hk hok.kept
      have hqueued : stillQueued a c = b.queue ++ k.outgoing := by simp [stillQueued, hb, hk]
      by_cases hw : b.writer = .ended
      · obtain ⟨hpre, hend⟩ := hok.written.ended hw
        refine ⟨hpre.trans (henq ▸ List.prefix_append ..), fun hno => ?_⟩
        obtain ⟨heq, hnil, -⟩ := hend.resolve_left hno
        rw [henq, hqueued, hnil, heq, List.nil_append]
      · obtain ⟨heq, -⟩ := hok.written.writing hw
        rw [heq, List.append_assoc] at henq
        exact ⟨henq ▸ List.prefix_append .., fun _ => henq.trans (congrArg _ hqueued.symm)⟩

/-- **No request is dropped, duplicated or reordered on its way to the socket.**  The socket of
each connection is given a prefix of what was enqueued on it, which stops short only where a send
failed or the rest is still queued; what was enqueued is the auth reply and then requests; and the
text of a dispatch is enqueued once at most, not where it ended before its send, and once where it
returned a response. -/
theorem delivery_to_socket (hserde : serde.RoundTrips) (h : AxumRun serde config tr a) :
    (∀ c, Delivered tr a c) ∧
    (∀ c, enqueued c (serverEvents tr) = [] ∨
      (∃ message, enqueued c (serverEvents tr) = [authErrorText serde message]) ∨
      enqueued c (serverEvents tr) =
        authOkText serde :: (sentTo c (serverEvents tr)).map Prod.snd) ∧
    (∀ q incoming, .server (.request q incoming) ∈ tr → EnqueuedOnce q
      (serializeRequest serde (buildTunnelRequest q incoming)) (serverEvents tr)) :=
  ⟨delivered_of_run h, enqueued_shape (serverRun h), fun _ _ hin =>
    enqueuedOnce_of_run hserde (serverRun h) (mem_serverEvents.mpr hin)⟩

/-- A session behind a bridge, up to the socket. -/
def bridgedSession (q : RequestId) : List AxumEvent :=
  [AxumEvent.server (.create 1), .server (.conn 1 .onMessage), .bridge 1 .spawnWrite,
    .bridge 1 .spawnRead, .server (.conn 1 .run)] ++ ((demoSession q).drop 3).map .server ++
  [AxumEvent.server (.conn 1 (.deliver (authOkText compactJson))),
    .bridge 1 (.sink (authOkText compactJson)), .bridge 1 .sinkOk]

/-- A request is sent and answered while the socket has taken no more than the auth reply. -/
theorem delivery_to_socket_slow : ∃ a, AxumRun compactJson demoConfig (bridgedSession "q") a ∧
    Delivered (bridgedSession "q") a 1 ∧
    ∃ c, (enqueued c (serverEvents (bridgedSession "q"))).count
      (serializeRequest compactJson (buildTunnelRequest "q" demoRequest)) = 1 := by
  obtain ⟨a, h⟩ := @exists_axumRun compactJson demoConfig (bridgedSession "q") (by decide +kernel)
  obtain ⟨hdel, -, honce⟩ := delivery_to_socket compactJson_roundTrips h
  obtain ⟨c, -, hc⟩ := (honce "q" demoRequest (by
    simp [bridgedSession, demoSession, registration, handshake, pushing, dispatching])).returned
    (r := demoResponse "q") (mem_serverEvents.mpr (by
      simp [bridgedSession, demoSession, registration, handshake, pushing, dispatching, answering,
        demoResponse]))
  exact ⟨a, h, hdel 1, c, hc⟩

end Outpunch
