import Outpunch.Server.Exec
import Outpunch.Server.History

/-!
# Axum — the WebSocket bridge

`handle_ws` and its two tasks, one `Bridge` for each connection, beside the server.  The callback
puts what the drain task hands over into an unbounded queue; the write task takes it from there to
the socket, as slowly as the socket takes it; the read task pushes the texts it receives, one at a
time.  Dropping the handle of the write task detaches it: it goes on after `handle_ws` returned.
Aborting the read task takes effect at one of its suspension points.

The steps of the server are those of `Step`; a connection's adapter calls come from its bridge, and
all other events happen as they may.
-/

namespace Outpunch

/-- Where `handle_ws` stands. -/
inductive WsMain where
  /-- The connection is made. -/
  | connected
  /-- The callback is set. -/
  | bridged
  /-- The write task is spawned. -/
  | writing
  /-- The read task is spawned. -/
  | ready
  /-- At `connection.run()`. -/
  | running
  /-- At `timeout(.., write_handle)`. -/
  | flushing
  /-- Over, the read task aborted. -/
  | returned
  deriving DecidableEq

/-- Where the write task stands. -/
inductive WriteTask where
  | idle
  /-- At `msg_rx.recv()`. -/
  | receiving
  /-- At `ws_sink.send(..)`. -/
  | sending
  /-- Over, `msg_rx` dropped. -/
  | ended
  deriving DecidableEq

/-- Where the read task stands. -/
inductive ReadTask where
  | idle
  /-- At `ws_stream.next()`. -/
  | receiving
  /-- In `push_message`. -/
  | pushing (m : Pushed)
  | ended
  deriving DecidableEq

structure Bridge where
  main : WsMain
  /-- What the unbounded channel from the callback to the write task holds. -/
  queue : List String
  writer : WriteTask
  reader : ReadTask
  /-- `read_handle.abort()` was called. -/
  aborted : Bool

/-- What a bridge does apart from its connection. -/
inductive BridgeEvent where
  | spawnWrite
  | spawnRead
  /-- The write task passes a message to `ws_sink.send`. -/
  | sink (text : String)
  | sinkOk
  | sinkErr
  /-- The write task finds its channel closed. -/
  | writeEnd
  /-- The write task is over, or the time to flush is; `handle_ws` returns. -/
  | flushed
  /-- The abort of the read task takes effect. -/
  | readCancelled
  deriving DecidableEq

namespace Bridge

def new : Bridge where
  main := .connected
  queue := []
  writer := .idle
  reader := .idle
  aborted := false

/-- The callback: `msg_tx.send(msg)`, lost when the write task is over. -/
def receive (b : Bridge) (text : String) : Bridge :=
  if b.writer = .ended then b else { b with queue := b.queue ++ [text] }

/-- A bridge at an event of its connection; `listening` says that `incoming_rx` is alive. -/
def onConn (b : Bridge) (listening : Bool) : ConnEvent → Option Bridge
  | .onMessage => if b.main = .connected then some { b with main := .bridged } else none
  | .run => if b.main = .ready then some { b with main := .running } else none
  | .push m => if b.reader = .receiving then some { b with reader := .pushing m } else none
  | .pushClosed _ => if b.reader = .receiving then some b else none
  | .sent m => if b.reader = .pushing m then some { b with reader := .receiving } else none
  | .gone m =>
    if b.reader = .pushing m ∧ (listening = false ∨ b.aborted = true) then
      some { b with reader := .receiving }
    else none
  | .close => if b.reader = .receiving then some { b with reader := .ended } else none
  | .deliver text => some (b.receive text)
  -- the callback never panics
  | .panic _ => none
  | _ => some b

/-- A bridge at an event of its own; `callbackGone` says that the callback was dropped, and
`msg_tx` with it. -/
def next (b : Bridge) (callbackGone : Bool) : BridgeEvent → Option Bridge
  | .spawnWrite =>
    if b.main = .bridged then some { b with main := .writing, writer := .receiving } else none
  | .spawnRead =>
    if b.main = .writing then some { b with main := .ready, reader := .receiving } else none
  | .sink text =>
    match b.writer, b.queue with
    | .receiving, t :: rest =>
      if text = t then some { b with writer := .sending, queue := rest } else none
    | _, _ => none
  | .sinkOk => if b.writer = .sending then some { b with writer := .receiving } else none
  | .sinkErr =>
    if b.writer = .sending then some { b with writer := .ended, queue := [] } else none
  | .writeEnd =>
    if b.writer = .receiving ∧ b.queue = [] ∧ callbackGone = true then
      some { b with writer := .ended }
    else none
  | .flushed =>
    if b.main = .flushing then some { b with main := .returned, aborted := true } else none
  | .readCancelled =>
    if b.aborted = true ∧ b.reader = .receiving then some { b with reader := .ended } else none

end Bridge

/-- A server and its WebSocket bridges. -/
structure Axum where
  server : World
  bridges : PartialMap ConnId Bridge

namespace Axum

def new (config : ServerConfig) : Axum where
  server := .new config
  bridges := PartialMap.empty

/-- The drain task of `c` is over, and its callback dropped. -/
def callbackGone (a : Axum) (c : ConnId) : Bool :=
  (a.server.conns c).any fun k => k.drain = .ended

end Axum

/-- What happens in a server with its bridges. -/
inductive AxumEvent where
  | server (e : Event)
  | bridge (c : ConnId) (e : BridgeEvent)
  deriving DecidableEq

/-- The event is a step of `handle_ws` or of one of its tasks. -/
def Event.ofBridge : Event → Bool
  | .create _ | .conn _ _ | .runReturned _ => true
  | _ => false

/-- The steps of a server with its bridges. -/
inductive AxumStep (serde : SerdeJson) : Axum → AxumEvent → Axum → Prop where
  | create {a : Axum} {c : ConnId} {w' : World} (hs : Step serde a.server (.create c) w') :
      AxumStep serde a (.server (.create c))
        { server := w', bridges := a.bridges.insert c .new }
  | conn {a : Axum} {c : ConnId} {e : ConnEvent} {k : Connection} {b b' : Bridge} {w' : World}
      (hs : Step serde a.server (.conn c e) w') (hk : a.server.conns c = some k)
      (hb : a.bridges c = some b) (hn : b.onConn k.phase.listening e = some b') :
      AxumStep serde a (.server (.conn c e))
        { server := w', bridges := a.bridges.insert c b' }
  | runReturned {a : Axum} {c : ConnId} {b : Bridge} {w' : World}
      (hs : Step serde a.server (.runReturned c) w') (hb : a.bridges c = some b)
      (hm : b.main = .running) :
      AxumStep serde a (.server (.runReturned c))
        { server := w', bridges := a.bridges.insert c { b with main := .flushing } }
  | server {a : Axum} {e : Event} {w' : World} (he : e.ofBridge = false)
      (hs : Step serde a.server e w') :
      AxumStep serde a (.server e) { a with server := w' }
  | bridge {a : Axum} {c : ConnId} {e : BridgeEvent} {b b' : Bridge}
      (hb : a.bridges c = some b) (hn : b.next (a.callbackGone c) e = some b') :
      AxumStep serde a (.bridge c e) { a with bridges := a.bridges.insert c b' }

/-- The runs of an axum server made with `config`. -/
abbrev AxumRun (serde : SerdeJson) (config : ServerConfig) (tr : List AxumEvent) (a : Axum) :
    Prop :=
  Lts.Run (AxumStep serde) (Axum.new config) tr a

/-! ### The run of the server -/

def AxumEvent.toServer : AxumEvent → Option Event
  | .server e => some e
  | .bridge _ _ => none

/-- What happened in the server. -/
abbrev serverEvents (tr : List AxumEvent) : List Event := Lts.record AxumEvent.toServer tr

section

variable {serde : SerdeJson} {config : ServerConfig} {tr : List AxumEvent} {a a' : Axum}

theorem mem_serverEvents {e : Event} : e ∈ serverEvents tr ↔ .server e ∈ tr := by
  rw [serverEvents, Lts.mem_record]
  constructor
  · rintro ⟨e', he', he⟩
    cases e' with
    | server _ => cases he; exact he'
    | bridge _ _ => cases he
  · exact fun h => ⟨_, h, rfl⟩

theorem serverEvents_server (tr : List AxumEvent) (e : Event) :
    serverEvents (tr ++ [AxumEvent.server e]) = serverEvents tr ++ [e] :=
  Lts.record_snoc_of_some rfl

theorem serverEvents_bridge (tr : List AxumEvent) (c : ConnId) (e : BridgeEvent) :
    serverEvents (tr ++ [AxumEvent.bridge c e]) = serverEvents tr := Lts.record_snoc_of_none rfl

/-- A step of the bridged server is one of the server, or leaves it alone. -/
theorem AxumStep.toServer {e : AxumEvent} (h : AxumStep serde a e a') :
    (∃ e', e = .server e' ∧ Step serde a.server e' a'.server) ∨
      (∃ c be, e = .bridge c be) ∧ a'.server = a.server := by
  cases h with
  | create hs => exact .inl ⟨_, rfl, hs⟩
  | conn hs _ _ _ => exact .inl ⟨_, rfl, hs⟩
  | runReturned hs _ _ => exact .inl ⟨_, rfl, hs⟩
  | server _ hs => exact .inl ⟨_, rfl, hs⟩
  | bridge _ _ => exact .inr ⟨⟨_, _, rfl⟩, rfl⟩

/-- **A run with bridges is a run of the server.** -/
theorem serverRun (h : AxumRun serde config tr a) :
    ServerRun serde config (serverEvents tr) a.server := by
  obtain ⟨w, hrun, rfl⟩ : ∃ w, ServerRun serde config (serverEvents tr) w ∧ a.server = w :=
    h.simulate AxumEvent.toServer (fun a w => a.server = w) (fun _ => True)
    (fun _ _ => trivial) (fun {a w e a'} hR _ _ h => by
      subst hR
      rcases h.toServer with ⟨e', rfl, hs⟩ | ⟨⟨c, be, rfl⟩, heq⟩
      · exact ⟨a'.server, hs, rfl⟩
      · exact heq)
    rfl
  exact hrun

/-! ### One bridge and its connection -/

/-- What an event makes of a connection and its bridge. -/
inductive Bridge.Move (serde : SerdeJson) (a : Axum) (c : ConnId) (b : Bridge) (k : Connection) :
    AxumEvent → Bridge → Connection → Prop where
  | conn {e : ConnEvent} {b' : Bridge} {k' : Connection}
      (hs : Connection.Step serde a.server.state.config k e k')
      (hn : b.onConn k.phase.listening e = some b') : Move serde a c b k (.server (.conn c e)) b' k'
  | runReturned {s : Option String} (hm : b.main = .running) (hp : k.phase = .joining s)
      (hd : k.drain = .ended) :
      Move serde a c b k (.server (.runReturned c)) { b with main := .flushing }
        { k with phase := .done s }
  | server {e : Event} {k' : Connection} (he : ∀ ce, e ≠ .conn c ce) (hr : e ≠ .runReturned c)
      (hm : Connection.Move serde a.server c k e k') : Move serde a c b k (.server e) b k'
  | bridge {e : BridgeEvent} {b' : Bridge} (hn : b.next (decide (k.drain = .ended)) e = some b') :
      Move serde a c b k (.bridge c e) b' k
  | other {c' : ConnId} {e : BridgeEvent} (hc : c' ≠ c) : Move serde a c b k (.bridge c' e) b k

/-- A connection and its bridge stay, and make one move. -/
theorem AxumStep.move {e : AxumEvent} (h : AxumStep serde a e a') (hw : a.server.Wf) {c : ConnId}
    {b : Bridge} {k : Connection} (hb : a.bridges c = some b) (hk : a.server.conns c = some k) :
    ∃ b' k', a'.bridges c = some b' ∧ a'.server.conns c = some k' ∧
      Bridge.Move serde a c b k e b' k' := by
  cases h with
  | @create c' w' hs =>
      obtain ⟨k', hk', hm⟩ := hs.move hw.fresh hw.closesOthers hk
      have hne : c ≠ c' := by
        rintro rfl
        cases hs with
        | create => rw [hw.fresh _ (Nat.le_refl _)] at hk; cases hk
      exact ⟨b, k', (PartialMap.insert_other hne).trans hb, hk', .server (by simp) (by simp) hm⟩
  | @conn c' ce k₁ b₁ b₂ w' hs hk₁ hb₁ hn =>
      by_cases hc : c' = c
      · subst hc
        cases hk₁.symm.trans hk
        cases hb₁.symm.trans hb
        obtain ⟨k₂, k', hk₂, hstep, hk'⟩ := hs.conn_inv
        cases hk₂.symm.trans hk
        exact ⟨b₂, k', PartialMap.insert_same .., hk', .conn hstep hn⟩
      · obtain ⟨k', hk', hm⟩ := hs.move hw.fresh hw.closesOthers hk
        exact ⟨b, k', (PartialMap.insert_other (Ne.symm hc)).trans hb, hk',
          .server (by simp [hc]) (by simp) hm⟩
  | @runReturned c' b₁ w' hs hb₁ hm₁ =>
      obtain ⟨k', hk', hm⟩ := hs.move hw.fresh hw.closesOthers hk
      by_cases hc : c' = c
      · subst hc
        cases hb₁.symm.trans hb
        cases hm with
        | runReturned hp hd =>
            exact ⟨_, _, PartialMap.insert_same .., hk', .runReturned hm₁ hp hd⟩
        | other hno => exact absurd rfl hno
      · exact ⟨b, k', (PartialMap.insert_other (Ne.symm hc)).trans hb, hk',
          .server (by simp) (by simp [hc]) hm⟩
  | server he hs =>
      obtain ⟨k', hk', hm⟩ := hs.move hw.fresh hw.closesOthers hk
      exact ⟨b, k', hb, hk', .server (fun ce h => by subst h; cases he)
        (fun h => by subst h; cases he) hm⟩
  | @bridge c' be b₁ b₂ hb₁ hn =>
      by_cases hc : c' = c
      · subst hc
        cases hb₁.symm.trans hb
        refine ⟨b₂, k, PartialMap.insert_same .., hk, .bridge ?_⟩
        rwa [Axum.callbackGone, hk] at hn
      · exact ⟨b, k, (PartialMap.insert_other (Ne.symm hc)).trans hb, hk, .other hc⟩

/-- **Invariants of one connection, its bridge and their history.** -/
theorem bridge_invariant {c : ConnId} (P : List AxumEvent → Bridge → Connection → Prop)
    (hnew : ∀ {tr}, (∀ e ∈ serverEvents tr, ¬ e.ConcernsConn c) → (∀ be, .bridge c be ∉ tr) →
      P (tr ++ [AxumEvent.server (.create c)]) .new .new)
    (hmove : ∀ {tr a b k e a' b' k'}, AxumRun serde config tr a → a.bridges c = some b →
      a.server.conns c = some k → P tr b k → AxumStep serde a e a' →
      Bridge.Move serde a c b k e b' k' → P (tr ++ [e]) b' k')
    (h : AxumRun serde config tr a) :
    (a.server.conns c = none ∧ a.bridges c = none ∧ ∀ be, .bridge c be ∉ tr) ∨
      ∃ b k, a.bridges c = some b ∧ a.server.conns c = some k ∧ P tr b k := by
  refine h.invariant (fun tr a => (a.server.conns c = none ∧ a.bridges c = none ∧
    ∀ be, .bridge c be ∉ tr) ∨
      ∃ b k, a.bridges c = some b ∧ a.server.conns c = some k ∧ P tr b k)
    (.inl ⟨rfl, rfl, by simp⟩) fun {tr a e a'} hr ih hs => ?_
  have hw := wf_of_run (serverRun hr)
  rcases ih with ⟨hk, hb, hno⟩ | ⟨b, k, hb, hk, hP⟩
  · -- without a connection, only its creation concerns it
    have absent : ∀ {e' w'}, Step serde a.server e' w' → e' ≠ .create c → w'.conns c = none :=
      fun hs hne => Option.eq_none_iff_forall_ne_some.mpr fun k' hk' => by
        rcases hs.move_inv hw.fresh hw.closesOthers hk' with ⟨-, he, -⟩ | ⟨k, hk', -⟩
        · exact hne he
        · rw [hk] at hk'; cases hk'
    have hno' : (∀ be, e ≠ .bridge c be) → ∀ be, .bridge c be ∉ tr ++ [e] := by
      intro he be hmem
      rcases List.mem_append.mp hmem with hmem | hmem
      · exact hno be hmem
      · exact he be (List.mem_singleton.mp hmem).symm
    cases hs with
    | @create c' w' hs =>
        by_cases hc : c' = c
        · subst hc
          refine .inr ⟨.new, .new, PartialMap.insert_same .., ?_,
            hnew (not_concerns_of_absent (serverRun hr) hk) hno⟩
          cases hs with
          | create => exact World.setConn_conns_same
        · exact .inl ⟨absent hs (by simp [hc]), (PartialMap.insert_other (Ne.symm hc)).trans hb,
            hno' (by simp)⟩
    | @conn c' _ _ _ _ _ hs _ hb' _ | @runReturned c' _ _ hs hb' _ =>
        have hc : c ≠ c' := by
          rintro rfl
          rw [hb] at hb'; cases hb'
        exact .inl ⟨absent hs (by simp), (PartialMap.insert_other hc).trans hb, hno' (by simp)⟩
    | server he hs =>
        exact .inl ⟨absent hs (fun h => by subst h; cases he), hb, hno' (by simp)⟩
    | @bridge c' _ _ _ hb' _ =>
        have hc : c ≠ c' := by
          rintro rfl
          rw [hb] at hb'; cases hb'
        exact .inl ⟨hk, (PartialMap.insert_other hc).trans hb, hno' (by simp [Ne.symm hc])⟩
  · obtain ⟨b', k', hb', hk', hm⟩ := hs.move hw hb hk
    exact .inr ⟨b', k', hb', hk', hmove hr hb hk hP hs hm⟩

/-! ### Running the model -/

/-- The state an event leads to, where it can be computed. -/
def Axum.exec (serde : SerdeJson) (a : Axum) : AxumEvent → Option Axum
  | .server (.create c) => do
    return { server := ← a.server.exec serde (.create c), bridges := a.bridges.insert c .new }
  | .server (.conn c e) => do
    let k ← a.server.conns c
    let b ← a.bridges c
    let b' ← b.onConn k.phase.listening e
    return { server := ← a.server.exec serde (.conn c e), bridges := a.bridges.insert c b' }
  | .server (.runReturned c) => do
    let b ← a.bridges c
    let w' ← a.server.exec serde (.runReturned c)
    if b.main = .running then
      return { server := w', bridges := a.bridges.insert c { b with main := .flushing } }
    else none
  | .server e => do return { a with server := ← a.server.exec serde e }
  | .bridge c e => do
    let b ← a.bridges c
    return { a with bridges := a.bridges.insert c (← b.next (a.callbackGone c) e) }

theorem Axum.exec_sound {e : AxumEvent} (h : a.exec serde e = some a') :
    AxumStep serde a e a' := by
  have free : ∀ {e : Event}, e.ofBridge = false →
      ((a.server.exec serde e).bind fun w' => some { a with server := w' }) = some a' →
      AxumStep serde a (.server e) a' := by
    intro _ he h
    obtain ⟨w', hs, h⟩ := Option.bind_eq_some_iff.mp h
    cases h
    exact .server he (World.exec_sound hs)
  cases e with
  | bridge c e =>
      obtain ⟨b, hb, h⟩ := Option.bind_eq_some_iff.mp h
      obtain ⟨b', hn, h⟩ := Option.bind_eq_some_iff.mp h
      cases h
      exact .bridge hb hn
  | server e =>
      cases e with
      | create c =>
          obtain ⟨w', hs, h⟩ := Option.bind_eq_some_iff.mp h
          cases h
          exact .create (World.exec_sound hs)
      | conn c e =>
          obtain ⟨k, hk, h⟩ := Option.bind_eq_some_iff.mp h
          obtain ⟨b, hb, h⟩ := Option.bind_eq_some_iff.mp h
          obtain ⟨b', hn, h⟩ := Option.bind_eq_some_iff.mp h
          obtain ⟨w', hs, h⟩ := Option.bind_eq_some_iff.mp h
          cases h
          exact .conn (World.exec_sound hs) hk hb hn
      | runReturned c =>
          obtain ⟨b, hb, h⟩ := Option.bind_eq_some_iff.mp h
          obtain ⟨w', hs, h⟩ := Option.bind_eq_some_iff.mp h
          obtain ⟨hm, h⟩ := Option.ite_none_right_eq_some.mp h
          cases h
          exact .runReturned (World.exec_sound hs) hb hm
      | _ => exact free rfl h

/-- A run of the bridged server, from a history that can be run. -/
theorem exists_axumRun {tr : List AxumEvent}
    (h : (Lts.execAll (Axum.exec serde) (Axum.new config) tr).isSome) :
    ∃ a, AxumRun serde config tr a := by
  obtain ⟨a, ha⟩ := Option.isSome_iff_exists.mp h
  exact ⟨a, .of_execAll Axum.exec_sound ha⟩

end

end Outpunch
