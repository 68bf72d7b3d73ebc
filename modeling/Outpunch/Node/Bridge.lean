import Outpunch.Axum.Handler
import Outpunch.Server.Exec
import Outpunch.Server.Queues

/-!
# Node — the WebSocket bridge

The callback of `handleUpgrade` in the Node adapter, one `NodeBridge` for each connection, beside
the server.  The listener on `message` calls `pushMessage` and does not wait for it.  Each call is
a task of the runtime that begins at any later time, in any order, while `close()` takes effect at
once.  `message` fires for text and binary frames alike.

What the core connection receives is the text frames, in their order, as long as the tasks begin in
that order and before the connection is closed, and no binary frame comes (`node_relays`); and
whatever waits for its task is lost if the close comes first (`call_lost`).
-/

namespace Outpunch

/-- A frame of the WebSocket of a tunnel client. -/
inductive WsFrame where
  | text (text : String)
  | binary (data : List UInt8)
  /-- Ping or pong. -/
  | control
  deriving DecidableEq

namespace WsFrame

/-- `data.toString()`, where `message` fires for the frame. -/
def message : WsFrame → Option String
  | text t => some t
  | binary data => some (fromUtf8Lossy data)
  | control => none

/-- The payload of a text frame. -/
def payload : WsFrame → Option String
  | text t => some t
  | _ => none

end WsFrame

structure NodeBridge where
  /-- `onMessage` was called, and the listeners are set. -/
  ready : Bool
  /-- The calls of `pushMessage` whose tasks have not begun, in the order they were made. -/
  calls : List String
  /-- The `close` event came. -/
  closed : Bool
  deriving DecidableEq

namespace NodeBridge

def new : NodeBridge where
  ready := false
  calls := []
  closed := false

/-- The listener on `message`. -/
def arrive (b : NodeBridge) (f : WsFrame) : NodeBridge :=
  { b with calls := b.calls ++ f.message.toList }

/-- A task begins. -/
def begin (b : NodeBridge) (text : String) : Option NodeBridge :=
  if text ∈ b.calls then some { b with calls := b.calls.erase text } else none

/-- A bridge at an event of its connection; `listening` says that `incoming_rx` is alive. -/
def onConn (b : NodeBridge) (listening : Bool) : ConnEvent → Option NodeBridge
  | .onMessage => if b.ready = false then some { b with ready := true } else none
  | .run => if b.ready then some b else none
  | .push m => b.begin m.text
  | .pushClosed text => b.begin text
  -- the runtime does not drop its tasks
  | .gone _ => if listening = false then some b else none
  | .close => if b.ready ∧ b.closed = false then some { b with closed := true } else none
  -- the callback never panics
  | .panic _ => none
  | _ => some b

end NodeBridge

/-- A server and its WebSocket bridges. -/
structure Node where
  server : World
  bridges : PartialMap ConnId NodeBridge

def Node.new (config : ServerConfig) : Node where
  server := .new config
  bridges := PartialMap.empty

/-- What happens in a server with its bridges. -/
inductive NodeEvent where
  | server (e : Event)
  | frame (c : ConnId) (f : WsFrame)
  deriving DecidableEq

/-- The event concerns a bridge. -/
def Event.ofNodeBridge : Event → Bool
  | .create _ | .conn _ _ => true
  | _ => false

/-- The steps of a server with its bridges. -/
inductive NodeStep (serde : SerdeJson) : Node → NodeEvent → Node → Prop where
  | create {a : Node} {c : ConnId} {w' : World} (hs : Step serde a.server (.create c) w') :
      NodeStep serde a (.server (.create c))
        { server := w', bridges := a.bridges.insert c .new }
  | conn {a : Node} {c : ConnId} {e : ConnEvent} {k : Connection} {b b' : NodeBridge} {w' : World}
      (hs : Step serde a.server (.conn c e) w') (hk : a.server.conns c = some k)
      (hb : a.bridges c = some b) (hn : b.onConn k.phase.listening e = some b') :
      NodeStep serde a (.server (.conn c e))
        { server := w', bridges := a.bridges.insert c b' }
  | server {a : Node} {e : Event} {w' : World} (he : e.ofNodeBridge = false)
      (hs : Step serde a.server e w') : NodeStep serde a (.server e) { a with server := w' }
  | frame {a : Node} {c : ConnId} {f : WsFrame} {b : NodeBridge} (hb : a.bridges c = some b)
      (hr : b.ready) (hc : b.closed = false) :
      NodeStep serde a (.frame c f) { a with bridges := a.bridges.insert c (b.arrive f) }

/-- The runs of a Node server made with `config`. -/
abbrev NodeRun (serde : SerdeJson) (config : ServerConfig) (tr : List NodeEvent) (a : Node) :
    Prop :=
  Lts.Run (NodeStep serde) (Node.new config) tr a

/-! ### The run of the server -/

def NodeEvent.toServer : NodeEvent → Option Event
  | .server e => some e
  | .frame _ _ => none

section

variable (c : ConnId)

/-- The payload of a text frame that comes on `c`. -/
def NodeEvent.textOf : NodeEvent → Option String
  | .frame c' f => if c' = c then f.payload else none
  | _ => none

/-- The payloads of the text frames that came on `c`, in order. -/
abbrev textFrames (tr : List NodeEvent) : List String := Lts.record (NodeEvent.textOf c) tr

/-- What the core connection `c` received, in order. -/
def relayed (tr : List NodeEvent) : List String :=
  (arrived c (Lts.record NodeEvent.toServer tr)).map Pushed.text

end

section

variable {serde : SerdeJson} {config : ServerConfig} {tr : List NodeEvent} {a a' : Node}

/-- A step of the bridged server is one of the server, or leaves it alone. -/
theorem NodeStep.toServer {e : NodeEvent} (h : NodeStep serde a e a') :
    (∃ e', e = .server e' ∧ Step serde a.server e' a'.server) ∨
      (∃ c f, e = .frame c f) ∧ a'.server = a.server := by
  cases h with
  | create hs => exact .inl ⟨_, rfl, hs⟩
  | conn hs _ _ _ => exact .inl ⟨_, rfl, hs⟩
  | server _ hs => exact .inl ⟨_, rfl, hs⟩
  | frame _ _ _ => exact .inr ⟨⟨_, _, rfl⟩, rfl⟩

/-- **A run with bridges is a run of the server.** -/
theorem NodeRun.toServer (h : NodeRun serde config tr a) :
    ServerRun serde config (Lts.record NodeEvent.toServer tr) a.server := by
  obtain ⟨w, hrun, rfl⟩ : ∃ w, ServerRun serde config (Lts.record NodeEvent.toServer tr) w ∧
      a.server = w :=
    h.simulate NodeEvent.toServer (fun a w => a.server = w) (fun _ => True)
    (fun _ _ => trivial) (fun {a w e a'} hR _ _ h => by
      subst hR
      rcases h.toServer with ⟨e', rfl, hs⟩ | ⟨⟨c, f, rfl⟩, heq⟩
      · exact ⟨a'.server, hs, rfl⟩
      · exact heq)
    rfl
  exact hrun

/-! ### One bridge and its connection -/

/-- What an event makes of a connection and its bridge. -/
inductive NodeBridge.Move (serde : SerdeJson) (a : Node) (c : ConnId) (b : NodeBridge)
    (k : Connection) : NodeEvent → NodeBridge → Connection → Prop where
  | conn {e : ConnEvent} {b' : NodeBridge} {k' : Connection}
      (hs : Connection.Step serde a.server.state.config k e k')
      (hn : b.onConn k.phase.listening e = some b') : Move serde a c b k (.server (.conn c e)) b' k'
  | server {e : Event} {k' : Connection} (he : ∀ ce, e ≠ .conn c ce)
      (hm : Connection.Move serde a.server c k e k') : Move serde a c b k (.server e) b k'
  | frame {f : WsFrame} : Move serde a c b k (.frame c f) (b.arrive f) k
  | other {c' : ConnId} {f : WsFrame} (hc : c' ≠ c) : Move serde a c b k (.frame c' f) b k

/-- A connection and its bridge stay, and make one move. -/
theorem NodeStep.move {e : NodeEvent} (h : NodeStep serde a e a') (hw : a.server.Wf) {c : ConnId}
    {b : NodeBridge} {k : Connection} (hb : a.bridges c = some b)
    (hk : a.server.conns c = some k) :
    ∃ b' k', a'.bridges c = some b' ∧ a'.server.conns c = some k' ∧
      NodeBridge.Move serde a c b k e b' k' := by
  cases h with
  | @create c' w' hs =>
      obtain ⟨k', hk', hm⟩ := hs.move hw.fresh hw.closesOthers hk
      have hne : c ≠ c' := by
        rintro rfl
        cases hs with
        | create => rw [hw.fresh _ (Nat.le_refl _)] at hk; cases hk
      exact ⟨b, k', (PartialMap.insert_other hne).trans hb, hk', .server (by simp) hm⟩
  | @conn c' ce k₁ b₁ b₂ w' hs hk₁ hb₁ hn =>
      by_cases hc : c' = c
      · subst hc
        cases hk₁.symm.trans hk
        cases hb₁.symm.trans hb
        obtain ⟨k₂, k', hk₂, hstep, hk'⟩ := hs.conn_inv
        cases hk₂.symm.trans hk
        exact ⟨b₂, k', PartialMap.insert_same .., hk', .conn hstep hn⟩
      · obtain ⟨k', hk', hm⟩ := hs.move hw.fresh hw.closesOthers hk
        exact ⟨b, k', (PartialMap.insert_other (Ne.symm hc)).trans hb, hk',
          .server (by simp [hc]) hm⟩
  | server he hs =>
      obtain ⟨k', hk', hm⟩ := hs.move hw.fresh hw.closesOthers hk
      exact ⟨b, k', hb, hk', .server (fun ce h => by subst h; cases he) hm⟩
  | @frame c' f b₁ hb₁ hr hclosed =>
      by_cases hc : c' = c
      · subst hc
        cases hb₁.symm.trans hb
        exact ⟨_, k, PartialMap.insert_same .., hk, .frame⟩
      · exact ⟨b, k, (PartialMap.insert_other (Ne.symm hc)).trans hb, hk, .other hc⟩

/-! ### The order of the tasks -/

/-- Nothing goes wrong on `c` at this step: no binary frame comes, no task begins out of turn or
after the connection was closed, the sends complete in their order, and the core has not stopped
receiving. -/
def orderly (c : ConnId) (a : Node) : NodeEvent → Bool
  | .frame c' (.binary _) => c' ≠ c
  | .server (.conn c' (.push m)) =>
    c' ≠ c || (a.bridges c).any fun b => b.calls.head? = some m.text
  | .server (.conn c' (.pushClosed _)) | .server (.conn c' (.gone _)) => c' ≠ c
  | .server (.conn c' (.sent m)) =>
    c' ≠ c || (a.server.conns c).any fun k => k.pushing.head? = some m
  | _ => true

/-- The runs that are orderly on `c`. -/
abbrev OrderlyRun (serde : SerdeJson) (config : ServerConfig) (c : ConnId) (tr : List NodeEvent)
    (a : Node) : Prop :=
  Lts.Run (Lts.guarded (NodeStep serde) fun a e => orderly c a e) (Node.new config) tr a

/-- What was received, what is being sent and what waits are the text frames, in order. -/
def InOrder (c : ConnId) (tr : List NodeEvent) (b : NodeBridge) (k : Connection) : Prop :=
  relayed c tr ++ (k.pushing.map Pushed.text ++ b.calls) = textFrames c tr

variable {c : ConnId}

theorem relayed_snoc (e : NodeEvent) :
    relayed c (tr ++ [e]) =
      relayed c tr ++ ((e.toServer.bind (Event.arrives c)).map Pushed.text).toList := by
  unfold relayed
  rw [Lts.record_snoc]
  cases e.toServer with
  | none => simp
  | some e' => cases h : e'.arrives c <;> simp [h]

theorem relayed_snoc_of_none {e : NodeEvent} (h : e.toServer.bind (Event.arrives c) = none) :
    relayed c (tr ++ [e]) = relayed c tr := by
  rw [relayed_snoc, h]
  exact List.append_nil _

/-- The queue of senders changes at a push, a send and its failure. -/
theorem Connection.Move.pushing_eq {w : World} {k k' : Connection} {e : Event}
    (h : Connection.Move serde w c k e k') (he : ∀ ce, e ≠ .conn c ce) :
    k'.pushing = k.pushing := by
  cases h with
  | own _ => exact absurd rfl (he _)
  | _ => rfl

theorem not_arrives {e : Event} (he : ∀ ce, e ≠ .conn c ce) : e.arrives c = none := by
  cases e with
  | conn c' ce =>
      have hc : c' ≠ c := by
        rintro rfl
        exact he ce rfl
      cases ce <;> first | exact if_neg hc | rfl
  | _ => rfl

theorem InOrder.conn {b b' : NodeBridge} {k k' : Connection} {ce : ConnEvent}
    (h : InOrder c tr b k) (hb : a.bridges c = some b) (hk : a.server.conns c = some k)
    (hok : orderly c a (.server (.conn c ce)))
    (hs : Connection.Step serde a.server.state.config k ce k')
    (hn : b.onConn k.phase.listening ce = some b') :
    InOrder c (tr ++ [NodeEvent.server (.conn c ce)]) b' k' := by
  have htexts : textFrames c (tr ++ [NodeEvent.server (.conn c ce)]) = textFrames c tr :=
    Lts.record_snoc_of_none rfl
  -- most events leave the calls and the senders alone
  have quiet : (Event.conn c ce).arrives c = none → b'.calls = b.calls → k'.pushing = k.pushing →
      InOrder c (tr ++ [NodeEvent.server (.conn c ce)]) b' k' := by
    intro ha hcalls hpush
    unfold InOrder at h ⊢
    rw [relayed_snoc_of_none (by exact ha), hcalls, hpush, htexts, h]
  cases hs with
  | @push m hm ho =>
      obtain ⟨hmem, hn⟩ := Option.ite_none_right_eq_some.mp hn
      cases hn
      have hhead : b.calls.head? = some m.text := by simpa [orderly, hb] using hok
      obtain ⟨rest, hcalls⟩ := List.head?_eq_some_iff.mp hhead
      unfold InOrder at h ⊢
      rw [relayed_snoc_of_none rfl, htexts, ← h, hcalls, List.erase_cons_head]
      simp
  | @sent m hm hl hcap =>
      cases hn
      have hhead : k.pushing.head? = some m := by simpa [orderly, hk] using hok
      obtain ⟨rest, hpush⟩ := List.head?_eq_some_iff.mp hhead
      unfold InOrder at h ⊢
      rw [relayed_snoc, htexts, ← h, hpush, List.erase_cons_head]
      simp [NodeEvent.toServer, Event.arrives]
  | pushClosed _ | gone _ => exact absurd hok (by simp [orderly])
  | onMessage =>
      obtain ⟨-, hn⟩ := Option.ite_none_right_eq_some.mp hn
      cases hn
      exact quiet rfl rfl rfl
  | run _ | close =>
      obtain ⟨-, hn⟩ := Option.ite_none_right_eq_some.mp hn
      cases hn
      exact quiet rfl rfl rfl
  | panic _ _ => cases hn
  | _ =>
      cases hn
      exact quiet rfl rfl rfl

theorem InOrder.move {b b' : NodeBridge} {k k' : Connection} {e : NodeEvent}
    (h : InOrder c tr b k) (hb : a.bridges c = some b) (hk : a.server.conns c = some k)
    (hok : orderly c a e) (hm : NodeBridge.Move serde a c b k e b' k') :
    InOrder c (tr ++ [e]) b' k' := by
  cases hm with
  | conn hs hn => exact h.conn hb hk hok hs hn
  | @server e _ he hm =>
      have htexts : textFrames c (tr ++ [NodeEvent.server e]) = textFrames c tr :=
        Lts.record_snoc_of_none rfl
      unfold InOrder at h ⊢
      rw [relayed_snoc_of_none (e := .server e) (not_arrives he), htexts, hm.pushing_eq he, h]
  | @frame f =>
      have hmessage : f.message = f.payload := by
        cases f with
        | binary data => exact absurd hok (by simp [orderly])
        | text _ | control => rfl
      have htexts : textFrames c (tr ++ [NodeEvent.frame c f]) =
          textFrames c tr ++ f.payload.toList := by
        rw [textFrames, Lts.record_snoc, NodeEvent.textOf, if_pos rfl]
      unfold InOrder at h ⊢
      rw [relayed_snoc_of_none rfl, htexts, ← h, NodeBridge.arrive, hmessage]
      simp
  | other hc =>
      have htexts : ∀ f, textFrames c (tr ++ [NodeEvent.frame _ f]) = textFrames c tr :=
        fun f => Lts.record_snoc_of_none (if_neg hc)
      unfold InOrder at h ⊢
      rw [relayed_snoc_of_none rfl, htexts, h]

/-- A connection that is not there has received nothing. -/
def Absent (c : ConnId) (tr : List NodeEvent) (a : Node) : Prop :=
  a.server.conns c = none ∧ a.bridges c = none ∧ relayed c tr = [] ∧ textFrames c tr = []

theorem Absent.step {e : NodeEvent} (h : Absent c tr a) (hw : a.server.Wf)
    (hs : NodeStep serde a e a') :
    Absent c (tr ++ [e]) a' ∨
      ∃ b k, a'.bridges c = some b ∧ a'.server.conns c = some k ∧ InOrder c (tr ++ [e]) b k := by
  obtain ⟨hk, hb, hrel, htexts⟩ := h
  have absent : ∀ {e' w'}, Step serde a.server e' w' → e' ≠ .create c → w'.conns c = none :=
    fun hs hne => Option.eq_none_iff_forall_ne_some.mpr fun k' hk' => by
      rcases hs.move_inv hw.fresh hw.closesOthers hk' with ⟨-, he, -⟩ | ⟨k, hk', -⟩
      · exact hne he
      · rw [hk] at hk'; cases hk'
  have hserver : ∀ e' : Event, (∀ ce, e' ≠ .conn c ce) →
      relayed c (tr ++ [NodeEvent.server e']) = [] ∧
        textFrames c (tr ++ [NodeEvent.server e']) = [] := by
    intro e' he
    rw [relayed_snoc_of_none (e := .server e') (not_arrives he), hrel]
    exact ⟨rfl, (Lts.record_snoc_of_none rfl).trans htexts⟩
  cases hs with
  | @create c' w' hs =>
      obtain ⟨hrel, htexts⟩ := hserver (.create c') (by simp)
      by_cases hc : c' = c
      · subst hc
        refine .inr ⟨.new, .new, PartialMap.insert_same .., ?_, ?_⟩
        · cases hs with
          | create => exact World.setConn_conns_same
        · rw [InOrder, hrel, htexts]
          rfl
      · exact .inl ⟨absent hs (by simp [hc]), (PartialMap.insert_other (Ne.symm hc)).trans hb,
          hrel, htexts⟩
  | @conn c' ce _ _ _ _ hs _ hb' _ =>
      have hc : c ≠ c' := by
        rintro rfl
        rw [hb] at hb'; cases hb'
      obtain ⟨hrel, htexts⟩ := hserver (.conn c' ce) (by simp [Ne.symm hc])
      exact .inl ⟨absent hs (by simp), (PartialMap.insert_other hc).trans hb, hrel, htexts⟩
  | @server e' _ he hs =>
      obtain ⟨hrel, htexts⟩ := hserver e' (fun ce h => by subst h; cases he)
      exact .inl ⟨absent hs (fun h => by subst h; cases he), hb, hrel, htexts⟩
  | @frame c' f _ hb' _ _ =>
      have hc : c ≠ c' := by
        rintro rfl
        rw [hb] at hb'; cases hb'
      have htexts' : textFrames c (tr ++ [NodeEvent.frame c' f]) = textFrames c tr :=
        Lts.record_snoc_of_none (if_neg (Ne.symm hc))
      refine .inl ⟨hk, (PartialMap.insert_other hc).trans hb, ?_, htexts'.trans htexts⟩
      rw [relayed_snoc_of_none rfl, hrel]

theorem inOrder_of_run (h : OrderlyRun serde config c tr a) :
    Absent c tr a ∨
      ∃ b k, a.bridges c = some b ∧ a.server.conns c = some k ∧ InOrder c tr b k := by
  refine h.invariant (fun tr a => Absent c tr a ∨
    ∃ b k, a.bridges c = some b ∧ a.server.conns c = some k ∧ InOrder c tr b k)
    (.inl ⟨rfl, rfl, rfl, rfl⟩) fun {tr a e a'} hr ih hs => ?_
  have hrun : NodeRun serde config tr a := hr.of_guarded
  have hw := wf_of_run hrun.toServer
  obtain ⟨hs, hok⟩ := hs
  rcases ih with ih | ⟨b, k, hb, hk, hord⟩
  · exact ih.step hw hs
  · obtain ⟨b', k', hb', hk', hm⟩ := hs.move hw hb hk
    exact .inr ⟨b', k', hb', hk', hord.move hb hk hok hm⟩

/-- No call of `pushMessage` on `c` is waiting or sending. -/
def Settled (c : ConnId) (a : Node) : Prop :=
  (∀ b, a.bridges c = some b → b.calls = []) ∧
    ∀ k, a.server.conns c = some k → k.pushing = []

/-- The core connection received text frames only, in their order, and all that came once no call
is left. -/
structure Relays (c : ConnId) (tr : List NodeEvent) (a : Node) : Prop where
  inOrder : (relayed c tr).IsPrefix (textFrames c tr)
  all : Settled c a → relayed c tr = textFrames c tr

/-- **The core receives exactly the text frames, in their order, in every run whose tasks begin in
order and before the connection is closed, and to which no binary frame comes.** -/
theorem node_relays (h : OrderlyRun serde config c tr a) :
    Relays c tr a := by
  rcases inOrder_of_run h with ⟨-, -, hrel, htexts⟩ | ⟨b, k, hb, hk, hord⟩
  · rw [← htexts] at hrel
    exact ⟨hrel ▸ List.prefix_refl _, fun _ => hrel⟩
  · refine ⟨⟨_, hord⟩, fun hset => ?_⟩
    have hcalls := hset.1 b hb
    have hpush := hset.2 k hk
    unfold InOrder at hord
    rw [hcalls, hpush] at hord
    simpa using hord

/-! ### Running the model -/

/-- The state an event leads to, where it can be computed. -/
def Node.exec (serde : SerdeJson) (a : Node) : NodeEvent → Option Node
  | .server (.create c) => do
    return { server := ← a.server.exec serde (.create c), bridges := a.bridges.insert c .new }
  | .server (.conn c e) => do
    let k ← a.server.conns c
    let b ← a.bridges c
    let b' ← b.onConn k.phase.listening e
    return { server := ← a.server.exec serde (.conn c e), bridges := a.bridges.insert c b' }
  | .server e => do return { a with server := ← a.server.exec serde e }
  | .frame c f => do
    let b ← a.bridges c
    if b.ready ∧ b.closed = false then
      return { a with bridges := a.bridges.insert c (b.arrive f) }
    else none

theorem Node.exec_sound {e : NodeEvent} (h : a.exec serde e = some a') :
    NodeStep serde a e a' := by
  have free : ∀ {e : Event}, e.ofNodeBridge = false →
      ((a.server.exec serde e).bind fun w' => some { a with server := w' }) = some a' →
      NodeStep serde a (.server e) a' := by
    intro _ he h
    obtain ⟨w', hs, h⟩ := Option.bind_eq_some_iff.mp h
    cases h
    exact .server he (World.exec_sound hs)
  cases e with
  | frame c f =>
      obtain ⟨b, hb, h⟩ := Option.bind_eq_some_iff.mp h
      obtain ⟨⟨hr, hc⟩, h⟩ := Option.ite_none_right_eq_some.mp h
      cases h
      exact .frame hb hr hc
  | server e =>
      cases e with
      | create c =>
          obtain ⟨w', hs, h⟩ := Option.bind_eq_some_iff.mp h
          cases h
          exact .create (World.exec_sound hs)
      | conn c e =>
          obtain ⟨k, hk, h⟩ := Option.bind_eq_some_iff.mp h
          obtain ⟨b, hb, h⟩ := Option.bind_eq_some_iff.mp h
          obtain ⟨b', hn, h⟩ := Option.bind_eq_some_iff.mp h
          obtain ⟨w', hs, h⟩ := Option.bind_eq_some_iff.mp h
          cases h
          exact .conn (World.exec_sound hs) hk hb hn
      | _ => exact free rfl h

/-- An orderly run, from a history that can be run and is orderly. -/
theorem exists_orderlyRun
    (h : (Lts.execAll (fun a e => if orderly c a e then a.exec serde e else none)
      (Node.new config) tr).isSome) : ∃ a, OrderlyRun serde config c tr a := by
  obtain ⟨a, ha⟩ := Option.isSome_iff_exists.mp h
  refine ⟨a, .of_execAll (fun h => ?_) ha⟩
  obtain ⟨hok, h⟩ := Option.ite_none_right_eq_some.mp h
  exact ⟨Node.exec_sound h, hok⟩

/-- **A call whose task has not begun is lost when the close comes first**, from any state. -/
theorem call_lost {b : NodeBridge} {k : Connection} {text : String} (hb : a.bridges c = some b)
    (hk : a.server.conns c = some k) (hr : b.ready) (hc : b.closed = false)
    (hcall : text ∈ b.calls) :
    ∃ a', Lts.Run (NodeStep serde) a
      [.server (.conn c .close), .server (.conn c (.pushClosed text))] a' := by
  have hclose : Step serde a.server (.conn c .close)
      (a.server.setConn c { k with incomingTx := false }) := .conn hk .close
  let a₁ : Node :=
    { server := a.server.setConn c { k with incomingTx := false }
      bridges := a.bridges.insert c { b with closed := true } }
  have h₁ : NodeStep serde a (.server (.conn c .close)) a₁ :=
    .conn hclose hk hb (if_pos ⟨hr, hc⟩)
  have hk₁ : a₁.server.conns c = some { k with incomingTx := false } := World.setConn_conns_same
  have hb₁ : a₁.bridges c = some { b with closed := true } := PartialMap.insert_same ..
  exact ⟨_, .snoc (.one h₁) (.conn (.conn hk₁ (.pushClosed rfl)) hk₁ hb₁ (if_pos hcall))⟩

/-- A client is registered through the bridge, is sent a request, and its answer comes as a
frame. -/
def nodeSession (q : RequestId) : List NodeEvent :=
  let session := (registration compactJson demoConfig 1 "app").map NodeEvent.server
  let text := compactJson.toString
    (AuthMessage.toValue { msgType := "auth", token := demoConfig.secret, service := "app" })
  session.take 3 ++ [.frame 1 (.text text)] ++ session.drop 3 ++
    (dispatching compactJson 1 q demoRequest).map .server ++
    [.frame 1 (.text (serializeResponse compactJson (demoResponse q)))]

/-- The answer begins its way in turn, and is received. -/
theorem node_relays_answer :
    let answer : Pushed := { n := 1, text := serializeResponse compactJson (demoResponse "q") }
    let tr := nodeSession "q" ++
      [.server (.conn 1 (.push answer)), .server (.conn 1 (.sent answer)), .server (.conn 1 .close)]
    ∃ a, OrderlyRun compactJson demoConfig 1 tr a ∧ Relays 1 tr a := by
  intro answer tr
  obtain ⟨a, h⟩ := @exists_orderlyRun compactJson demoConfig tr 1 (by decide +kernel)
  exact ⟨a, h, node_relays h⟩

/-- The close overtakes the answer to a request, which is lost. -/
theorem node_loses_answer :
    let text := serializeResponse compactJson (demoResponse "q")
    let tr := nodeSession "q" ++
      [.server (.conn 1 .close), .server (.conn 1 (.pushClosed text))]
    ∃ a, NodeRun compactJson demoConfig tr a ∧ Settled 1 a ∧ ¬ Relays 1 tr a := by
  intro text tr
  obtain ⟨a, h, hp⟩ := Lts.exists_run_of_execAll Node.exec_sound
    (fun a => (a.bridges 1).all (fun b => b.calls = []) &&
      (a.server.conns 1).all fun k => k.pushing = [])
    (show (Lts.execAll (Node.exec compactJson) (Node.new demoConfig) tr).any _ by decide +kernel)
  obtain ⟨hcalls, hpush⟩ := (Bool.and_eq_true _ _).mp hp
  have hset : Settled 1 a := by
    constructor
    · intro b hb
      simpa [hb] using hcalls
    · intro k hk
      simpa [hk] using hpush
  refine ⟨a, h, hset, fun hrel => ?_⟩
  have hall : relayed 1 tr = textFrames 1 tr := hrel.all hset
  exact absurd hall (by decide +kernel)

end

end Outpunch
