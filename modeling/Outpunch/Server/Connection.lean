import Outpunch.Server.State

/-!
# Server — one connection

A `Connection` and the steps that concern it alone: the adapter's calls (`on_message`,
`push_message`, `close`, `run`), the steps of `run()` outside the server's lock, and the drain
task.  `Phase` is where `run()` stands, with the local variables the rest of it reads; each
constructor of `Connection.Step` is what happens between two suspension points.

Both channels hold 64 messages.  A `push_message` call first clones the sender and then waits for
room (`pushing`), so a call that is under way keeps the incoming channel open after `close()`.
`n` in `Pushed` is the number of the call on its connection; it tells apart two messages with one
text.  `tokio` lets the timer and the message race, so `authTimeout` may fire at any time.
-/

namespace Outpunch

/-- The capacity of both channels of a connection. -/
def channelCapacity : Nat := 64

/-- A message a `push_message` call brought: the number of the call, and the text. -/
structure Pushed where
  n : Nat
  text : String
  deriving DecidableEq

/-- Where `Connection::run` stands. -/
inductive Phase where
  /-- `run()` has not been called; the channels lie in `run_state`. -/
  | created
  /-- In `handle_auth`, at `timeout(auth_timeout, incoming_rx.recv())`. -/
  | auth
  /-- In `handle_auth`, before the block that reads the secret. -/
  | check (msg : AuthMessage)
  /-- In `handle_auth`, at a send of its reply; `service` is what it will return. -/
  | reply (text : String) (service : Option String)
  /-- Before the block that registers the service. -/
  | register (service : String)
  /-- After it, with what `insert` gave back still held. -/
  | registered (service : String) (replaced : Option ServiceHandle)
  /-- The replaced handle is dropped; its connection, upgraded, is about to be closed. -/
  | closing (service : String) (old : WeakConnection)
  /-- In the relay loop, at `incoming_rx.recv()`. -/
  | relay (service : String)
  /-- In the relay loop, before the block that answers the request `response` names. -/
  | respond (service : String) (m : Pushed) (response : TunnelResponse)
  /-- Before `cleanup_connection`. -/
  | cleanup (service : String)
  /-- Before `drop(outgoing_tx)`; `service` is what `handle_auth` returned. -/
  | leaving (service : Option String)
  /-- At `drain_handle.await`. -/
  | joining (service : Option String)
  /-- `run()` has returned. -/
  | done (service : Option String)

namespace Phase

/-- The service this connection has registered for, if it has. -/
def registeredFor : Phase → Option String
  | .registered s _ | .closing s _ | .relay s | .respond s _ _ | .cleanup s => some s
  | .leaving s | .joining s | .done s => s
  | _ => none

/-- The service this connection has registered for and not yet cleaned up. -/
def serving : Phase → Option String
  | .registered s _ | .closing s _ | .relay s | .respond s _ _ | .cleanup s => some s
  | _ => none

/-- `run()` holds, directly or in `run_state`, the connection's own `outgoing_tx`. -/
def holdsOutgoing : Phase → Bool
  | .joining _ | .done _ => false
  | _ => true

/-- `incoming_rx` is alive: it is a local of `run()`, or still in `run_state`. -/
def listening : Phase → Bool
  | .done _ => false
  | _ => true

theorem registeredFor_of_serving {p : Phase} {s : String} (h : p.serving = some s) :
    p.registeredFor = some s := by
  cases p <;> simp_all [serving, registeredFor]

end Phase

/-- The task that hands outgoing messages to the callback. -/
inductive Drain where
  /-- Not spawned: `outgoing_rx` lies in `run_state`. -/
  | idle
  /-- Spawned, with or without a callback to call. -/
  | running (callback : Bool)
  /-- Over, `outgoing_rx` dropped. -/
  | ended
  deriving DecidableEq

structure Connection where
  /-- `incoming_tx` is `Some`: the connection was not closed. -/
  incomingTx : Bool
  /-- How many `push_message` calls got a clone of the sender. -/
  pushed : Nat
  /-- The calls that hold one and have not sent. -/
  pushing : List Pushed
  /-- What the incoming channel holds. -/
  incoming : List Pushed
  /-- `callback` is `Some`. -/
  callback : Bool
  /-- What the outgoing channel holds. -/
  outgoing : List String
  drain : Drain
  phase : Phase

namespace Connection

/-- A connection as `create_connection` makes it. -/
def new : Connection where
  incomingTx := true
  pushed := 0
  pushing := []
  incoming := []
  callback := false
  outgoing := []
  drain := .idle
  phase := .created

/-- `incoming_rx.recv()` returns `None`: nothing is queued, and every sender is gone. -/
def incomingEnded (k : Connection) : Prop :=
  k.incoming = [] ∧ k.pushing = [] ∧ k.incomingTx = false

/-- A send on the outgoing channel completes: there is room, and a receiver. -/
def canSend (k : Connection) : Prop :=
  k.outgoing.length < channelCapacity ∧ k.drain ≠ .ended

end Connection

/-- An event that concerns one connection alone. -/
inductive ConnEvent where
  /-- `on_message` is called. -/
  | onMessage
  /-- `push_message` is called, and clones the sender. -/
  | push (m : Pushed)
  /-- `push_message` is called on a closed connection, and returns. -/
  | pushClosed (text : String)
  /-- The send of a `push_message` call completes. -/
  | sent (m : Pushed)
  /-- A `push_message` call ends without sending: its future is dropped, or `incoming_rx` is. -/
  | gone (m : Pushed)
  /-- `close` is called. -/
  | close
  /-- `run` is called. -/
  | run
  /-- The auth timer fires. -/
  | authTimeout
  /-- `handle_auth` takes the first message. -/
  | authRecv (m : Pushed)
  /-- `handle_auth` finds the channel closed. -/
  | authClosed
  /-- The token is compared; the service name when it is right. -/
  | check (service : Option String)
  /-- A reply of `handle_auth` is queued. -/
  | reply (text : String)
  /-- A reply of `handle_auth` finds no receiver. -/
  | replyLost
  /-- The replaced handle is upgraded and dropped. -/
  | upgrade
  /-- The relay loop takes a message. -/
  | relayRecv (m : Pushed)
  /-- The relay loop ends. -/
  | relayClosed
  /-- `drop(outgoing_tx)`. -/
  | dropOutgoing
  /-- The drain task hands a message to the callback. -/
  | deliver (text : String)
  /-- The drain task takes a message and has no callback. -/
  | discard (text : String)
  /-- The drain task hands a message to the callback, which panics. -/
  | panic (text : String)
  deriving DecidableEq

namespace Connection

section

variable (serde : SerdeJson) (config : ServerConfig)

/-- What `handle_auth` does with the first message. -/
def authNext (raw : String) : Phase :=
  match parseMessage serde raw with
  | .ok (.auth msg) => .check msg
  | _ => .reply (authErrorText serde "expected auth message") none

/-- `valid`, in `handle_auth`. -/
def tokenValid (token : String) : Bool :=
  !config.secret.isEmpty && constantTimeEq token config.secret

/-- What `handle_auth` does after comparing the token. -/
def checkNext (msg : AuthMessage) : Phase :=
  if tokenValid config msg.token then .reply (authOkText serde) (some msg.service)
  else .reply (authErrorText serde "invalid token") none

/-- What `run` does with what `handle_auth` returned. -/
def authReturned : Option String → Phase
  | some service => .register service
  | none => .leaving none

/-- What `run` does with the handle `insert` gave back.  `upgrade` can fail only once `run` of
the replaced connection has returned; closing it then has no effect, so the model closes it in
any case. -/
def upgradeNext (service : String) : Option ServiceHandle → Phase
  | some handle => .closing service handle.connection
  | none => .relay service

/-- What the relay loop does with a message. -/
def relayNext (service : String) (m : Pushed) : Phase :=
  match parseMessage serde m.text with
  | .ok (.response response) => .respond service m response
  | _ => .relay service

/-- The steps of one connection. -/
inductive Step : Connection → ConnEvent → Connection → Prop where
  | onMessage {k : Connection} : Step k .onMessage { k with callback := true }
  | push {k : Connection} {m : Pushed} (hn : m.n = k.pushed) (ho : k.incomingTx = true) :
      Step k (.push m) { k with pushed := k.pushed + 1, pushing := k.pushing ++ [m] }
  | pushClosed {k : Connection} {text : String} (ho : k.incomingTx = false) :
      Step k (.pushClosed text) k
  | sent {k : Connection} {m : Pushed} (hm : m ∈ k.pushing) (hl : k.phase.listening)
      (hc : k.incoming.length < channelCapacity) :
      Step k (.sent m) { k with pushing := k.pushing.erase m, incoming := k.incoming ++ [m] }
  | gone {k : Connection} {m : Pushed} (hm : m ∈ k.pushing) :
      Step k (.gone m) { k with pushing := k.pushing.erase m }
  | close {k : Connection} : Step k .close { k with incomingTx := false }
  | run {k : Connection} (hp : k.phase = .created) :
      Step k .run { k with phase := .auth, drain := .running k.callback, callback := false }
  | authTimeout {k : Connection} (hp : k.phase = .auth) :
      Step k .authTimeout
        { k with phase := .reply (authErrorText serde "auth timeout") none }
  | authRecv {k : Connection} {m : Pushed} {rest : List Pushed} (hp : k.phase = .auth)
      (hi : k.incoming = m :: rest) :
      Step k (.authRecv m) { k with incoming := rest, phase := authNext serde m.text }
  | authClosed {k : Connection} (hp : k.phase = .auth) (hi : k.incomingEnded) :
      Step k .authClosed { k with phase := .leaving none }
  | check {k : Connection} {msg : AuthMessage} (hp : k.phase = .check msg) :
      Step k (.check (if tokenValid config msg.token then some msg.service else none))
        { k with phase := checkNext serde config msg }
  | reply {k : Connection} {text : String} {service : Option String}
      (hp : k.phase = .reply text service) (hs : k.canSend) :
      Step k (.reply text)
        { k with outgoing := k.outgoing ++ [text], phase := authReturned service }
  | replyLost {k : Connection} {text : String} {service : Option String}
      (hp : k.phase = .reply text service) (hd : k.drain = .ended) :
      Step k .replyLost { k with phase := authReturned service }
  | upgrade {k : Connection} {service : String} {replaced : Option ServiceHandle}
      (hp : k.phase = .registered service replaced) :
      Step k .upgrade { k with phase := upgradeNext service replaced }
  | relayRecv {k : Connection} {service : String} {m : Pushed} {rest : List Pushed}
      (hp : k.phase = .relay service) (hi : k.incoming = m :: rest) :
      Step k (.relayRecv m) { k with incoming := rest, phase := relayNext serde service m }
  | relayClosed {k : Connection} {service : String} (hp : k.phase = .relay service)
      (hi : k.incomingEnded) : Step k .relayClosed { k with phase := .cleanup service }
  | dropOutgoing {k : Connection} {service : Option String} (hp : k.phase = .leaving service) :
      Step k .dropOutgoing { k with phase := .joining service }
  | deliver {k : Connection} {text : String} {rest : List String} (hd : k.drain = .running true)
      (ho : k.outgoing = text :: rest) : Step k (.deliver text) { k with outgoing := rest }
  | discard {k : Connection} {text : String} {rest : List String} (hd : k.drain = .running false)
      (ho : k.outgoing = text :: rest) : Step k (.discard text) { k with outgoing := rest }
  | panic {k : Connection} {text : String} {rest : List String} (hd : k.drain = .running true)
      (ho : k.outgoing = text :: rest) :
      Step k (.panic text) { k with outgoing := [], drain := .ended }

end

/-! ### Where `run` may go -/

section

variable {serde : SerdeJson} {config : ServerConfig} {k k' : Connection} {e : ConnEvent}

theorem authNext_cases (raw : String) :
    (∃ msg, parseMessage serde raw = .ok (.auth msg) ∧ authNext serde raw = .check msg) ∨
      (∀ msg, parseMessage serde raw ≠ .ok (.auth msg)) ∧
        authNext serde raw = .reply (authErrorText serde "expected auth message") none := by
  unfold authNext
  split
  · rename_i msg h
    exact .inl ⟨msg, h, rfl⟩
  · rename_i h
    exact .inr ⟨h, rfl⟩

theorem relayNext_cases (service : String) (m : Pushed) :
    (∃ response, parseMessage serde m.text = .ok (.response response) ∧
        relayNext serde service m = .respond service m response) ∨
      (∀ response, parseMessage serde m.text ≠ .ok (.response response)) ∧
        relayNext serde service m = .relay service := by
  unfold relayNext
  split
  · rename_i response h
    exact .inl ⟨response, h, rfl⟩
  · rename_i h
    exact .inr ⟨h, rfl⟩

theorem tokenValid_iff {token : String} :
    tokenValid config token = true ↔ config.secret ≠ "" ∧ token = config.secret := by
  simp [tokenValid, constantTimeEq_iff]

end

end Connection

/-- The steps of `run`; the others are the adapter's and the drain task's. -/
def ConnEvent.ofRun : ConnEvent → Bool
  | .onMessage | .push _ | .pushClosed _ | .sent _ | .gone _ | .close | .deliver _ | .discard _
  | .panic _ => false
  | _ => true

/-- Where `run` stands before and after an event of its connection. -/
inductive Phase.Next (serde : SerdeJson) (config : ServerConfig) :
    Phase → ConnEvent → Phase → Prop where
  | stay {p : Phase} {e : ConnEvent} (he : e.ofRun = false) : Next serde config p e p
  | run : Next serde config .created .run .auth
  | authTimeout : Next serde config .auth .authTimeout
      (.reply (authErrorText serde "auth timeout") none)
  | authRecv {m : Pushed} {msg : AuthMessage} (hm : parseMessage serde m.text = .ok (.auth msg)) :
      Next serde config .auth (.authRecv m) (.check msg)
  | authReject {m : Pushed} (hm : ∀ msg, parseMessage serde m.text ≠ .ok (.auth msg)) :
      Next serde config .auth (.authRecv m)
        (.reply (authErrorText serde "expected auth message") none)
  | authClosed : Next serde config .auth .authClosed (.leaving none)
  | accept {msg : AuthMessage} (hv : Connection.tokenValid config msg.token) :
      Next serde config (.check msg) (.check (some msg.service))
        (.reply (authOkText serde) (some msg.service))
  | refuse {msg : AuthMessage} (hv : ¬ Connection.tokenValid config msg.token) :
      Next serde config (.check msg) (.check none)
        (.reply (authErrorText serde "invalid token") none)
  | replied {text s : String} {e : ConnEvent} (he : e = .reply text ∨ e = .replyLost) :
      Next serde config (.reply text (some s)) e (.register s)
  | refused {text : String} {e : ConnEvent} (he : e = .reply text ∨ e = .replyLost) :
      Next serde config (.reply text none) e (.leaving none)
  | displace {s : String} {h : ServiceHandle} :
      Next serde config (.registered s (some h)) .upgrade (.closing s h.connection)
  | first {s : String} : Next serde config (.registered s none) .upgrade (.relay s)
  | response {s : String} {m : Pushed} {r : TunnelResponse}
      (hm : parseMessage serde m.text = .ok (.response r)) :
      Next serde config (.relay s) (.relayRecv m) (.respond s m r)
  | ignore {s : String} {m : Pushed} (hm : ∀ r, parseMessage serde m.text ≠ .ok (.response r)) :
      Next serde config (.relay s) (.relayRecv m) (.relay s)
  | relayClosed {s : String} : Next serde config (.relay s) .relayClosed (.cleanup s)
  | dropOutgoing {s : Option String} :
      Next serde config (.leaving s) .dropOutgoing (.joining s)

namespace Connection

variable {serde : SerdeJson} {config : ServerConfig} {k k' : Connection} {e : ConnEvent}

theorem Step.next (h : Step serde config k e k') :
    Phase.Next serde config k.phase e k'.phase := by
  cases h with
  | run hp => rw [hp]; exact .run
  | authTimeout hp => rw [hp]; exact .authTimeout
  | authRecv hp _ =>
      rw [hp]
      rcases authNext_cases _ with ⟨msg, hm, e⟩ | ⟨hm, e⟩
      · dsimp only; rw [e]; exact .authRecv hm
      · dsimp only; rw [e]; exact .authReject hm
  | authClosed hp _ => rw [hp]; exact .authClosed
  | @check msg hp =>
      rw [hp]
      unfold checkNext
      by_cases hv : tokenValid config msg.token
      · rw [if_pos hv, if_pos hv]; exact .accept hv
      · rw [if_neg hv, if_neg hv]; exact .refuse hv
  | @reply _ service hp _ =>
      rw [hp]
      cases service with
      | none => exact .refused (.inl rfl)
      | some s => exact .replied (.inl rfl)
  | @replyLost _ service hp _ =>
      rw [hp]
      cases service with
      | none => exact .refused (.inr rfl)
      | some s => exact .replied (.inr rfl)
  | @upgrade _ replaced hp =>
      rw [hp]
      cases replaced with
      | none => exact .first
      | some h => exact .displace
  | relayRecv hp _ =>
      rw [hp]
      rcases relayNext_cases _ _ with ⟨r, hm, e⟩ | ⟨hm, e⟩
      · dsimp only; rw [e]; exact .response hm
      · dsimp only; rw [e]; exact .ignore hm
  | relayClosed hp _ => rw [hp]; exact .relayClosed
  | dropOutgoing hp => rw [hp]; exact .dropOutgoing
  | _ => exact .stay rfl

/-- A connection's own steps do not register it. -/
theorem Step.registeredFor (h : Step serde config k e k') :
    k'.phase.registeredFor = k.phase.registeredFor := by
  have hn := h.next
  generalize k.phase = p, k'.phase = p' at hn
  cases hn <;> rfl

/-- A connection's own steps neither register it nor clean it up. -/
theorem Step.serving (h : Step serde config k e k') : k'.phase.serving = k.phase.serving := by
  have hn := h.next
  generalize k.phase = p, k'.phase = p' at hn
  cases hn <;> rfl

end Connection

end Outpunch
