import Outpunch.Library.Runs
import Outpunch.Server.Connection

/-!
# Server — the server and its tasks

The whole core: the shared state, the connections, and the calls of `dispatch` in progress.
`Step` interleaves their tasks at the suspension points of the source; a step under the server's
lock is one of the critical sections of `ServerState`.  The adapter may call what it likes when it
likes, a client may push any text, every timer may fire at any time, and the future of a
`dispatch` may be dropped wherever it is suspended (`cancel`).

Request ids are taken as pairwise distinct, so a request id names its dispatch.
-/

namespace Outpunch

/-- Where a `dispatch` stands. -/
inductive DispatchPhase where
  /-- Before the block that looks the service up. -/
  | locking
  /-- In `exchange`, at `outgoing_tx.send(json)`. -/
  | sending (outgoingTx : OutgoingTx)
  /-- In `exchange`, at `resp_rx.await`. -/
  | waiting (outgoingTx : OutgoingTx)
  /-- `exchange` is over with an error; before the block that removes the entry. -/
  | failed (outgoingTx : OutgoingTx) (err : TunnelError)
  /-- Over. -/
  | returned (result : Except TunnelError TunnelResponse)
  /-- Its future was dropped. -/
  | cancelled

namespace DispatchPhase

/-- The clone of a connection's sender it holds. -/
def outgoingTx : DispatchPhase → Option OutgoingTx
  | .sending tx | .waiting tx | .failed tx _ => some tx
  | _ => none

/-- `resp_rx` is alive and its entry parked. -/
def receiving : DispatchPhase → Bool
  | .sending _ | .waiting _ => true
  | _ => false

/-- It has neither returned nor been dropped. -/
def running : DispatchPhase → Bool
  | .returned _ | .cancelled => false
  | _ => true

end DispatchPhase

/-- A call of `dispatch`. -/
structure Dispatch where
  req : TunnelRequest
  json : String
  /-- What the oneshot channel holds. -/
  resp : Option TunnelResponse
  phase : DispatchPhase

/-- `pending.tx.send(response)`: lost when the receiver is gone. -/
def Dispatch.answer (response : TunnelResponse) (d : Dispatch) : Dispatch :=
  if d.phase.receiving then { d with resp := some response } else d

/-- `OutpunchServer`, its connections, and its dispatches. -/
structure World where
  state : ServerState
  nextConnId : ConnId
  conns : PartialMap ConnId Connection
  dispatches : PartialMap RequestId Dispatch

/-- Who may hold a clone of a connection's `outgoing_tx`. -/
inductive Holder where
  /-- The connection's own `run`. -/
  | run
  /-- The handle registered for `service`. -/
  | registry (service : String)
  /-- A dispatch. -/
  | dispatch (q : RequestId)
  /-- A connection that has registered and still holds the handle it replaced. -/
  | replacing (c : ConnId)

namespace World

/-- A server just made. -/
def new (config : ServerConfig) : World where
  state := .new config
  nextConnId := 1
  conns := PartialMap.empty
  dispatches := PartialMap.empty

def setConn (w : World) (c : ConnId) (k : Connection) : World :=
  { w with conns := w.conns.insert c k }

def setDispatch (w : World) (q : RequestId) (d : Dispatch) : World :=
  { w with dispatches := w.dispatches.insert q d }

/-- The dispatches after a send on the oneshot channel a claim gave, if it gave one. -/
def answered (w : World) (response : TunnelResponse) :
    Option ResponseTx → PartialMap RequestId Dispatch
  | some tx => w.dispatches.modify tx (Dispatch.answer response)
  | none => w.dispatches

/-- `h` holds a clone of the `outgoing_tx` of `c`. -/
def Holds (w : World) (c : ConnId) : Holder → Prop
  | .run => ∃ k, w.conns c = some k ∧ k.phase.holdsOutgoing
  | .registry service => ∃ h, w.state.services service = some h ∧ h.outgoingTx = c
  | .dispatch q => ∃ d, w.dispatches q = some d ∧ d.phase.outgoingTx = some c
  | .replacing c' => ∃ k service h,
      w.conns c' = some k ∧ k.phase = .registered service (some h) ∧ h.outgoingTx = c

/-- The sender of the oneshot channel of `q` is in the pending map: it was neither used nor
dropped. -/
def SenderParked (w : World) (q : RequestId) : Prop :=
  ∃ id p, w.state.pending id = some p ∧ p.tx = q

end World

/-- What happens in the server. -/
inductive Event where
  /-- `create_connection`. -/
  | create (c : ConnId)
  /-- A step of one connection. -/
  | conn (c : ConnId) (e : ConnEvent)
  /-- `run` of `c` inserts its handle. -/
  | register (c : ConnId) (service : String)
  /-- `run` of `c` closes the connection it replaced. -/
  | closeReplaced (c old : ConnId)
  /-- The relay loop of `c` has handled a response; `tx` is the dispatch it answered. -/
  | respond (c : ConnId) (m : Pushed) (response : TunnelResponse) (tx : Option ResponseTx)
  /-- `run` of `c` executes `cleanup_connection`. -/
  | cleanup (c : ConnId) (service : String)
  /-- The drain task of `c` finds the channel closed. -/
  | drainEnd (c : ConnId)
  /-- `run` of `c` returns. -/
  | runReturned (c : ConnId)
  /-- `handle_request` or `try_handle_request` is called and generates `q`. -/
  | request (q : RequestId) (incoming : IncomingRequest)
  /-- `dispatch` parks `q` under `c` and clones the sender `tx`. -/
  | assign (q : RequestId) (c : ConnId) (tx : OutgoingTx)
  /-- The send of `dispatch` completes. -/
  | send (q : RequestId) (tx : OutgoingTx) (json : String)
  /-- `exchange` ends with an error, or the timer around it fires. -/
  | fail (q : RequestId) (err : TunnelError)
  /-- `dispatch` returns. -/
  | ret (q : RequestId) (result : Except TunnelError TunnelResponse)
  /-- The future of `dispatch` is dropped. -/
  | cancel (q : RequestId)
  deriving DecidableEq

/-- The steps of the server. -/
inductive Step (serde : SerdeJson) : World → Event → World → Prop where
  | create {w : World} :
      Step serde w (.create w.nextConnId)
        { w.setConn w.nextConnId .new with nextConnId := w.nextConnId + 1 }
  | conn {w : World} {c : ConnId} {k k' : Connection} {e : ConnEvent} (hk : w.conns c = some k)
      (hs : Connection.Step serde w.state.config k e k') :
      Step serde w (.conn c e) (w.setConn c k')
  | register {w : World} {c : ConnId} {k : Connection} {service : String}
      (hk : w.conns c = some k) (hp : k.phase = .register service) :
      Step serde w (.register c service)
        { w.setConn c { k with phase := .registered service (w.state.services service) } with
          state := (w.state.register service { connId := c, outgoingTx := c, connection := c }).2 }
  | closeReplaced {w : World} {c old : ConnId} {k : Connection} {service : String}
      (hk : w.conns c = some k) (hp : k.phase = .closing service old) :
      Step serde w (.closeReplaced c old)
        { w with
          conns := (w.conns.insert c { k with phase := .relay service }).modify old
            fun k => { k with incomingTx := false } }
  | respond {w : World} {c : ConnId} {k : Connection} {service : String} {m : Pushed}
      {response : TunnelResponse} (hk : w.conns c = some k)
      (hp : k.phase = .respond service m response) :
      Step serde w (.respond c m response (w.state.claim c response.requestId).1)
        { w.setConn c { k with phase := .relay service } with
          state := (w.state.claim c response.requestId).2
          dispatches := w.answered response (w.state.claim c response.requestId).1 }
  | cleanup {w : World} {c : ConnId} {k : Connection} {service : String}
      (hk : w.conns c = some k) (hp : k.phase = .cleanup service) :
      Step serde w (.cleanup c service)
        { w.setConn c { k with phase := .leaving (some service) } with
          state := w.state.cleanupConnection service c }
  | drainEnd {w : World} {c : ConnId} {k : Connection} {callback : Bool}
      (hk : w.conns c = some k) (hd : k.drain = .running callback) (ho : k.outgoing = [])
      (hh : ∀ h, ¬ w.Holds c h) :
      Step serde w (.drainEnd c) (w.setConn c { k with drain := .ended })
  | runReturned {w : World} {c : ConnId} {k : Connection} {service : Option String}
      (hk : w.conns c = some k) (hp : k.phase = .joining service) (hd : k.drain = .ended) :
      Step serde w (.runReturned c) (w.setConn c { k with phase := .done service })
  | request {w : World} {q : RequestId} {incoming : IncomingRequest}
      (hq : w.dispatches q = none) :
      Step serde w (.request q incoming)
        (w.setDispatch q {
          req := buildTunnelRequest q incoming
          json := serializeRequest serde (buildTunnelRequest q incoming)
          resp := none
          phase := .locking })
  | notConnected {w : World} {q : RequestId} {d : Dispatch} (hq : w.dispatches q = some d)
      (hp : d.phase = .locking) (hs : w.state.park d.req.service d.req.requestId q = none) :
      Step serde w (.ret q (.error .notConnected))
        (w.setDispatch q { d with phase := .returned (.error .notConnected) })
  | assign {w : World} {q : RequestId} {d : Dispatch} {handle : ServiceHandle} {st : ServerState}
      (hq : w.dispatches q = some d) (hp : d.phase = .locking)
      (hs : w.state.park d.req.service d.req.requestId q = some (handle, st)) :
      Step serde w (.assign q handle.connId handle.outgoingTx)
        { w.setDispatch q { d with phase := .sending handle.outgoingTx } with state := st }
  | send {w : World} {q : RequestId} {d : Dispatch} {tx : OutgoingTx} {k : Connection}
      (hq : w.dispatches q = some d) (hp : d.phase = .sending tx) (hk : w.conns tx = some k)
      (hs : k.canSend) :
      Step serde w (.send q tx d.json)
        ((w.setConn tx { k with outgoing := k.outgoing ++ [d.json] }).setDispatch q
          { d with phase := .waiting tx })
  | connectionLost {w : World} {q : RequestId} {d : Dispatch} {tx : OutgoingTx} {k : Connection}
      (hq : w.dispatches q = some d) (hp : d.phase = .sending tx) (hk : w.conns tx = some k)
      (hd : k.drain = .ended) :
      Step serde w (.fail q .connectionLost)
        (w.setDispatch q { d with phase := .failed tx .connectionLost })
  | answered {w : World} {q : RequestId} {d : Dispatch} {tx : OutgoingTx}
      {response : TunnelResponse} (hq : w.dispatches q = some d) (hp : d.phase = .waiting tx)
      (hr : d.resp = some response) :
      Step serde w (.ret q (.ok response))
        (w.setDispatch q { d with phase := .returned (.ok response) })
  | disconnected {w : World} {q : RequestId} {d : Dispatch} {tx : OutgoingTx}
      (hq : w.dispatches q = some d) (hp : d.phase = .waiting tx) (hr : d.resp = none)
      (hs : ¬ w.SenderParked q) :
      Step serde w (.fail q .disconnected)
        (w.setDispatch q { d with phase := .failed tx .disconnected })
  | timeout {w : World} {q : RequestId} {d : Dispatch} {tx : OutgoingTx}
      (hq : w.dispatches q = some d) (hp : d.phase = .sending tx ∨ d.phase = .waiting tx) :
      Step serde w (.fail q .timeout)
        (w.setDispatch q { d with phase := .failed tx .timeout })
  | failed {w : World} {q : RequestId} {d : Dispatch} {tx : OutgoingTx} {err : TunnelError}
      (hq : w.dispatches q = some d) (hp : d.phase = .failed tx err) :
      Step serde w (.ret q (.error err))
        { w.setDispatch q { d with phase := .returned (.error err) } with
          state := w.state.unpark d.req.requestId }
  | cancel {w : World} {q : RequestId} {d : Dispatch} (hq : w.dispatches q = some d)
      (hp : d.phase.running) :
      Step serde w (.cancel q) (w.setDispatch q { d with phase := .cancelled })

/-- The runs of a server made with `config`. -/
abbrev ServerRun (serde : SerdeJson) (config : ServerConfig) (tr : List Event) (w : World) :
    Prop :=
  Lts.Run (Step serde) (World.new config) tr w

end Outpunch
