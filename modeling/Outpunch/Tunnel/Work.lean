import Outpunch.Axum.Rest
import Outpunch.Tunnel.Sessions

/-!
# Tunnel — how much work a tunnel does

What a tunnel does by itself: the server and its handlers go on, the WebSockets carry what was
sent, and the clients take it and send what they have.  New peers, requests, answers of local
services, timers and failures come from outside.  Each such step lowers a rank, which counts the
work of the server and each text by how far it is from where it stays (`tunnel_rank_lt`).
-/

namespace Outpunch

variable {serde : SerdeJson} {encode : List UInt8 → String} {config : ServerConfig}
  {tr : List TunnelEvent} {t t' : Tunnel} {c : ConnId}

/-! ### Steps of the tunnel itself -/

/-- The read task of a handler takes a text from its socket. -/
def AxumEvent.takes : AxumEvent → Bool
  | .server (.conn _ (.push _)) | .server (.conn _ (.pushClosed _)) => true
  | _ => false

/-- A step the client takes by itself with what it has, or with a text it was sent. -/
def ClientEvent.own : ClientEvent → Bool
  | .authSend _ | .authSent | .joined | .respond _ | .sent => true
  | .authRecv (some (.ok (.text _))) | .recv (some (.ok (.text _))) => true
  | _ => false

/-- A step the tunnel takes by itself. -/
def TunnelEvent.own : TunnelEvent → Bool
  | .axum e => e.own || e.takes
  | .client _ e => e.own
  | .accept _ _ | .foreign _ _ => false

/-! ### Ranks -/

def WsMain.rank : WsMain → ℕ
  | .connected => 8
  | .bridged => 7
  | .writing => 5
  | .ready => 3
  | .running => 2
  | .flushing => 1
  | .returned => 0

def WriteTask.rank : WriteTask → ℕ
  | .sending => 2
  | .idle | .receiving => 1
  | .ended => 0

def ReadTask.rank : ReadTask → ℕ
  | .pushing _ => 2
  | .idle | .receiving => 1
  | .ended => 0

def Bridge.rank (b : Bridge) : ℕ :=
  b.main.rank + b.writer.rank + b.reader.rank + 3 * b.queue.length

/-- A text on its way down is taken; one on its way up is work for the server too. -/
def Link.rank (l : Link) : ℕ := l.down.length + 14 * l.up.length

def ClientPhase.rank : ClientPhase → ℕ
  | .connected => 16
  | .authSending | .sending => 1
  | .authWaiting | .running | .ended _ => 0

def Session.rank (s : Session) : ℕ := s.phase.rank + s.finished + 16 * s.responses.length

namespace Tunnel

/-- What is left to do at the socket of `c` and on its two sides. -/
def socketRank (t : Tunnel) (c : ConnId) : ℕ :=
  (t.axum.bridges c).elim 0 Bridge.rank + (t.links c).elim 0 Link.rank +
    (t.sessions c).elim 0 Session.rank

/-- What is left to do in a state a history led to. -/
def rank (tr : List TunnelEvent) (t : Tunnel) : ℕ :=
  4 * t.axum.server.rank (coreEvents tr) +
    ∑ c ∈ Finset.range t.axum.server.nextConnId, t.socketRank c

end Tunnel

/-! ### One socket -/

/-- A text the bridge writes is on the WebSocket. -/
def BridgeEvent.puts : BridgeEvent → ℕ
  | .sink _ => 1
  | _ => 0

/-- What an event of a WebSocket brings to its rank, and takes from it. -/
def LinkEvent.gain : LinkEvent → ℕ
  | .putDown _ => 1
  | .putUp _ => 14
  | .takeDown _ | .takeUp _ => 0

def LinkEvent.cost : LinkEvent → ℕ
  | .takeDown _ => 1
  | .takeUp _ => 14
  | .putDown _ | .putUp _ => 0

/-- A session has a connection. -/
theorem conn_of_session (h : TunnelRun serde encode config tr t) (hs : t.sessions c ≠ none) :
    t.axum.server.conns c ≠ none := by
  refine h.invariant (fun _ t => t.sessions c ≠ none → t.axum.server.conns c ≠ none)
    (fun hs => absurd rfl hs) (fun {tr t e t'} hr ih hstep hs' => ?_) hs
  have hw := wf_of_run (serverRun (axumRun hr))
  rcases hstep.sessions_inv hs' with hs | ⟨client, rfl⟩
  · exact hstep.conns_mono hw (ih hs)
  · exact (hstep.accept_inv hw).2

end Outpunch
