import Outpunch.Axum.Bridge
import Outpunch.Client.Session

/-!
# Tunnel — server, WebSockets and clients

The whole: an axum server, and for each connection a WebSocket to its peer, which is a session of
the tunnel client or an unknown peer.  A WebSocket is two queues; a text enters one when it is
passed to a send, and leaves it when the other side receives it.  A WebSocket that breaks is one
whose sides stop: any receive may yield an error or the end of the stream, any send may fail, and
what is still in the queues is lost with it.
-/

namespace Outpunch

/-- A WebSocket: the texts on their way to the client, and to the server. -/
structure Link where
  down : List String
  up : List String

inductive LinkEvent where
  | putDown (text : String)
  | takeDown (text : String)
  | putUp (text : String)
  | takeUp (text : String)

namespace Link

def new : Link where
  down := []
  up := []

def next (l : Link) : LinkEvent → Option Link
  | .putDown text => some { l with down := l.down ++ [text] }
  | .putUp text => some { l with up := l.up ++ [text] }
  | .takeDown text =>
    match l.down with
    | t :: rest => if text = t then some { l with down := rest } else none
    | [] => none
  | .takeUp text =>
    match l.up with
    | t :: rest => if text = t then some { l with up := rest } else none
    | [] => none

end Link

/-- What an event of the server does to a WebSocket. -/
def AxumEvent.onLink : AxumEvent → Option (ConnId × LinkEvent)
  | .bridge c (.sink text) => some (c, .putDown text)
  | .server (.conn c (.push m)) => some (c, .takeUp m.text)
  | .server (.conn c (.pushClosed text)) => some (c, .takeUp text)
  | _ => none

/-- What an event of the client does to its WebSocket. -/
def ClientEvent.onLink (serde : SerdeJson) : ClientEvent → Option LinkEvent
  | .authSend text => some (.putUp text)
  | .respond response => some (.putUp (serializeResponse serde response))
  | .authRecv (some (.ok (.text text))) | .recv (some (.ok (.text text))) => some (.takeDown text)
  | _ => none

structure Tunnel where
  axum : Axum
  links : PartialMap ConnId Link
  /-- The sessions of the tunnel client; the peer of another connection is unknown. -/
  sessions : PartialMap ConnId Session

namespace Tunnel

def new (config : ServerConfig) : Tunnel where
  axum := .new config
  links := PartialMap.empty
  sessions := PartialMap.empty

/-- The WebSockets after an event of one of them, if there is one. -/
def linked (t : Tunnel) : Option (ConnId × LinkEvent) → Option (PartialMap ConnId Link)
  | none => some t.links
  | some (c, e) => do
    let l ← t.links c
    return t.links.insert c (← l.next e)

end Tunnel

inductive TunnelEvent where
  /-- A peer connects: a session of the tunnel client, or an unknown one. -/
  | accept (c : ConnId) (client : Option ClientConfig)
  | axum (e : AxumEvent)
  | client (c : ConnId) (e : ClientEvent)
  /-- An unknown peer sends a text. -/
  | foreign (c : ConnId) (text : String)
  deriving DecidableEq

/-- The steps of the tunnel. -/
inductive TunnelStep (serde : SerdeJson) (encode : List UInt8 → String) :
    Tunnel → TunnelEvent → Tunnel → Prop where
  | accept {t : Tunnel} {c : ConnId} {client : Option ClientConfig} {a' : Axum}
      (hs : AxumStep serde t.axum (.server (.create c)) a') :
      TunnelStep serde encode t (.accept c client)
        { axum := a'
          links := t.links.insert c .new
          sessions := (client.map fun config => t.sessions.insert c (.new config)).getD t.sessions }
  | axum {t : Tunnel} {e : AxumEvent} {a' : Axum} {links' : PartialMap ConnId Link}
      (hc : ∀ c, e ≠ .server (.create c)) (hs : AxumStep serde t.axum e a')
      (hl : t.linked e.onLink = some links') :
      TunnelStep serde encode t (.axum e) { t with axum := a', links := links' }
  | client {t : Tunnel} {c : ConnId} {e : ClientEvent} {s s' : Session}
      {links' : PartialMap ConnId Link} (hs : t.sessions c = some s)
      (hn : s.next serde encode e = some s')
      (hl : t.linked ((e.onLink serde).map fun le => (c, le)) = some links') :
      TunnelStep serde encode t (.client c e)
        { t with sessions := t.sessions.insert c s', links := links' }
  | foreign {t : Tunnel} {c : ConnId} {text : String} {links' : PartialMap ConnId Link}
      (hs : t.sessions c = none) (hl : t.linked (some (c, .putUp text)) = some links') :
      TunnelStep serde encode t (.foreign c text) { t with links := links' }

abbrev TunnelRun (serde : SerdeJson) (encode : List UInt8 → String) (config : ServerConfig)
    (tr : List TunnelEvent) (t : Tunnel) : Prop :=
  Lts.Run (TunnelStep serde encode) (Tunnel.new config) tr t

/-! ### The run of the server -/

def TunnelEvent.toAxum : TunnelEvent → Option AxumEvent
  | .accept c _ => some (.server (.create c))
  | .axum e => some e
  | _ => none

/-- What happened in the axum server. -/
abbrev axumEvents (tr : List TunnelEvent) : List AxumEvent := Lts.record TunnelEvent.toAxum tr

section

variable {serde : SerdeJson} {encode : List UInt8 → String} {config : ServerConfig}
  {tr : List TunnelEvent} {t t' : Tunnel}

/-- **A run of the tunnel is a run of the axum server.** -/
theorem axumRun (h : TunnelRun serde encode config tr t) :
    AxumRun serde config (axumEvents tr) t.axum := by
  obtain ⟨a, hrun, rfl⟩ : ∃ a, AxumRun serde config (axumEvents tr) a ∧ t.axum = a :=
    h.simulate TunnelEvent.toAxum (fun t a => t.axum = a) (fun _ => True)
    (fun _ _ => trivial) (fun {t a e t'} hR _ _ hs => by
      subst hR
      cases hs with
      | accept hs => exact ⟨_, hs, rfl⟩
      | axum _ hs _ => exact ⟨_, hs, rfl⟩
      | client _ _ _ => exact rfl
      | foreign _ _ => exact rfl)
    rfl
  exact hrun

/-- What happened in the server of a tunnel. -/
abbrev coreEvents (tr : List TunnelEvent) : List Event := serverEvents (axumEvents tr)

theorem mem_axumEvents {e : AxumEvent} (he : ∀ c, e ≠ .server (.create c)) :
    e ∈ axumEvents tr ↔ .axum e ∈ tr := by
  rw [axumEvents, Lts.mem_record]
  constructor
  · rintro ⟨e', he', heq⟩
    cases e' with
    | accept c client => exact absurd (Option.some.inj heq).symm (he c)
    | axum _ => cases heq; exact he'
    | client _ _ | foreign _ _ => cases heq
  · exact fun h => ⟨_, h, rfl⟩

theorem mem_coreEvents {e : Event} (he : ∀ c, e ≠ .create c) :
    e ∈ coreEvents tr ↔ .axum (.server e) ∈ tr := by
  rw [mem_serverEvents, mem_axumEvents fun c h => he c (AxumEvent.server.inj h)]

theorem coreEvents_snoc_of_some {e : TunnelEvent} {e' : AxumEvent} (he : e.toAxum = some e') :
    coreEvents (tr ++ [e]) = serverEvents (axumEvents tr ++ [e']) :=
  congrArg serverEvents (Lts.record_snoc_of_some he)

theorem coreEvents_snoc_of_none {e : TunnelEvent} (he : e.toAxum = none) :
    coreEvents (tr ++ [e]) = coreEvents tr :=
  congrArg serverEvents (Lts.record_snoc_of_none he)

theorem coreEvents_server (tr : List TunnelEvent) (e : Event) :
    coreEvents (tr ++ [TunnelEvent.axum (.server e)]) = coreEvents tr ++ [e] :=
  (coreEvents_snoc_of_some rfl).trans (serverEvents_server ..)

theorem coreEvents_bridge (tr : List TunnelEvent) (c : ConnId) (e : BridgeEvent) :
    coreEvents (tr ++ [TunnelEvent.axum (.bridge c e)]) = coreEvents tr :=
  (coreEvents_snoc_of_some rfl).trans (serverEvents_bridge ..)

/-- A step of the tunnel is one of its server, or leaves it alone. -/
theorem TunnelStep.toServer {e : TunnelEvent} (h : TunnelStep serde encode t e t') :
    (∃ e', coreEvents (tr ++ [e]) = coreEvents tr ++ [e'] ∧
        Step serde t.axum.server e' t'.axum.server) ∨
      coreEvents (tr ++ [e]) = coreEvents tr ∧ t'.axum.server = t.axum.server := by
  cases h with
  | accept hs =>
      rcases hs.toServer with ⟨e', heq, hstep⟩ | ⟨⟨_, _, heq⟩, -⟩
      · cases heq
        exact .inl ⟨_, (coreEvents_snoc_of_some rfl).trans (serverEvents_server ..), hstep⟩
      · cases heq
  | axum _ hs _ =>
      rcases hs.toServer with ⟨e', rfl, hstep⟩ | ⟨⟨c, be, rfl⟩, hsame⟩
      · exact .inl ⟨e', coreEvents_server tr e', hstep⟩
      · exact .inr ⟨coreEvents_bridge tr c be, hsame⟩
  | client _ _ _ | foreign _ _ => exact .inr ⟨coreEvents_snoc_of_none rfl, rfl⟩

/-! ### Running the model -/

/-- The state an event leads to, where it can be computed. -/
def Tunnel.exec (serde : SerdeJson) (encode : List UInt8 → String) (t : Tunnel) :
    TunnelEvent → Option Tunnel
  | .accept c client => do
    return {
      axum := ← t.axum.exec serde (.server (.create c))
      links := t.links.insert c .new
      sessions := (client.map fun config => t.sessions.insert c (.new config)).getD t.sessions }
  | .axum (.server (.create _)) => none
  | .axum e => do
    return { t with axum := ← t.axum.exec serde e, links := ← t.linked e.onLink }
  | .client c e => do
    let s ← t.sessions c
    let s' ← s.next serde encode e
    return { t with
      sessions := t.sessions.insert c s'
      links := ← t.linked ((e.onLink serde).map fun le => (c, le)) }
  | .foreign c text =>
    match t.sessions c with
    | some _ => none
    | none => do return { t with links := ← t.linked (some (c, .putUp text)) }

theorem Tunnel.exec_sound {e : TunnelEvent} (h : t.exec serde encode e = some t') :
    TunnelStep serde encode t e t' := by
  have axum : ∀ {e : AxumEvent}, (∀ c, e ≠ .server (.create c)) →
      ((t.axum.exec serde e).bind fun a => (t.linked e.onLink).bind fun links =>
        some { t with axum := a, links }) = some t' → TunnelStep serde encode t (.axum e) t' :=
    fun he h => by
      obtain ⟨a, ha, h⟩ := Option.bind_eq_some_iff.mp h
      obtain ⟨links, hl, h⟩ := Option.bind_eq_some_iff.mp h
      cases h
      exact .axum he (Axum.exec_sound ha) hl
  cases e with
  | accept c client =>
      obtain ⟨a, ha, h⟩ := Option.bind_eq_some_iff.mp h
      cases h
      exact .accept (Axum.exec_sound ha)
  | axum e =>
      cases e with
      | bridge c e => exact axum (by simp) h
      | server e =>
          cases e with
          | create c => cases h
          | _ => exact axum (by simp) h
  | client c e =>
      obtain ⟨s, hs, h⟩ := Option.bind_eq_some_iff.mp h
      obtain ⟨s', hn, h⟩ := Option.bind_eq_some_iff.mp h
      obtain ⟨links, hl, h⟩ := Option.bind_eq_some_iff.mp h
      cases h
      exact .client hs hn hl
  | foreign c text =>
      simp only [Tunnel.exec] at h
      split at h
      · cases h
      · rename_i hs
        obtain ⟨links, hl, h⟩ := Option.bind_eq_some_iff.mp h
        cases h
        exact .foreign hs hl

/-- A run of the tunnel, from a history that can be run. -/
theorem exists_tunnelRun {tr : List TunnelEvent}
    (h : (Lts.execAll (Tunnel.exec serde encode) (Tunnel.new config) tr).isSome) :
    ∃ t, TunnelRun serde encode config tr t := by
  obtain ⟨t, ht⟩ := Option.isSome_iff_exists.mp h
  exact ⟨t, .of_execAll Tunnel.exec_sound ht⟩

end

/-! ### A session -/

def demoClient : ClientConfig where
  secret := demoConfig.secret
  service := "app"

/-- A text goes down the socket of `c`. -/
def goingDown (c : ConnId) (text : String) : List TunnelEvent :=
  [.axum (.server (.conn c (.deliver text))), .axum (.bridge c (.sink text)),
    .axum (.bridge c .sinkOk)]

/-- A text comes up the socket of `c`, as its message number `n`. -/
def comingUp (c : ConnId) (n : Nat) (text : String) : List TunnelEvent :=
  (pushing c n text).map fun e => .axum (.server e)

/-- The tunnel client connects as `c` and is registered; it has not yet received the reply. -/
def joining (c : ConnId) : List TunnelEvent :=
  let text := Session.authText compactJson demoClient
  [TunnelEvent.accept c (some demoClient), .client c (.authSend text), .client c .authSent,
    .axum (.server (.conn c .onMessage)), .axum (.bridge c .spawnWrite),
    .axum (.bridge c .spawnRead), .axum (.server (.conn c .run))] ++ comingUp c 0 text ++
  [TunnelEvent.axum (.server (.conn c (.authRecv { n := 0, text }))),
    .axum (.server (.conn c (.check (some "app")))),
    .axum (.server (.conn c (.reply (authOkText compactJson)))),
    .axum (.server (.register c "app")), .axum (.server (.conn c .upgrade))]

/-- The client of `c` receives the reply to its auth message. -/
def authenticating (c : ConnId) : List TunnelEvent :=
  goingDown c (authOkText compactJson) ++
    [TunnelEvent.client c (.authRecv (some (.ok (.text (authOkText compactJson)))))]

/-- The client of `c` receives a request, forwards it, and sends the response. -/
def forwarding (encode : List UInt8 → String) (c : ConnId) (n : Nat) (req : TunnelRequest)
    (result : HttpResult) : List TunnelEvent :=
  let response := forwardResponse encode req result
  goingDown c (serializeRequest compactJson req) ++
  [TunnelEvent.client c (.recv (some (.ok (.text (serializeRequest compactJson req))))),
    .client c (.forwarded req result), .client c (.respond response), .client c .sent] ++
  (answering compactJson c n response).map fun e => .axum (.server e)

/-- A response of the local service, without a body. -/
def demoResult : HttpResult := .ok { status := 200, headers := [], body := some [] }

/-- A client connects, and a request is forwarded to it. -/
def demoTunnel : List TunnelEvent :=
  joining 1 ++ authenticating 1 ++
    (dispatching compactJson 1 "q" demoRequest).map (fun e => .axum (.server e)) ++
    forwarding (fun _ => "") 1 1 (buildTunnelRequest "q" demoRequest) demoResult

end Outpunch
