import Outpunch.Server.Step

/-!
# Server — running the model

`Connection.exec` and `World.exec` compute the state an event leads to, where it can happen; so a
history can be run (`Lts.execAll`).  What they compute is a step (`World.exec_sound`).  Two
events are left out, the end of a drain task and a dispatch that finds its oneshot sender dropped:
that no other task holds a channel's sender is a fact of all tasks at once.
-/

namespace Outpunch

namespace Connection

section

variable (serde : SerdeJson) (config : ServerConfig)

def exec (k : Connection) : ConnEvent → Option Connection
  | .onMessage => some { k with callback := true }
  | .push m =>
    if m.n = k.pushed ∧ k.incomingTx = true then
      some { k with pushed := k.pushed + 1, pushing := k.pushing ++ [m] }
    else none
  | .pushClosed _ => if k.incomingTx = false then some k else none
  | .sent m =>
    if m ∈ k.pushing ∧ k.phase.listening ∧ k.incoming.length < channelCapacity then
      some { k with pushing := k.pushing.erase m, incoming := k.incoming ++ [m] }
    else none
  | .gone m => if m ∈ k.pushing then some { k with pushing := k.pushing.erase m } else none
  | .close => some { k with incomingTx := false }
  | .run =>
    match k.phase with
    | .created => some { k with phase := .auth, drain := .running k.callback, callback := false }
    | _ => none
  | .authTimeout =>
    match k.phase with
    | .auth => some { k with phase := .reply (authErrorText serde "auth timeout") none }
    | _ => none
  | .authRecv m =>
    match k.phase, k.incoming with
    | .auth, m' :: rest =>
      if m' = m then some { k with incoming := rest, phase := authNext serde m.text } else none
    | _, _ => none
  | .authClosed =>
    match k.phase with
    | .auth =>
      if k.incoming = [] ∧ k.pushing = [] ∧ k.incomingTx = false then
        some { k with phase := .leaving none }
      else none
    | _ => none
  | .check s =>
    match k.phase with
    | .check msg =>
      if s = (if tokenValid config msg.token then some msg.service else none) then
        some { k with phase := checkNext serde config msg }
      else none
    | _ => none
  | .reply t =>
    match k.phase with
    | .reply text service =>
      if t = text ∧ k.outgoing.length < channelCapacity ∧ k.drain ≠ .ended then
        some { k with outgoing := k.outgoing ++ [text], phase := authReturned service }
      else none
    | _ => none
  | .replyLost =>
    match k.phase with
    | .reply _ service =>
      if k.drain = .ended then some { k with phase := authReturned service } else none
    | _ => none
  | .upgrade =>
    match k.phase with
    | .registered service replaced => some { k with phase := upgradeNext service replaced }
    | _ => none
  | .relayRecv m =>
    match k.phase, k.incoming with
    | .relay service, m' :: rest =>
      if m' = m then some { k with incoming := rest, phase := relayNext serde service m } else none
    | _, _ => none
  | .relayClosed =>
    match k.phase with
    | .relay service =>
      if k.incoming = [] ∧ k.pushing = [] ∧ k.incomingTx = false then
        some { k with phase := .cleanup service }
      else none
    | _ => none
  | .dropOutgoing =>
    match k.phase with
    | .leaving service => some { k with phase := .joining service }
    | _ => none
  | .deliver t =>
    match k.drain, k.outgoing with
    | .running true, text :: rest => if t = text then some { k with outgoing := rest } else none
    | _, _ => none
  | .discard t =>
    match k.drain, k.outgoing with
    | .running false, text :: rest => if t = text then some { k with outgoing := rest } else none
    | _, _ => none
  | .panic t =>
    match k.drain, k.outgoing with
    | .running true, text :: _ =>
      if t = text then some { k with outgoing := [], drain := .ended } else none
    | _, _ => none

end

variable {serde : SerdeJson} {config : ServerConfig}

theorem exec_sound {k k' : Connection} {e : ConnEvent} (h : k.exec serde config e = some k') :
    Step serde config k e k' := by
  cases e with
  | onMessage => cases h; exact .onMessage
  | push m =>
      obtain ⟨⟨hn, ho⟩, h⟩ := Option.ite_none_right_eq_some.mp h
      cases h; exact .push hn ho
  | pushClosed text =>
      obtain ⟨ho, h⟩ := Option.ite_none_right_eq_some.mp h
      cases h; exact .pushClosed ho
  | sent m =>
      obtain ⟨⟨hm, hl, hc⟩, h⟩ := Option.ite_none_right_eq_some.mp h
      cases h; exact .sent hm hl hc
  | gone m =>
      obtain ⟨hm, h⟩ := Option.ite_none_right_eq_some.mp h
      cases h; exact .gone hm
  | close => cases h; exact .close
  | run | authTimeout | upgrade | dropOutgoing =>
      simp only [exec] at h
      split at h
      · rename_i hp
        cases h
        constructor
        exact hp
      · cases h
  | authRecv m | relayRecv m =>
      simp only [exec] at h
      split at h
      · rename_i hp hi
        obtain ⟨rfl, hk⟩ := Option.ite_none_right_eq_some.mp h
        cases hk
        first | exact .authRecv hp hi | exact .relayRecv hp hi
      · cases h
  | authClosed | relayClosed =>
      simp only [exec] at h
      split at h
      · rename_i hp
        obtain ⟨hi, h⟩ := Option.ite_none_right_eq_some.mp h
        cases h
        first | exact .authClosed hp hi | exact .relayClosed hp hi
      · cases h
  | check service =>
      simp only [exec] at h
      split at h
      · rename_i hp
        obtain ⟨rfl, hk⟩ := Option.ite_none_right_eq_some.mp h
        cases hk; exact .check hp
      · cases h
  | reply text =>
      simp only [exec] at h
      split at h
      · rename_i hp
        obtain ⟨⟨rfl, hs⟩, hk⟩ := Option.ite_none_right_eq_some.mp h
        cases hk; exact .reply hp hs
      · cases h
  | replyLost =>
      simp only [exec] at h
      split at h
      · rename_i hp
        obtain ⟨hd, h⟩ := Option.ite_none_right_eq_some.mp h
        cases h; exact .replyLost hp hd
      · cases h
  | deliver text | discard text | panic text =>
      simp only [exec] at h
      split at h
      · rename_i hd ho
        obtain ⟨rfl, hk⟩ := Option.ite_none_right_eq_some.mp h
        cases hk
        constructor <;> assumption
      · cases h

end Connection

namespace World

section

variable (serde : SerdeJson)

def exec (w : World) : Event → Option World
  | .create c =>
    if c = w.nextConnId then
      some { w.setConn w.nextConnId .new with nextConnId := w.nextConnId + 1 }
    else none
  | .conn c e => do
    let k ← w.conns c
    return w.setConn c (← k.exec serde w.state.config e)
  | .register c s => do
    let k ← w.conns c
    match k.phase with
    | .register service =>
      if s = service then
        some { w.setConn c { k with phase := .registered service (w.state.services service) } with
          state := (w.state.register service { connId := c, outgoingTx := c, connection := c }).2 }
      else none
    | _ => none
  | .closeReplaced c old' => do
    let k ← w.conns c
    match k.phase with
    | .closing service old =>
      if old' = old then
        some { w with
          conns := (w.conns.insert c { k with phase := .relay service }).modify old
            fun k => { k with incomingTx := false } }
      else none
    | _ => none
  | .respond c m' response' tx => do
    let k ← w.conns c
    match k.phase with
    | .respond service m response =>
      if m' = m ∧ response' = response ∧ tx = (w.state.claim c response.requestId).1 then
        some { w.setConn c { k with phase := .relay service } with
          state := (w.state.claim c response.requestId).2
          dispatches := w.answered response (w.state.claim c response.requestId).1 }
      else none
    | _ => none
  | .cleanup c s => do
    let k ← w.conns c
    match k.phase with
    | .cleanup service =>
      if s = service then
        some { w.setConn c { k with phase := .leaving (some service) } with
          state := w.state.cleanupConnection service c }
      else none
    | _ => none
  | .drainEnd _ => none
  | .runReturned c => do
    let k ← w.conns c
    match k.phase with
    | .joining service =>
      if k.drain = .ended then some (w.setConn c { k with phase := .done service }) else none
    | _ => none
  | .request q incoming =>
    if (w.dispatches q).isNone then
      some (w.setDispatch q {
        req := buildTunnelRequest q incoming
        json := serializeRequest serde (buildTunnelRequest q incoming)
        resp := none
        phase := .locking })
    else none
  | .assign q c tx => do
    let d ← w.dispatches q
    match d.phase with
    | .locking =>
      let (handle, st) ← w.state.park d.req.service d.req.requestId q
      if c = handle.connId ∧ tx = handle.outgoingTx then
        some { w.setDispatch q { d with phase := .sending handle.outgoingTx } with state := st }
      else none
    | _ => none
  | .send q tx' json => do
    let d ← w.dispatches q
    match d.phase with
    | .sending tx =>
      let k ← w.conns tx
      if tx' = tx ∧ json = d.json ∧ k.outgoing.length < channelCapacity ∧ k.drain ≠ .ended then
        some ((w.setConn tx { k with outgoing := k.outgoing ++ [d.json] }).setDispatch q
          { d with phase := .waiting tx })
      else none
    | _ => none
  | .fail q err => do
    let d ← w.dispatches q
    match d.phase, err with
    | .sending tx, .timeout | .waiting tx, .timeout =>
      some (w.setDispatch q { d with phase := .failed tx .timeout })
    | .sending tx, .connectionLost =>
      let k ← w.conns tx
      if k.drain = .ended then
        some (w.setDispatch q { d with phase := .failed tx .connectionLost })
      else none
    | _, _ => none
  | .ret q result => do
    let d ← w.dispatches q
    match d.phase, result with
    | .locking, .error .notConnected =>
      if (w.state.park d.req.service d.req.requestId q).isNone then
        some (w.setDispatch q { d with phase := .returned (.error .notConnected) })
      else none
    | .waiting _, .ok response =>
      if d.resp = some response then
        some (w.setDispatch q { d with phase := .returned (.ok response) })
      else none
    | .failed _ err', .error err =>
      if err = err' then
        some { w.setDispatch q { d with phase := .returned (.error err) } with
          state := w.state.unpark d.req.requestId }
      else none
    | _, _ => none
  | .cancel q => do
    let d ← w.dispatches q
    if d.phase.running then some (w.setDispatch q { d with phase := .cancelled }) else none

end

variable {serde : SerdeJson}

theorem exec_sound {w w' : World} {e : Event} (h : w.exec serde e = some w') :
    Step serde w e w' := by
  cases e with
  | create c =>
      obtain ⟨rfl, hw⟩ := Option.ite_none_right_eq_some.mp h
      cases hw; exact .create
  | conn c e =>
      obtain ⟨k, hk, h⟩ := Option.bind_eq_some_iff.mp h
      obtain ⟨k', hk', h⟩ := Option.bind_eq_some_iff.mp h
      cases h; exact .conn hk (Connection.exec_sound hk')
  | register c s | cleanup c s =>
      obtain ⟨k, hk, h⟩ := Option.bind_eq_some_iff.mp h
      split at h
      · rename_i hp
        obtain ⟨rfl, hw⟩ := Option.ite_none_right_eq_some.mp h
        cases hw
        first | exact .register hk hp | exact .cleanup hk hp
      · cases h
  | closeReplaced c old =>
      obtain ⟨k, hk, h⟩ := Option.bind_eq_some_iff.mp h
      split at h
      · rename_i hp
        obtain ⟨rfl, hw⟩ := Option.ite_none_right_eq_some.mp h
        cases hw; exact .closeReplaced hk hp
      · cases h
  | respond c m response tx =>
      obtain ⟨k, hk, h⟩ := Option.bind_eq_some_iff.mp h
      split at h
      · rename_i hp
        obtain ⟨⟨rfl, rfl, rfl⟩, hw⟩ := Option.ite_none_right_eq_some.mp h
        cases hw; exact .respond hk hp
      · cases h
  | drainEnd c => cases h
  | runReturned c =>
      obtain ⟨k, hk, h⟩ := Option.bind_eq_some_iff.mp h
      split at h
      · rename_i hp
        obtain ⟨hd, hw⟩ := Option.ite_none_right_eq_some.mp h
        cases hw; exact .runReturned hk hp hd
      · cases h
  | request q incoming =>
      obtain ⟨hq, hw⟩ := Option.ite_none_right_eq_some.mp h
      cases hw; exact .request (Option.isNone_iff_eq_none.mp hq)
  | assign q c tx =>
      obtain ⟨d, hd, h⟩ := Option.bind_eq_some_iff.mp h
      split at h
      · rename_i hp
        obtain ⟨⟨handle, st⟩, hs, h⟩ := Option.bind_eq_some_iff.mp h
        obtain ⟨⟨rfl, rfl⟩, hw⟩ := Option.ite_none_right_eq_some.mp h
        cases hw; exact .assign hd hp hs
      · cases h
  | send q tx json =>
      obtain ⟨d, hd, h⟩ := Option.bind_eq_some_iff.mp h
      split at h
      · rename_i hp
        obtain ⟨k, hk, h⟩ := Option.bind_eq_some_iff.mp h
        obtain ⟨⟨rfl, rfl, hs⟩, hw⟩ := Option.ite_none_right_eq_some.mp h
        cases hw; exact .send hd hp hk hs
      · cases h
  | fail q err =>
      obtain ⟨d, hd, hw⟩ := Option.bind_eq_some_iff.mp h
      clear h
      split at hw
      · rename_i hp
        cases hw; exact .timeout hd (.inl hp)
      · rename_i hp
        cases hw; exact .timeout hd (.inr hp)
      · rename_i hp
        obtain ⟨k, hk, hw⟩ := Option.bind_eq_some_iff.mp hw
        obtain ⟨hdr, hw⟩ := Option.ite_none_right_eq_some.mp hw
        cases hw; exact .connectionLost hd hp hk hdr
      · cases hw
  | ret q result =>
      obtain ⟨d, hd, hw⟩ := Option.bind_eq_some_iff.mp h
      clear h
      split at hw
      · rename_i hp
        obtain ⟨hs, hw⟩ := Option.ite_none_right_eq_some.mp hw
        cases hw; exact .notConnected hd hp (Option.isNone_iff_eq_none.mp hs)
      · rename_i hp
        obtain ⟨hr, hw⟩ := Option.ite_none_right_eq_some.mp hw
        cases hw; exact .answered hd hp hr
      · rename_i hp
        obtain ⟨rfl, hw'⟩ := Option.ite_none_right_eq_some.mp hw
        cases hw'; exact .failed hd hp
      · cases hw
  | cancel q =>
      obtain ⟨d, hd, h⟩ := Option.bind_eq_some_iff.mp h
      obtain ⟨hp, hw⟩ := Option.ite_none_right_eq_some.mp h
      cases hw; exact .cancel hd hp

end World

/-! ### Histories to start from -/

section

variable (serde : SerdeJson) (config : ServerConfig)

/-- A message is pushed on `c`, as its call number `n`. -/
def pushing (c : ConnId) (n : Nat) (text : String) : List Event :=
  [.conn c (.push { n, text }), .conn c (.sent { n, text })]

/-- A client connects as `c` and sends the right token for `service`. -/
def handshake (c : ConnId) (service : String) : List Event :=
  let text := serde.toString
    (AuthMessage.toValue { msgType := "auth", token := config.secret, service })
  [Event.create c, .conn c .onMessage, .conn c .run] ++ pushing c 0 text ++
    [Event.conn c (.authRecv { n := 0, text }), .conn c (.check (some service)),
      .conn c (.reply (authOkText serde))]

/-- The server registers the first client for `service`. -/
def registration (c : ConnId) (service : String) : List Event :=
  handshake serde config c service ++ [Event.register c service, .conn c .upgrade]

/-- A request is sent to `c`. -/
def dispatching (c : ConnId) (q : RequestId) (incoming : IncomingRequest) : List Event :=
  [.request q incoming, .assign q c c,
    .send q c (serializeRequest serde (buildTunnelRequest q incoming))]

/-- `c` answers a request with its message number `n`. -/
def answering (c : ConnId) (n : Nat) (r : TunnelResponse) : List Event :=
  let text := serializeResponse serde r
  pushing c n text ++ [Event.conn c (.relayRecv { n, text }),
    .respond c { n, text } r (some r.requestId), .ret r.requestId (.ok r)]

end

/-- `c` is closed and cleaned up. -/
def closing (c : ConnId) (service : String) : List Event :=
  [.conn c .close, .conn c .relayClosed, .cleanup c service]

/-- A run of the server, from a history that can be run to a state that passes `p`. -/
theorem exists_run_to {serde : SerdeJson} {config : ServerConfig} {tr : List Event}
    (p : World → Bool) (h : (Lts.execAll (World.exec serde) (World.new config) tr).any p) :
    ∃ w, ServerRun serde config tr w ∧ p w :=
  Lts.exists_run_of_execAll World.exec_sound p h

/-- A run of the server, from a history that can be run. -/
theorem exists_run {serde : SerdeJson} {config : ServerConfig} {tr : List Event}
    (h : (Lts.execAll (World.exec serde) (World.new config) tr).isSome) :
    ∃ w, ServerRun serde config tr w := by
  obtain ⟨w, hw⟩ := Option.isSome_iff_exists.mp h
  exact ⟨w, .of_execAll World.exec_sound hw⟩

/-! ### A server to try things on -/

def demoConfig : ServerConfig where
  secret := "key"

def demoRequest : IncomingRequest where
  service := "app"
  method := "GET"
  path := "/"
  query := ∅
  headers := ∅
  body := none

/-- The answer of a client to the request `q`. -/
def demoResponse (q : RequestId) : TunnelResponse where
  msgType := "response"
  requestId := q
  status := 200
  headers := ∅
  body := some "ok"
  bodyEncoding := none

/-- A client registers, is sent the request `q`, and answers it. -/
def demoSession (q : RequestId) : List Event :=
  registration compactJson demoConfig 1 "app" ++ dispatching compactJson 1 q demoRequest ++
    answering compactJson 1 1 (demoResponse q)

example : (Lts.execAll (World.exec compactJson) (World.new demoConfig) (demoSession "q")).isSome :=
  by decide +kernel

end Outpunch
