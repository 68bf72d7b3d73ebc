import Outpunch.Ruby.Runs

/-!
# Rack — the WebSocket bridge

`Outpunch::Rack::Connection`, one `RackBridge` for each native connection: the hijacked socket of a
tunnel client and its three threads.  `run` reads the socket, hands what the driver makes of it to
the handlers one by one, and in the end closes the native connection, joins the other two and closes
the socket; one thread is in `run` of the native connection; one writes what `next_outgoing` gives
and closes the socket when nothing more can come.

The driver and the socket are outside: what the driver calls its handlers with, and when it writes
to the socket, is left open.  What is written may be lost, as `write` rescues an `EPIPE`, an
`ECONNRESET` and an `IOError`; a write may take any time, and may raise something else.  The steps
of the process are those of `ProcessStep`; nothing but its bridge calls a native connection, and all
other events happen as they may.  Exceptions come out of native calls and of the socket only.
-/

namespace Outpunch

/-- What the driver does when it starts or parses: it calls its handlers, or writes. -/
inductive DriverEvent where
  /-- `:message`, of a text message. -/
  | text (text : String)
  /-- `:message`, of a binary one: an array, which `push_message` does not take. -/
  | binary
  | close
  | error (message : String)
  /-- It writes to the socket: the handshake, a pong or a close frame. -/
  | write
  deriving DecidableEq

def DriverEvent.payload : DriverEvent → Option String
  | .text t => some t
  | _ => none

/-- The texts among them. -/
def payloads (events : List DriverEvent) : List String := events.filterMap DriverEvent.payload

/-- What a thread of a bridge raises. -/
inductive RackError where
  /-- What a native method raised. -/
  | native (err : String)
  | taskFailed
  /-- The panic of a task. -/
  | panicked
  /-- `push_message` was given an array. -/
  | notText
  /-- `readpartial` raised what `run` does not rescue. -/
  | read (err : String)
  /-- A write to the socket raised what `write` does not rescue, or its close what `close_io` does
  not. -/
  | socket (err : String)
  deriving DecidableEq

/-- Where `run` stands. -/
inductive RackReader where
  /-- In `driver.start` or in `driver.parse`, with this to be done. -/
  | driver (starting : Bool) (events : List DriverEvent)
  /-- In the handler of a text, in the call `p` of `push_message`. -/
  | pushing (starting : Bool) (p : CallId) (events : List DriverEvent)
  /-- Before the thread of `write_loop` is made. -/
  | spawning
  /-- At `readpartial`. -/
  | reading
  /-- At `close` in the `ensure`, with what is raised at its end. -/
  | closing (err : Option RackError)
  | joiningCore (err : Option RackError)
  | joiningWriter (err : Option RackError)
  | closingIo (err : Option RackError)
  | ended (err : Option RackError)
  deriving DecidableEq

/-- Where the thread of the native `run` stands. -/
inductive RackCore where
  | absent
  | spawned
  /-- In its call `p`, or after it. -/
  | running (p : CallId)
  deriving DecidableEq

/-- Where `write_loop` stands. -/
inductive RackWriter where
  | absent
  /-- Before `next_outgoing`. -/
  | taking
  /-- In its call `p`. -/
  | waiting (p : CallId)
  /-- At `driver.text`. -/
  | writing (msg : String)
  /-- At `driver.close`. -/
  | closing
  | closingIo
  | ended (result : Except RackError Unit)
  deriving DecidableEq

structure RackBridge where
  reader : RackReader
  core : RackCore
  writer : RackWriter
  ioClosed : Bool

inductive RackBridgeEvent where
  /-- The handler of a text calls `push_message`. -/
  | push (p : CallId) (text : String)
  /-- The call is over. -/
  | pushed
  /-- The handler of a binary message raises. -/
  | refused
  | closeHandler
  | errorHandler
  /-- `write` returns to the driver, or raises. -/
  | written (raised : Option String)
  /-- The driver has started, and the thread of the native `run` is made. -/
  | spawnCore
  | spawnWriter
  /-- That thread calls `run`. -/
  | run (p : CallId)
  /-- `readpartial` gives a chunk, of which the driver calls these handlers. -/
  | read (events : List DriverEvent)
  | parsed
  /-- `readpartial` raises; `none` is what `run` rescues. -/
  | readRaised (err : Option String)
  | close
  | joinCore
  | joinWriter
  /-- `close_io` returns, or raises. -/
  | closeIo (raised : Option String)
  /-- `write_loop` calls `next_outgoing`. -/
  | next (p : CallId)
  /-- The call is over. -/
  | taken
  /-- `driver.text` returns, or raises. -/
  | handed (msg : String) (raised : Option String)
  /-- `driver.close` returns, or raises; it may have called the handler of `:close`. -/
  | closeFrame (handler : Bool) (raised : Option String)
  | writerCloseIo (raised : Option String)
  deriving DecidableEq

/-- What a native call gives its thread, once it is over. -/
def NativeCall.outcome (b : NativeCall) : Option (Except String NativeValue) :=
  match b.call.phase with
  | .returned value => some (.ok value)
  | .raised err => some (.error err)
  | _ => none

/-- What the call `p` has given its thread. -/
def RubyProcess.outcome (a : RubyProcess) (p : CallId) : Option (Except String NativeValue) :=
  (a.host.calls p).bind NativeCall.outcome

/-- How a call of `run` ends its thread. -/
def RunStage.thread : RunStage → Option (Except RackError Unit)
  | .ended (.ok ()) => some (.ok ())
  | .ended (.error (.raised err)) => some (.error (.native err))
  | .ended (.error .taskFailed) => some (.error .taskFailed)
  | .unwound => some (.error .panicked)
  | _ => none

/-- What the join of the thread gives, once it is over; one that was not made is not joined. -/
def RackCore.result (a : RubyProcess) : RackCore → Option (Except RackError Unit)
  | .absent => some (.ok ())
  | .spawned => none
  | .running p => (a.runs p).bind fun b => b.stage.thread

def RackWriter.result : RackWriter → Option (Except RackError Unit)
  | .absent => some (.ok ())
  | .ended result => some result
  | _ => none

namespace RackBridge

/-- `run` is called, and the driver started. -/
def new (events : List DriverEvent) : RackBridge where
  reader := .driver true events
  core := .absent
  writer := .absent
  ioClosed := false

/-- A join that raises leaves the `ensure`. -/
def joined (b : RackBridge) (next : RackReader) :
    Option (Except RackError Unit) → Option RackBridge
  | some (.ok ()) => some { b with reader := next }
  | some (.error err) => some { b with reader := .ended (some err) }
  | none => none

/-- A bridge at an event of its own. -/
def next (a : RubyProcess) (b : RackBridge) : RackBridgeEvent → Option RackBridge
  | .push p text =>
    match b.reader with
    | .driver starting (.text t :: rest) =>
      if text = t then some { b with reader := .pushing starting p rest } else none
    | _ => none
  | .pushed =>
    match b.reader with
    | .pushing starting p rest =>
      match a.outcome p with
      | some (.ok _) => some { b with reader := .driver starting rest }
      | some (.error err) => some { b with reader := .closing (some (.native err)) }
      | none => none
    | _ => none
  | .refused =>
    match b.reader with
    | .driver _ (.binary :: _) => some { b with reader := .closing (some .notText) }
    | _ => none
  | .closeHandler =>
    match b.reader with
    | .driver starting (.close :: rest) => some { b with reader := .driver starting rest }
    | _ => none
  | .errorHandler =>
    match b.reader with
    | .driver starting (.error _ :: rest) => some { b with reader := .driver starting rest }
    | _ => none
  | .written raised =>
    match b.reader with
    | .driver starting (.write :: rest) =>
      match raised with
      | none => some { b with reader := .driver starting rest }
      | some err => some { b with reader := .closing (some (.socket err)) }
    | _ => none
  | .spawnCore =>
    if b.reader = .driver true [] then some { b with reader := .spawning, core := .spawned }
    else none
  | .spawnWriter =>
    if b.reader = .spawning then some { b with reader := .reading, writer := .taking } else none
  | .run p => if b.core = .spawned then some { b with core := .running p } else none
  | .read events =>
    if b.reader = .reading ∧ b.ioClosed = false then
      some { b with reader := .driver false events }
    else none
  | .parsed => if b.reader = .driver false [] then some { b with reader := .reading } else none
  | .readRaised err =>
    if b.reader = .reading then some { b with reader := .closing (err.map .read) } else none
  | .close =>
    match b.reader with
    | .closing err => some { b with reader := .joiningCore err }
    | _ => none
  | .joinCore =>
    match b.reader with
    | .joiningCore err => b.joined (.joiningWriter err) (b.core.result a)
    | _ => none
  | .joinWriter =>
    match b.reader with
    | .joiningWriter err => b.joined (.closingIo err) b.writer.result
    | _ => none
  | .closeIo raised =>
    match b.reader with
    | .closingIo err =>
      match raised with
      | none => some { b with reader := .ended err, ioClosed := true }
      | some raised =>
        if b.ioClosed then none else some { b with reader := .ended (some (.socket raised)) }
    | _ => none
  | .next p => if b.writer = .taking then some { b with writer := .waiting p } else none
  | .taken =>
    match b.writer with
    | .waiting p =>
      match a.outcome p with
      | some (.ok (.message (some msg))) => some { b with writer := .writing msg }
      | some (.ok _) => some { b with writer := .closing }
      | some (.error err) => some { b with writer := .ended (.error (.native err)) }
      | none => none
    | _ => none
  | .handed msg raised =>
    if b.writer = .writing msg then
      some { b with
        writer := match raised with
          | none => .taking
          | some err => .ended (.error (.socket err)) }
    else none
  | .closeFrame _ raised =>
    if b.writer = .closing then
      some { b with
        writer := match raised with
          | none => .closingIo
          | some err => .ended (.error (.socket err)) }
    else none
  | .writerCloseIo raised =>
    if b.writer = .closingIo then
      match raised with
      | none => some { b with writer := .ended (.ok ()), ioClosed := true }
      | some err => some { b with writer := .ended (.error (.socket err)) }
    else none

end RackBridge

/-- What an event of the bridge of `c` is to the process. -/
def RackBridgeEvent.process (c : ConnId) : RackBridgeEvent → Option ProcessEvent
  | .push p text => some (.host (.called p c (.pushMessage text)))
  | .next p => some (.host (.called p c .nextOutgoing))
  | .run p => some (.runCalled p c)
  | .closeHandler | .close | .closeFrame true _ => some (.host (.server (.conn c .close)))
  | _ => none

/-- A process and the bridges of its connections. -/
structure Rack where
  process : RubyProcess
  bridges : PartialMap ConnId RackBridge

def Rack.new (config : ServerConfig) : Rack where
  process := .new config
  bridges := PartialMap.empty

inductive RackEvent where
  /-- What is of no bridge. -/
  | process (e : ProcessEvent)
  /-- The middleware has made the connection `c`, and starts the thread of its bridge; these are
  the handlers `driver.start` calls. -/
  | upgraded (c : ConnId) (events : List DriverEvent)
  | bridge (c : ConnId) (e : RackBridgeEvent)
  deriving DecidableEq

/-- The event is no call of a native connection. -/
def ProcessEvent.free : ProcessEvent → Bool
  | .host (.called _ _ _) | .host (.server (.conn _ .close)) | .runCalled _ _ => false
  | _ => true

/-- The process takes the event, or stays as it is. -/
def RubyProcess.Takes (serde : SerdeJson) (a : RubyProcess) (a' : RubyProcess) :
    Option ProcessEvent → Prop
  | some e => ProcessStep serde a e a'
  | none => a' = a

/-- The steps of a process with its bridges. -/
inductive RackStep (serde : SerdeJson) : Rack → RackEvent → Rack → Prop where
  | process {a : Rack} {e : ProcessEvent} {process' : RubyProcess} (he : e.free)
      (hs : ProcessStep serde a.process e process') :
      RackStep serde a (.process e) { a with process := process' }
  | upgraded {a : Rack} {c : ConnId} {events : List DriverEvent} {o : OutgoingQueue}
      (hb : a.bridges c = none) (ho : a.process.host.outgoing c = some o) (hr : o.ready) :
      RackStep serde a (.upgraded c events) { a with bridges := a.bridges.insert c (.new events) }
  | bridge {a : Rack} {c : ConnId} {e : RackBridgeEvent} {b b' : RackBridge}
      {process' : RubyProcess} (hb : a.bridges c = some b) (hn : b.next a.process e = some b')
      (hp : a.process.Takes serde process' (e.process c)) :
      RackStep serde a (.bridge c e)
        { process := process', bridges := a.bridges.insert c b' }

/-- The runs of a Rack server made with `config`. -/
abbrev RackRun (serde : SerdeJson) (config : ServerConfig) (tr : List RackEvent) (a : Rack) :
    Prop :=
  Lts.Run (RackStep serde) (Rack.new config) tr a

/-! ### The run of the process -/

def RackEvent.toProcess : RackEvent → Option ProcessEvent
  | .process e => some e
  | .upgraded _ _ => none
  | .bridge c e => e.process c

/-- What happened in the process. -/
abbrev processEvents (tr : List RackEvent) : List ProcessEvent := Lts.record RackEvent.toProcess tr

/-- What happened at the native connections. -/
abbrev rackHost (tr : List RackEvent) : List RubyEvent := hostEvents (processEvents tr)

/-- What happened in the core. -/
abbrev rackCore (tr : List RackEvent) : List Event := rubyCore (rackHost tr)

section

variable {serde : SerdeJson} {config : ServerConfig} {tr : List RackEvent} {a a' : Rack}

/-- A step is one of the process, or leaves it alone. -/
theorem RackStep.toProcess {e : RackEvent} (h : RackStep serde a e a') :
    a.process.Takes serde a'.process e.toProcess := by
  cases h with
  | process _ hs => exact hs
  | upgraded _ _ _ => rfl
  | bridge _ _ hp => exact hp

/-- **A run with bridges is a run of the process.** -/
theorem rackProcessRun (h : RackRun serde config tr a) :
    ProcessRun serde config (processEvents tr) a.process := by
  obtain ⟨process, hrun, rfl⟩ : ∃ process,
      ProcessRun serde config (processEvents tr) process ∧ a.process = process :=
    h.simulate RackEvent.toProcess (fun a process => a.process = process) (fun _ => True)
    (fun _ _ => trivial) (fun {a process e a'} hR _ _ h => by
      subst hR
      have hs := h.toProcess
      cases he : e.toProcess with
      | none =>
          rw [he] at hs
          exact hs
      | some e' =>
          rw [he] at hs
          exact ⟨a'.process, hs, rfl⟩)
    rfl
  exact hrun

theorem rackHostRun (h : RackRun serde config tr a) :
    RubyRun serde config (rackHost tr) a.process.host := hostRun (rackProcessRun h)

theorem rackCoreRun (h : RackRun serde config tr a) :
    ServerRun serde config (rackCore tr) a.process.server := coreRun (rackHostRun h)

end

/-! ### Running the model -/

def RubyProcess.take (serde : SerdeJson) (a : RubyProcess) :
    Option ProcessEvent → Option RubyProcess
  | some e => a.exec serde e
  | none => some a

/-- The state an event leads to, where it can be computed. -/
def Rack.exec (serde : SerdeJson) (a : Rack) : RackEvent → Option Rack
  | .process e =>
    if e.free then (a.process.exec serde e).map fun process => { a with process } else none
  | .upgraded c events => do
    let o ← a.process.host.outgoing c
    if (a.bridges c).isNone ∧ o.ready then
      some { a with bridges := a.bridges.insert c (.new events) }
    else none
  | .bridge c e => do
    let b ← a.bridges c
    let b' ← b.next a.process e
    let process ← a.process.take serde (e.process c)
    return { process, bridges := a.bridges.insert c b' }

section

variable {serde : SerdeJson} {a a' : Rack}

theorem Rack.exec_sound {e : RackEvent} (h : a.exec serde e = some a') :
    RackStep serde a e a' := by
  cases e with
  | process e =>
      obtain ⟨he, h⟩ := Option.ite_none_right_eq_some.mp h
      obtain ⟨process, hs, rfl⟩ := Option.map_eq_some_iff.mp h
      exact .process he (RubyProcess.exec_sound hs)
  | upgraded c events =>
      obtain ⟨o, ho, h⟩ := Option.bind_eq_some_iff.mp h
      obtain ⟨⟨hb, hr⟩, h⟩ := Option.ite_none_right_eq_some.mp h
      cases h
      exact .upgraded (Option.isNone_iff_eq_none.mp hb) ho hr
  | bridge c e =>
      obtain ⟨b, hb, h⟩ := Option.bind_eq_some_iff.mp h
      obtain ⟨b', hn, h⟩ := Option.bind_eq_some_iff.mp h
      obtain ⟨process, hp, h⟩ := Option.bind_eq_some_iff.mp h
      cases h
      refine .bridge hb hn ?_
      cases he : e.process c with
      | none =>
          rw [he] at hp
          cases hp
          rfl
      | some pe =>
          rw [he] at hp
          exact RubyProcess.exec_sound hp

/-- A run with bridges, from a history that can be run to a state that passes `p`. -/
theorem exists_rackRun (serde : SerdeJson) (config : ServerConfig) (tr : List RackEvent)
    (p : Rack → Bool) (h : (Lts.execAll (Rack.exec serde) (Rack.new config) tr).any p) :
    ∃ a, RackRun serde config tr a ∧ p a :=
  Lts.exists_run_of_execAll Rack.exec_sound p h

end

end Outpunch
