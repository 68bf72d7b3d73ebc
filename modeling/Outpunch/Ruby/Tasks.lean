import Outpunch.Axum.Handler
import Outpunch.Ruby.Outgoing

/-!
# Ruby — `wait_for`, `handle_request` and `run`

The native methods that start a task on the runtime and wait for it.  `handle_request` starts a
`try_handle_request` of the core and aborts it where the wait ends with an error; `run` starts a
`run` of the core, and where the wait ends with an error it closes the connection, waits for the
task once more, now deaf to interrupts, and then raises.  A wait is a call without the GVL
(`WaitFor`), so an interrupt that raises nothing does not end it.

A task begins some time after it was started, and one that was aborted is dropped some time after
that, wherever it is suspended; what is being polled meanwhile goes on.  A second `run` of a
connection panics.  The steps of the host are those of `RubyStep`; its dispatches and its `run`s
are those of these tasks, and no dispatch is dropped but by `abort`.
-/

namespace Outpunch

open Gvl (Interrupt Call)

/-! ### `wait_for` -/

/-- What a `JoinHandle` gives. -/
inductive Joined (α : Type) where
  | ok (value : α)
  | cancelled
  | panicked
  deriving DecidableEq

/-- A call of `wait_for`. -/
abbrev WaitFor (α : Type) := Call String Unit (Joined α)

inductive WaitEvent where
  | interrupt (i : Interrupt String)
  | enter
  /-- The branch of the task is taken. -/
  | joined
  /-- The branch of `cancel.notified()` is taken. -/
  | cancelled
  | settle
  deriving DecidableEq

/-- Why `wait_for` gives an error. -/
inductive WaitError where
  /-- Ruby raises. -/
  | raised (err : String)
  /-- `task_failed`, of a task that did not panic. -/
  | taskFailed
  deriving DecidableEq

/-- How `wait_for` ends. -/
inductive Waited (α : Type) where
  | ok (value : α)
  | error (err : WaitError)
  /-- The panic of the task goes on. -/
  | unwound
  deriving DecidableEq

section

variable {α : Type}

/-- What an event makes of a wait; `task` is what the task gives, once it is over. -/
def WaitFor.step (task : Option (Joined α)) (k : WaitFor α) : WaitEvent → Option (WaitFor α)
  | .interrupt i => k.interrupt i
  | .enter => k.enter ()
  | .joined => task.bind fun joined => k.finish () joined
  | .cancelled => k.cancel ()
  | .settle => k.settle

/-- What `wait_for` makes of what was joined. -/
def Joined.waited : Joined α → Waited α
  | .ok value => .ok value
  | .cancelled => .error .taskFailed
  | .panicked => .unwound

/-- What a wait that is over has given. -/
def WaitFor.waited (k : WaitFor α) : Option (Waited α) :=
  match k.phase with
  | .returned joined => some joined.waited
  | .raised err => some (.error (.raised err))
  | _ => none

end

/-! ### `handle_request` -/

/-- The arguments of `handle_request`; a body is the bytes of a Ruby string. -/
structure RequestArgs where
  service : String
  method : String
  path : String
  query : StringMap
  headers : StringMap
  body : Option (List UInt8)
  deriving DecidableEq

/-- The request it hands to the core. -/
def RequestArgs.incoming (args : RequestArgs) : IncomingRequest where
  service := args.service
  method := args.method
  path := args.path
  query := args.query
  headers := args.headers
  body := (args.body.map fromUtf8Lossy).filter (· ≠ "")

/-- What a dispatch is to who waits for its task. -/
def DispatchPhase.joined : DispatchPhase → Option (Joined (Except TunnelError TunnelResponse))
  | .returned result => some (.ok result)
  | .cancelled => some .cancelled
  | _ => none

/-- A call of `handle_request`, and its task. -/
structure RequestCall where
  args : RequestArgs
  /-- The dispatch the task runs, once it has begun. -/
  dispatch : Option RequestId
  /-- `task.abort()` was called. -/
  aborted : Bool
  /-- The task was dropped before it began. -/
  dropped : Bool
  wait : WaitFor (Except TunnelError TunnelResponse)

namespace RequestCall

def new (args : RequestArgs) : RequestCall where
  args := args
  dispatch := none
  aborted := false
  dropped := false
  wait := .new

/-- What the task gives, once it is over. -/
def joined (w : World) (r : RequestCall) : Option (Joined (Except TunnelError TunnelResponse)) :=
  match r.dispatch with
  | some q => (w.dispatches q).bind fun d => d.phase.joined
  | none => if r.dropped then some .cancelled else none

/-- The call at an event of its wait; an error aborts the task. -/
def next (w : World) (r : RequestCall) (e : WaitEvent) : Option RequestCall :=
  (r.wait.step (r.joined w) e).map fun wait =>
    { r with
      wait
      aborted := match wait.waited with
        | some (.error _) => true
        | _ => r.aborted }

end RequestCall

/-! ### `run` -/

/-- `run` of the core has returned. -/
def Phase.isDone : Phase → Bool
  | .done _ => true
  | _ => false

/-- It was not called. -/
def Phase.isCreated : Phase → Bool
  | .created => true
  | _ => false

/-- The task of a `run`. -/
inductive RunTask where
  /-- It has not begun. -/
  | spawned
  /-- It runs, or has run, the `run` of the connection. -/
  | running
  /-- `run_state` was taken before. -/
  | panicked
  deriving DecidableEq

/-- Where a call of `run` stands. -/
inductive RunStage where
  | waiting (wait : WaitFor Unit)
  /-- Before `close()`. -/
  | closing (err : WaitError)
  /-- At `block_on(task)`. -/
  | joining (err : WaitError)
  | ended (result : Except WaitError Unit)
  | unwound

/-- A call of `run` of the connection `conn`. -/
structure RunCall where
  conn : ConnId
  task : RunTask
  stage : RunStage

namespace RunCall

def new (c : ConnId) : RunCall where
  conn := c
  task := .spawned
  stage := .waiting .new

/-- What the task gives, once it is over. -/
def joined (w : World) (b : RunCall) : Option (Joined Unit) :=
  match b.task with
  | .spawned => none
  | .running => if (w.conns b.conn).any (·.phase.isDone) then some (.ok ()) else none
  | .panicked => some .panicked

/-- Where `wait_for` leaves the call. -/
def waitedStage (wait : WaitFor Unit) : RunStage :=
  match wait.waited with
  | some (.ok ()) => .ended (.ok ())
  | some (.error err) => .closing err
  | some .unwound => .unwound
  | none => .waiting wait

/-- The call at an event of its wait. -/
def next (w : World) (b : RunCall) (e : WaitEvent) : Option RunCall :=
  match b.stage with
  | .waiting wait =>
    (wait.step (b.joined w) e).map fun wait => { b with stage := waitedStage wait }
  | _ => none

end RunCall

/-! ### The process -/

/-- A host with the calls that wait for tasks. -/
structure RubyProcess where
  host : RubyHost
  requests : PartialMap CallId RequestCall
  runs : PartialMap CallId RunCall

namespace RubyProcess

def new (config : ServerConfig) : RubyProcess where
  host := .new config
  requests := PartialMap.empty
  runs := PartialMap.empty

/-- The core. -/
def server (a : RubyProcess) : World := a.host.server

end RubyProcess

/-- What happens in a process. -/
inductive ProcessEvent where
  /-- What is of none of the calls that wait. -/
  | host (e : RubyEvent)
  /-- `handle_request` is called, and starts its task. -/
  | requestCalled (p : CallId) (args : RequestArgs)
  /-- The task begins. -/
  | requestBegan (p : CallId) (q : RequestId) (incoming : IncomingRequest)
  /-- It is dropped, not having begun. -/
  | requestDropped (p : CallId)
  /-- It is dropped. -/
  | requestCancelled (p : CallId) (q : RequestId)
  | request (p : CallId) (e : WaitEvent)
  /-- `run` is called, and starts its task. -/
  | runCalled (p : CallId) (c : ConnId)
  /-- The task begins. -/
  | runBegan (p : CallId) (c : ConnId)
  /-- It begins and panics. -/
  | runPanicked (p : CallId)
  | run (p : CallId) (e : WaitEvent)
  /-- `run` closes its connection. -/
  | runClosed (p : CallId) (c : ConnId)
  /-- `run` is done waiting for its task, and raises. -/
  | runJoined (p : CallId)
  deriving DecidableEq

/-- The event is not of a task that is waited for. -/
def RubyEvent.free : RubyEvent → Bool
  | .server (.request _ _) | .server (.cancel _) | .server (.conn _ .run) => false
  | _ => true

/-- The steps of a process. -/
inductive ProcessStep (serde : SerdeJson) : RubyProcess → ProcessEvent → RubyProcess → Prop where
  | host {a : RubyProcess} {e : RubyEvent} {host' : RubyHost} (he : e.free)
      (hs : RubyStep serde a.host e host') :
      ProcessStep serde a (.host e) { a with host := host' }
  | requestCalled {a : RubyProcess} {p : CallId} {args : RequestArgs} (hp : a.requests p = none) :
      ProcessStep serde a (.requestCalled p args)
        { a with requests := a.requests.insert p (.new args) }
  | requestBegan {a : RubyProcess} {p : CallId} {q : RequestId} {r : RequestCall}
      {host' : RubyHost} (hr : a.requests p = some r) (hd : r.dispatch = none)
      (hn : r.dropped = false)
      (hs : RubyStep serde a.host (.server (.request q r.args.incoming)) host') :
      ProcessStep serde a (.requestBegan p q r.args.incoming)
        { a with
          host := host'
          requests := a.requests.insert p { r with dispatch := some q } }
  | requestDropped {a : RubyProcess} {p : CallId} {r : RequestCall} (hr : a.requests p = some r)
      (hd : r.dispatch = none) (ha : r.aborted) :
      ProcessStep serde a (.requestDropped p)
        { a with requests := a.requests.insert p { r with dropped := true } }
  | requestCancelled {a : RubyProcess} {p : CallId} {q : RequestId} {r : RequestCall}
      {host' : RubyHost} (hr : a.requests p = some r) (hd : r.dispatch = some q) (ha : r.aborted)
      (hs : RubyStep serde a.host (.server (.cancel q)) host') :
      ProcessStep serde a (.requestCancelled p q) { a with host := host' }
  | request {a : RubyProcess} {p : CallId} {e : WaitEvent} {r r' : RequestCall}
      (hr : a.requests p = some r) (hn : r.next a.server e = some r') :
      ProcessStep serde a (.request p e) { a with requests := a.requests.insert p r' }
  | runCalled {a : RubyProcess} {p : CallId} {c : ConnId} {o : OutgoingQueue}
      (hp : a.runs p = none) (ho : a.host.outgoing c = some o) (hr : o.ready) :
      ProcessStep serde a (.runCalled p c) { a with runs := a.runs.insert p (.new c) }
  | runBegan {a : RubyProcess} {p : CallId} {b : RunCall} {host' : RubyHost}
      (hb : a.runs p = some b) (ht : b.task = .spawned)
      (hs : RubyStep serde a.host (.server (.conn b.conn .run)) host') :
      ProcessStep serde a (.runBegan p b.conn)
        { a with
          host := host'
          runs := a.runs.insert p { b with task := .running } }
  | runPanicked {a : RubyProcess} {p : CallId} {b : RunCall} {k : Connection}
      (hb : a.runs p = some b) (ht : b.task = .spawned) (hk : a.server.conns b.conn = some k)
      (hp : k.phase ≠ .created) :
      ProcessStep serde a (.runPanicked p)
        { a with runs := a.runs.insert p { b with task := .panicked } }
  | run {a : RubyProcess} {p : CallId} {e : WaitEvent} {b b' : RunCall}
      (hb : a.runs p = some b) (hn : b.next a.server e = some b') :
      ProcessStep serde a (.run p e) { a with runs := a.runs.insert p b' }
  | runClosed {a : RubyProcess} {p : CallId} {b : RunCall} {err : WaitError} {host' : RubyHost}
      (hb : a.runs p = some b) (ht : b.stage = .closing err)
      (hs : RubyStep serde a.host (.server (.conn b.conn .close)) host') :
      ProcessStep serde a (.runClosed p b.conn)
        { a with
          host := host'
          runs := a.runs.insert p { b with stage := .joining err } }
  | runJoined {a : RubyProcess} {p : CallId} {b : RunCall} {err : WaitError}
      (hb : a.runs p = some b) (ht : b.stage = .joining err) (hj : (b.joined a.server).isSome) :
      ProcessStep serde a (.runJoined p)
        { a with runs := a.runs.insert p { b with stage := .ended (.error err) } }

/-- The runs of a process whose server was made with `config`. -/
abbrev ProcessRun (serde : SerdeJson) (config : ServerConfig) (tr : List ProcessEvent)
    (a : RubyProcess) : Prop :=
  Lts.Run (ProcessStep serde) (RubyProcess.new config) tr a

/-! ### The run of the host -/

def ProcessEvent.toHost : ProcessEvent → Option RubyEvent
  | .host e => some e
  | .requestBegan _ q incoming => some (.server (.request q incoming))
  | .requestCancelled _ q => some (.server (.cancel q))
  | .runBegan _ c => some (.server (.conn c .run))
  | .runClosed _ c => some (.server (.conn c .close))
  | _ => none

/-- What happened in the host. -/
abbrev hostEvents (tr : List ProcessEvent) : List RubyEvent := Lts.record ProcessEvent.toHost tr

section

variable {serde : SerdeJson} {config : ServerConfig} {tr : List ProcessEvent} {a a' : RubyProcess}

/-- A step of the process is one of the host, or leaves it alone. -/
theorem ProcessStep.toHost {e : ProcessEvent} (h : ProcessStep serde a e a') :
    match e.toHost with
    | none => a'.host = a.host
    | some e' => RubyStep serde a.host e' a'.host := by
  cases h with
  | host _ hs => exact hs
  | requestBegan _ _ _ hs => exact hs
  | requestCancelled _ _ _ hs => exact hs
  | runBegan _ _ hs => exact hs
  | runClosed _ _ hs => exact hs
  | _ => rfl

/-- **A run of the process is a run of the host.** -/
theorem hostRun (h : ProcessRun serde config tr a) :
    RubyRun serde config (hostEvents tr) a.host := by
  obtain ⟨host, hrun, rfl⟩ : ∃ host, RubyRun serde config (hostEvents tr) host ∧ a.host = host :=
    h.simulate ProcessEvent.toHost (fun a host => a.host = host) (fun _ => True)
    (fun _ _ => trivial) (fun {a host e a'} hR _ _ h => by
      subst hR
      have hs := h.toHost
      cases he : e.toHost with
      | none =>
          rw [he] at hs
          exact hs
      | some e' =>
          rw [he] at hs
          exact ⟨a'.host, hs, rfl⟩)
    rfl
  exact hrun

/-- The event in the core. -/
def ProcessEvent.toServer (e : ProcessEvent) : Option Event := e.toHost.bind RubyEvent.toServer

/-- What happened in the core. -/
abbrev processCore (tr : List ProcessEvent) : List Event := Lts.record ProcessEvent.toServer tr

theorem processCoreRun (h : ProcessRun serde config tr a) :
    ServerRun serde config (processCore tr) a.server := by
  have hcore : processCore tr = rubyCore (hostEvents tr) := List.filterMap_filterMap.symm
  rw [hcore]
  exact coreRun (hostRun h)

/-- A step of the process is one of the core, or leaves it alone. -/
theorem ProcessStep.toServer {e : ProcessEvent} (h : ProcessStep serde a e a') :
    match e.toServer with
    | none => a'.server = a.server
    | some e' => Step serde a.server e' a'.server := by
  have hhost := h.toHost
  cases he : e.toHost with
  | none =>
      rw [he] at hhost
      simp only [ProcessEvent.toServer, he, Option.bind_none]
      exact congrArg RubyHost.server hhost
  | some e' =>
      rw [he] at hhost
      simp only [ProcessEvent.toServer, he, Option.bind_some]
      exact hhost.toServer

end

/-! ### One wait -/

namespace WaitFor

variable {α : Type} {task : Option (Joined α)} {k k' : WaitFor α} {e : WaitEvent}

/-- What is joined is what the task gives; no other event gives anything. -/
theorem step_cases (h : k.step task e = some k') :
    (∃ joined permit, e = .joined ∧ task = some joined ∧ k.phase = .inside () permit ∧
      k'.phase = .left (some (some joined))) ∨
    e ≠ .joined ∧ k'.phase.result = k.phase.result := by
  cases e with
  | interrupt i => exact .inr ⟨by simp, Call.interrupt_result h⟩
  | enter => exact .inr ⟨by simp, Call.enter_result h⟩
  | settle => exact .inr ⟨by simp, Call.settle_result h⟩
  | joined =>
      obtain ⟨joined, ht, h⟩ := Option.bind_eq_some_iff.mp h
      obtain ⟨permit, hp, rfl⟩ := Call.finish_inv h
      exact .inl ⟨joined, permit, rfl, ht, hp, rfl⟩
  | cancelled =>
      obtain ⟨hp, rfl⟩ := Call.cancel_inv h
      exact .inr ⟨by simp, by rw [hp]; rfl⟩

/-- A wait that is over takes no step. -/
theorem not_over (h : k.step task e = some k') : k.waited = none := by
  obtain ⟨pending, phase⟩ := k
  cases phase with
  | entering | inside _ _ | left _ => rfl
  | returned _ | raised _ =>
      cases e with
      | joined =>
          obtain ⟨_, -, h⟩ := Option.bind_eq_some_iff.mp h
          cases h
      | _ => cases h

/-- What is pending or was raised has hit the thread. -/
theorem step_struck {hit : Interrupt String → Prop} (hk : k.Struck hit)
    (h : k.step task e = some k') (hi : ∀ i, e = .interrupt i → hit i) : k'.Struck hit := by
  cases e with
  | interrupt i => exact hk.interrupt (hi i rfl) h
  | settle => exact hk.settle h
  | enter =>
      obtain ⟨-, hpend, hp⟩ := Call.enter_inv h
      exact hk.keep hpend fun err he => by rcases hp with hp | hp <;> rw [hp] at he <;> cases he
  | joined =>
      obtain ⟨_, -, h⟩ := Option.bind_eq_some_iff.mp h
      obtain ⟨_, -, rfl⟩ := Call.finish_inv h
      exact hk.keep rfl fun _ he => by cases he
  | cancelled =>
      obtain ⟨-, rfl⟩ := Call.cancel_inv h
      exact hk.keep rfl fun _ he => by cases he

/-- How a wait ended. -/
theorem waited_eq_some {out : Waited α} :
    k.waited = some out ↔ (∃ joined, k.phase = .returned joined ∧ out = joined.waited) ∨
      ∃ err, k.phase = .raised err ∧ out = .error (.raised err) := by
  obtain ⟨pending, phase⟩ := k
  cases phase <;> simp [waited, eq_comm]

end WaitFor

/-! ### Running the model -/

/-- The state an event leads to, where it can be computed. -/
def RubyProcess.exec (serde : SerdeJson) (a : RubyProcess) : ProcessEvent → Option RubyProcess
  | .host e => if e.free then (a.host.exec serde e).map fun host => { a with host } else none
  | .requestCalled p args =>
    if (a.requests p).isNone then
      some { a with requests := a.requests.insert p (.new args) }
    else none
  | .requestBegan p q incoming => do
    let r ← a.requests p
    let host ← a.host.exec serde (.server (.request q r.args.incoming))
    if incoming = r.args.incoming ∧ r.dispatch = none ∧ r.dropped = false then
      some { a with host, requests := a.requests.insert p { r with dispatch := some q } }
    else none
  | .requestDropped p => do
    let r ← a.requests p
    if r.dispatch = none ∧ r.aborted then
      some { a with requests := a.requests.insert p { r with dropped := true } }
    else none
  | .requestCancelled p q => do
    let r ← a.requests p
    let host ← a.host.exec serde (.server (.cancel q))
    if r.dispatch = some q ∧ r.aborted then some { a with host } else none
  | .request p e => do
    let r ← a.requests p
    let r' ← r.next a.server e
    return { a with requests := a.requests.insert p r' }
  | .runCalled p c => do
    let o ← a.host.outgoing c
    if (a.runs p).isNone ∧ o.ready then some { a with runs := a.runs.insert p (.new c) } else none
  | .runBegan p c => do
    let b ← a.runs p
    let host ← a.host.exec serde (.server (.conn b.conn .run))
    if c = b.conn ∧ b.task = .spawned then
      some { a with host, runs := a.runs.insert p { b with task := .running } }
    else none
  | .runPanicked p => do
    let b ← a.runs p
    let k ← a.server.conns b.conn
    if b.task = .spawned ∧ k.phase.isCreated = false then
      some { a with runs := a.runs.insert p { b with task := .panicked } }
    else none
  | .run p e => do
    let b ← a.runs p
    let b' ← b.next a.server e
    return { a with runs := a.runs.insert p b' }
  | .runClosed p c => do
    let b ← a.runs p
    let host ← a.host.exec serde (.server (.conn b.conn .close))
    match b.stage with
    | .closing err =>
      if c = b.conn then
        some { a with host, runs := a.runs.insert p { b with stage := .joining err } }
      else none
    | _ => none
  | .runJoined p => do
    let b ← a.runs p
    match b.stage with
    | .joining err =>
      if (b.joined a.server).isSome then
        some { a with runs := a.runs.insert p { b with stage := .ended (.error err) } }
      else none
    | _ => none

section

variable {serde : SerdeJson} {a a' : RubyProcess}

theorem RubyProcess.exec_sound {e : ProcessEvent} (h : a.exec serde e = some a') :
    ProcessStep serde a e a' := by
  cases e with
  | host e =>
      obtain ⟨he, h⟩ := Option.ite_none_right_eq_some.mp h
      obtain ⟨host, hs, rfl⟩ := Option.map_eq_some_iff.mp h
      exact .host he (RubyHost.exec_sound hs)
  | requestCalled p args =>
      obtain ⟨hp, h⟩ := Option.ite_none_right_eq_some.mp h
      cases h
      exact .requestCalled (Option.isNone_iff_eq_none.mp hp)
  | requestBegan p q incoming =>
      obtain ⟨r, hr, h⟩ := Option.bind_eq_some_iff.mp h
      obtain ⟨host, hs, h⟩ := Option.bind_eq_some_iff.mp h
      obtain ⟨⟨rfl, hd, hn⟩, ha⟩ := Option.ite_none_right_eq_some.mp h
      cases ha
      exact .requestBegan hr hd hn (RubyHost.exec_sound hs)
  | requestDropped p =>
      obtain ⟨r, hr, h⟩ := Option.bind_eq_some_iff.mp h
      obtain ⟨⟨hd, ha⟩, h⟩ := Option.ite_none_right_eq_some.mp h
      cases h
      exact .requestDropped hr hd ha
  | requestCancelled p q =>
      obtain ⟨r, hr, h⟩ := Option.bind_eq_some_iff.mp h
      obtain ⟨host, hs, h⟩ := Option.bind_eq_some_iff.mp h
      obtain ⟨⟨hd, ha⟩, h⟩ := Option.ite_none_right_eq_some.mp h
      cases h
      exact .requestCancelled hr hd ha (RubyHost.exec_sound hs)
  | request p e =>
      obtain ⟨r, hr, h⟩ := Option.bind_eq_some_iff.mp h
      obtain ⟨r', hn, h⟩ := Option.bind_eq_some_iff.mp h
      cases h
      exact .request hr hn
  | runCalled p c =>
      obtain ⟨o, ho, h⟩ := Option.bind_eq_some_iff.mp h
      obtain ⟨⟨hp, hr⟩, h⟩ := Option.ite_none_right_eq_some.mp h
      cases h
      exact .runCalled (Option.isNone_iff_eq_none.mp hp) ho hr
  | runBegan p c =>
      obtain ⟨b, hb, h⟩ := Option.bind_eq_some_iff.mp h
      obtain ⟨host, hs, h⟩ := Option.bind_eq_some_iff.mp h
      obtain ⟨⟨rfl, ht⟩, ha⟩ := Option.ite_none_right_eq_some.mp h
      cases ha
      exact .runBegan hb ht (RubyHost.exec_sound hs)
  | runPanicked p =>
      obtain ⟨b, hb, h⟩ := Option.bind_eq_some_iff.mp h
      obtain ⟨k, hk, h⟩ := Option.bind_eq_some_iff.mp h
      obtain ⟨⟨ht, hp⟩, h⟩ := Option.ite_none_right_eq_some.mp h
      cases h
      exact .runPanicked hb ht hk fun hc => by rw [hc] at hp; cases hp
  | run p e =>
      obtain ⟨b, hb, h⟩ := Option.bind_eq_some_iff.mp h
      obtain ⟨b', hn, h⟩ := Option.bind_eq_some_iff.mp h
      cases h
      exact .run hb hn
  | runClosed p c =>
      obtain ⟨b, hb, h⟩ := Option.bind_eq_some_iff.mp h
      obtain ⟨host, hs, h⟩ := Option.bind_eq_some_iff.mp h
      cases ht : b.stage with
      | closing err =>
          rw [ht] at h
          obtain ⟨rfl, ha⟩ := Option.ite_none_right_eq_some.mp h
          cases ha
          exact .runClosed hb ht (RubyHost.exec_sound hs)
      | _ => rw [ht] at h; cases h
  | runJoined p =>
      obtain ⟨b, hb, h⟩ := Option.bind_eq_some_iff.mp h
      cases ht : b.stage with
      | joining err =>
          rw [ht] at h
          obtain ⟨hj, h⟩ := Option.ite_none_right_eq_some.mp h
          cases h
          exact .runJoined hb ht hj
      | _ => rw [ht] at h; cases h

/-- A run of the process, from a history that can be run to a state that passes `p`. -/
theorem exists_processRun (serde : SerdeJson) (config : ServerConfig) (tr : List ProcessEvent)
    (p : RubyProcess → Bool)
    (h : (Lts.execAll (RubyProcess.exec serde) (RubyProcess.new config) tr).any p) :
    ∃ a, ProcessRun serde config tr a ∧ p a :=
  Lts.exists_run_of_execAll RubyProcess.exec_sound p h

end

end Outpunch
