import Outpunch.Ruby.Gvl
import Outpunch.Server.Exec
import Outpunch.Server.Queues

/-!
# Ruby — `push_message` and `next_outgoing`

The native `Connection` of the Ruby extension beside the server: the channel its callback fills,
and the calls of `push_message` and `next_outgoing`, each on a Ruby thread of its own that may be
interrupted at any time.  An attempt of `push_message` is a `push_message` of the core, which a
notified `cancel` drops; one of `next_outgoing` takes the lock of the receiver and then waits for a
message.  Where the work is done and `cancel` was notified, `select!` may take either branch.

The steps of the server are those of `Step`.  Its incoming channels are written by these calls only,
and all other events happen as they may.  Nothing `func` calls panics.
-/

namespace Outpunch

open Gvl (Interrupt Call)

/-- The number of a call of a native method. -/
abbrev CallId := Nat

inductive NativeMethod where
  | pushMessage (text : String)
  | nextOutgoing
  deriving DecidableEq

/-- What `func` is doing. -/
inductive NativeWork where
  /-- At the `select!` of `push_message`, the core not called. -/
  | polling
  /-- At `tx.send(text)`, in `push_message` of the core. -/
  | sending (m : Pushed)
  /-- At `outgoing.lock()`. -/
  | locking
  /-- At the `select!` of `next_outgoing`, with the lock. -/
  | receiving
  deriving DecidableEq

/-- What a method returns. -/
inductive NativeValue where
  /-- `push_message` returns. -/
  | sent
  /-- `next_outgoing` returns a message, or `nil`. -/
  | message (msg : Option String)
  deriving DecidableEq

/-- A call of a method of the connection `conn`; its exceptions are texts. -/
structure NativeCall where
  conn : ConnId
  method : NativeMethod
  call : Call String NativeWork NativeValue

/-- What a call does, or what happens to its thread. -/
inductive CallEvent where
  | interrupt (i : Interrupt String)
  /-- `rb_thread_call_without_gvl2` calls `func`, or does not. -/
  | enter
  /-- `push_message` of the core clones the sender. -/
  | began (m : Pushed)
  /-- `push_message` of the core finds the connection closed, and returns. -/
  | closed (text : String)
  /-- The send completes. -/
  | sent (m : Pushed)
  /-- The send finds `incoming_rx` dropped, and returns. -/
  | gone (m : Pushed)
  | locked
  /-- `outgoing.recv()` gives a message. -/
  | received (msg : String)
  /-- `outgoing.recv()` finds the channel closed. -/
  | ended
  /-- `cancel.notified()` is taken, and the other branch dropped. -/
  | cancelled (work : NativeWork)
  /-- `func` is over; the loops go on or end. -/
  | settle
  deriving DecidableEq

/-- What `func` begins with. -/
def NativeMethod.work : NativeMethod → NativeWork
  | .pushMessage _ => .polling
  | .nextOutgoing => .locking

/-- The event of the core connection an attempt of `push_message` shows as. -/
def CallEvent.conn : CallEvent → Option ConnEvent
  | .began m => some (.push m)
  | .closed text => some (.pushClosed text)
  | .sent m => some (.sent m)
  | .gone m | .cancelled (.sending m) => some (.gone m)
  | _ => none

namespace NativeCall

/-- What an event of its own makes of a call, on its thread. -/
def stepCall (b : NativeCall) : CallEvent → Option (Call String NativeWork NativeValue)
  | .interrupt i => b.call.interrupt i
  | .enter => b.call.enter b.method.work
  | .began m =>
    if b.method = .pushMessage m.text then b.call.advance .polling (.sending m) else none
  | .closed text => if b.method = .pushMessage text then b.call.finish .polling .sent else none
  | .sent m | .gone m => b.call.finish (.sending m) .sent
  | .locked => b.call.advance .locking .receiving
  | .received msg => b.call.finish .receiving (.message (some msg))
  | .ended => b.call.finish .receiving (.message none)
  -- the lock is awaited before the `select!`
  | .cancelled work => if work = .locking then none else b.call.cancel work
  | .settle => b.call.settle

def next (b : NativeCall) (e : CallEvent) : Option NativeCall :=
  (b.stepCall e).map fun call => { b with call }

end NativeCall

/-- The receiver of what a connection sends, behind its lock. -/
structure OutgoingQueue where
  /-- `on_message` was called, and `create_connection` returned. -/
  ready : Bool
  /-- What the unbounded channel from the callback holds. -/
  queue : List String
  /-- The call that holds the lock. -/
  lock : Option CallId

namespace OutgoingQueue

def new : OutgoingQueue where
  ready := false
  queue := []
  lock := none

/-- A queue at an event of its connection. -/
def onConn (o : OutgoingQueue) : ConnEvent → Option OutgoingQueue
  | .onMessage => if o.ready = false then some { o with ready := true } else none
  | .run | .close => if o.ready then some o else none
  | .deliver text => some { o with queue := o.queue ++ [text] }
  -- only native calls push
  | .push _ | .pushClosed _ | .sent _ | .gone _ => none
  -- the callback never panics
  | .panic _ => none
  | _ => some o

/-- A queue at an event of the call `p`; `callbackGone` says that the callback was dropped, and
its sender with it. -/
def onCall (o : OutgoingQueue) (p : CallId) (callbackGone : Bool) :
    CallEvent → Option OutgoingQueue
  | .locked => if o.lock = none then some { o with lock := some p } else none
  | .received msg =>
    match o.queue with
    | text :: rest => if msg = text then some { o with queue := rest, lock := none } else none
    | [] => none
  | .ended => if o.queue = [] ∧ callbackGone = true then some { o with lock := none } else none
  | .cancelled .receiving => some { o with lock := none }
  | _ => some o

end OutgoingQueue

/-- A server and the native side of its connections. -/
structure RubyHost where
  server : World
  outgoing : PartialMap ConnId OutgoingQueue
  calls : PartialMap CallId NativeCall

namespace RubyHost

def new (config : ServerConfig) : RubyHost where
  server := .new config
  outgoing := PartialMap.empty
  calls := PartialMap.empty

/-- The drain task of `c` is over, and its callback dropped. -/
def callbackGone (a : RubyHost) (c : ConnId) : Bool :=
  (a.server.conns c).any fun k => k.drain = .ended

end RubyHost

/-- What happens in a server with its native calls. -/
inductive RubyEvent where
  | server (e : Event)
  /-- A method of the connection `c` is called. -/
  | called (p : CallId) (c : ConnId) (method : NativeMethod)
  | call (p : CallId) (c : ConnId) (e : CallEvent)
  deriving DecidableEq

/-- The event shows on the native side. -/
def Event.ofNative : Event → Bool
  | .create _ | .conn _ _ => true
  | _ => false

/-- The steps of a server with its native calls. -/
inductive RubyStep (serde : SerdeJson) : RubyHost → RubyEvent → RubyHost → Prop where
  | create {a : RubyHost} {c : ConnId} {w' : World} (hs : Step serde a.server (.create c) w') :
      RubyStep serde a (.server (.create c))
        { a with server := w', outgoing := a.outgoing.insert c .new }
  | conn {a : RubyHost} {c : ConnId} {e : ConnEvent} {o o' : OutgoingQueue} {w' : World}
      (hs : Step serde a.server (.conn c e) w') (ho : a.outgoing c = some o)
      (hn : o.onConn e = some o') :
      RubyStep serde a (.server (.conn c e))
        { a with server := w', outgoing := a.outgoing.insert c o' }
  | server {a : RubyHost} {e : Event} {w' : World} (he : e.ofNative = false)
      (hs : Step serde a.server e w') : RubyStep serde a (.server e) { a with server := w' }
  | called {a : RubyHost} {p : CallId} {c : ConnId} {method : NativeMethod} {o : OutgoingQueue}
      (hp : a.calls p = none) (ho : a.outgoing c = some o) (hr : o.ready) :
      RubyStep serde a (.called p c method)
        { a with calls := a.calls.insert p { conn := c, method, call := .new } }
  | callConn {a : RubyHost} {p : CallId} {e : CallEvent} {ce : ConnEvent} {b b' : NativeCall}
      {k : Connection} {w' : World} (hb : a.calls p = some b) (he : e.conn = some ce)
      (hk : a.server.conns b.conn = some k) (hs : Step serde a.server (.conn b.conn ce) w')
      -- a send returns without sending when `incoming_rx` is gone
      (hg : ∀ m, e = .gone m → k.phase.listening = false) (hn : b.next e = some b') :
      RubyStep serde a (.call p b.conn e)
        { a with server := w', calls := a.calls.insert p b' }
  | call {a : RubyHost} {p : CallId} {e : CallEvent} {b b' : NativeCall} {o o' : OutgoingQueue}
      (hb : a.calls p = some b) (he : e.conn = none) (ho : a.outgoing b.conn = some o)
      (hn : b.next e = some b') (hq : o.onCall p (a.callbackGone b.conn) e = some o') :
      RubyStep serde a (.call p b.conn e)
        { a with outgoing := a.outgoing.insert b.conn o', calls := a.calls.insert p b' }

/-- The runs of a Ruby server made with `config`. -/
abbrev RubyRun (serde : SerdeJson) (config : ServerConfig) (tr : List RubyEvent) (a : RubyHost) :
    Prop :=
  Lts.Run (RubyStep serde) (RubyHost.new config) tr a

/-! ### The run of the server -/

def RubyEvent.toServer : RubyEvent → Option Event
  | .server e => some e
  | .called _ _ _ => none
  | .call _ c e => e.conn.map (.conn c)

/-- What happened in the core. -/
abbrev rubyCore (tr : List RubyEvent) : List Event := Lts.record RubyEvent.toServer tr

section

variable {serde : SerdeJson} {config : ServerConfig} {tr : List RubyEvent} {a a' : RubyHost}

theorem rubyCore_server (tr : List RubyEvent) (e : Event) :
    rubyCore (tr ++ [RubyEvent.server e]) = rubyCore tr ++ [e] := Lts.record_snoc_of_some rfl

/-- A step of the host is one of the server, or leaves it alone. -/
theorem RubyStep.toServer {e : RubyEvent} (h : RubyStep serde a e a') :
    match e.toServer with
    | none => a'.server = a.server
    | some e' => Step serde a.server e' a'.server := by
  cases h with
  | create hs => exact hs
  | conn hs _ _ => exact hs
  | server _ hs => exact hs
  | called _ _ _ => rfl
  | callConn _ he _ hs _ _ =>
      simp only [RubyEvent.toServer, he, Option.map_some]
      exact hs
  | call _ he _ _ _ => simp only [RubyEvent.toServer, he, Option.map_none]

/-- **A run with native calls is a run of the server.** -/
theorem coreRun (h : RubyRun serde config tr a) :
    ServerRun serde config (rubyCore tr) a.server := by
  obtain ⟨w, hrun, rfl⟩ : ∃ w, ServerRun serde config (rubyCore tr) w ∧ a.server = w :=
    h.simulate RubyEvent.toServer (fun a w => a.server = w) (fun _ => True)
    (fun _ _ => trivial) (fun {a w e a'} hR _ _ h => by
      subst hR
      have hs := h.toServer
      cases he : e.toServer with
      | none =>
          rw [he] at hs
          exact hs
      | some e' =>
          rw [he] at hs
          exact ⟨a'.server, hs, rfl⟩)
    rfl
  exact hrun

/-! ### One call -/

variable {p : CallId} {c : ConnId}

/-- What an event makes of the call `p`. -/
inductive NativeCall.Move (p : CallId) (b : NativeCall) : RubyEvent → NativeCall → Prop where
  | own {e : CallEvent} {b' : NativeCall} (hn : b.next e = some b') : Move p b (.call p b.conn e) b'
  | other {e : RubyEvent} (he : ∀ c ce, e ≠ .call p c ce) : Move p b e b

/-- A call stays, and makes one move. -/
theorem RubyStep.callMove {e : RubyEvent} (h : RubyStep serde a e a') {b : NativeCall}
    (hb : a.calls p = some b) : ∃ b', a'.calls p = some b' ∧ NativeCall.Move p b e b' := by
  cases h with
  | create _ | conn _ _ _ | server _ _ => exact ⟨b, hb, .other (by simp)⟩
  | @called p' c method _ hp _ _ =>
      have hne : p ≠ p' := by
        rintro rfl
        rw [hp] at hb; cases hb
      exact ⟨b, (PartialMap.insert_other hne).trans hb, .other (by simp)⟩
  | @callConn p' _ _ b₁ b' _ _ hb₁ _ _ _ _ hn | @call p' _ b₁ b' _ _ hb₁ _ _ hn _ =>
      by_cases hp : p' = p
      · subst hp
        cases hb₁.symm.trans hb
        exact ⟨b', PartialMap.insert_same .., .own hn⟩
      · exact ⟨b, (PartialMap.insert_other (Ne.symm hp)).trans hb, .other (by simp [hp])⟩

/-- A call that is there after a step was there before it, or is made by it. -/
theorem RubyStep.callMove_inv {e : RubyEvent} (h : RubyStep serde a e a') {b' : NativeCall}
    (hb' : a'.calls p = some b') :
    (a.calls p = none ∧ e = .called p b'.conn b'.method ∧ b'.call = .new) ∨
      ∃ b, a.calls p = some b ∧ NativeCall.Move p b e b' := by
  cases hb : a.calls p with
  | some b =>
      obtain ⟨b₁, hb₁, hm⟩ := h.callMove hb
      cases hb₁.symm.trans hb'
      exact .inr ⟨b, rfl, hm⟩
  | none =>
      cases h with
      | create _ | conn _ _ _ | server _ _ => rw [hb] at hb'; cases hb'
      | called _ _ _ =>
          rcases PartialMap.insert_eq_some.mp hb' with ⟨rfl, rfl⟩ | ⟨-, hb'⟩
          · exact .inl ⟨rfl, rfl, rfl⟩
          · rw [hb] at hb'; cases hb'
      | callConn hb₁ _ _ _ _ _ | call hb₁ _ _ _ _ =>
          rcases PartialMap.insert_eq_some.mp hb' with ⟨rfl, -⟩ | ⟨-, hb'⟩
          · rw [hb] at hb₁; cases hb₁
          · rw [hb] at hb'; cases hb'

/-- What has not been called does nothing. -/
theorem not_called_of_absent (h : RubyRun serde config tr a) (hp : a.calls p = none) (c : ConnId)
    (e : CallEvent) : .call p c e ∉ tr := by
  refine h.invariant (fun tr a => a.calls p = none → ∀ c e, .call p c e ∉ tr)
    (fun _ _ _ => List.not_mem_nil) (fun {tr a e a'} _ ih hs hp' c ce hmem => ?_) hp c e
  have hp : a.calls p = none := Option.eq_none_iff_forall_ne_some.mpr fun b hb => by
    obtain ⟨b', hb', -⟩ := hs.callMove hb
    rw [hp'] at hb'; cases hb'
  rcases List.mem_append.mp hmem with hmem | hmem
  · exact ih hp c ce hmem
  · cases List.mem_singleton.mp hmem
    cases hs with
    | callConn hb _ _ _ _ _ | call hb _ _ _ _ => rw [hp] at hb; cases hb

/-- **Invariants of one call and its history.** -/
theorem call_invariant (P : List RubyEvent → NativeCall → Prop)
    (hnew : ∀ {tr c method}, (∀ c e, .call p c e ∉ tr) →
      P (tr ++ [RubyEvent.called p c method]) { conn := c, method, call := .new })
    (hmove : ∀ {tr b e b'}, P tr b → NativeCall.Move p b e b' → P (tr ++ [e]) b')
    (h : RubyRun serde config tr a) {b : NativeCall} (hb : a.calls p = some b) : P tr b := by
  refine h.invariant (fun tr a => ∀ b, a.calls p = some b → P tr b) (fun b hb => by cases hb)
    (fun {tr a e a'} hr ih hs b' hb' => ?_) b hb
  rcases hs.callMove_inv hb' with ⟨hno, rfl, hcall⟩ | ⟨b, hb, hm⟩
  · have hb' : b' = { conn := b'.conn, method := b'.method, call := .new } := by rw [← hcall]
    rw [hb']
    exact hnew (not_called_of_absent hr hno)
  · exact hmove (ih b hb) hm

/-! ### Running the model -/

/-- The event is that a send finds `incoming_rx` dropped. -/
def CallEvent.isGone : CallEvent → Bool
  | .gone _ => true
  | _ => false

/-- The state an event leads to, where it can be computed. -/
def RubyHost.exec (serde : SerdeJson) (a : RubyHost) : RubyEvent → Option RubyHost
  | .server (.create c) => do
    return {
      a with
      server := ← a.server.exec serde (.create c)
      outgoing := a.outgoing.insert c .new }
  | .server (.conn c e) => do
    let o ← a.outgoing c
    let o' ← o.onConn e
    return {
      a with
      server := ← a.server.exec serde (.conn c e)
      outgoing := a.outgoing.insert c o' }
  | .server e => do return { a with server := ← a.server.exec serde e }
  | .called p c method => do
    let o ← a.outgoing c
    if (a.calls p).isNone ∧ o.ready then
      some { a with calls := a.calls.insert p { conn := c, method, call := .new } }
    else none
  | .call p c e => do
    let b ← a.calls p
    if b.conn = c then
      match e.conn with
      | some ce => do
        let k ← a.server.conns b.conn
        let b' ← b.next e
        let w' ← a.server.exec serde (.conn b.conn ce)
        if e.isGone → k.phase.listening = false then
          some { a with server := w', calls := a.calls.insert p b' }
        else none
      | none => do
        let o ← a.outgoing b.conn
        let b' ← b.next e
        let o' ← o.onCall p (a.callbackGone b.conn) e
        some {
          a with
          outgoing := a.outgoing.insert b.conn o'
          calls := a.calls.insert p b' }
    else none

theorem RubyHost.exec_sound {e : RubyEvent} (h : a.exec serde e = some a') :
    RubyStep serde a e a' := by
  have free : ∀ {e : Event}, e.ofNative = false →
      ((a.server.exec serde e).bind fun w' => some { a with server := w' }) = some a' →
      RubyStep serde a (.server e) a' := by
    intro _ he h
    obtain ⟨w', hs, h⟩ := Option.bind_eq_some_iff.mp h
    cases h
    exact .server he (World.exec_sound hs)
  cases e with
  | server e =>
      cases e with
      | create c =>
          obtain ⟨w', hs, h⟩ := Option.bind_eq_some_iff.mp h
          cases h
          exact .create (World.exec_sound hs)
      | conn c e =>
          obtain ⟨o, ho, h⟩ := Option.bind_eq_some_iff.mp h
          obtain ⟨o', hn, h⟩ := Option.bind_eq_some_iff.mp h
          obtain ⟨w', hs, h⟩ := Option.bind_eq_some_iff.mp h
          cases h
          exact .conn (World.exec_sound hs) ho hn
      | _ => exact free rfl h
  | called p c method =>
      obtain ⟨o, ho, h⟩ := Option.bind_eq_some_iff.mp h
      obtain ⟨⟨hp, hr⟩, h⟩ := Option.ite_none_right_eq_some.mp h
      cases h
      exact .called (Option.isNone_iff_eq_none.mp hp) ho hr
  | call p c e =>
      obtain ⟨b, hb, h⟩ := Option.bind_eq_some_iff.mp h
      obtain ⟨rfl, hstep⟩ := Option.ite_none_right_eq_some.mp h
      cases he : e.conn with
      | some ce =>
          rw [he] at hstep
          obtain ⟨k, hk, h⟩ := Option.bind_eq_some_iff.mp hstep
          obtain ⟨b', hn, h⟩ := Option.bind_eq_some_iff.mp h
          obtain ⟨w', hs, h⟩ := Option.bind_eq_some_iff.mp h
          obtain ⟨hg, h⟩ := Option.ite_none_right_eq_some.mp h
          cases h
          exact .callConn hb he hk (World.exec_sound hs) (fun m hm => hg (by rw [hm]; rfl)) hn
      | none =>
          rw [he] at hstep
          obtain ⟨o, ho, h⟩ := Option.bind_eq_some_iff.mp hstep
          obtain ⟨b', hn, h⟩ := Option.bind_eq_some_iff.mp h
          obtain ⟨o', hq, h⟩ := Option.bind_eq_some_iff.mp h
          cases h
          exact .call hb he ho hn hq

end

end Outpunch
