import Outpunch.Ruby.Calls
import Outpunch.Server.Registry

/-!
# Ruby — exactly once

The queues on both sides of the native calls, and the calls themselves, in any run and however the
threads are interrupted (`native_calls_exactly_once`).  A call of `push_message` returns when its
text is on the incoming queue, once, or the connection is shut; a call of `next_outgoing` returns
the message it took, and no other call does.  A call that raises has done neither, and its
exception hit its thread.
-/

namespace Outpunch

open Gvl (Interrupt)

variable {serde : SerdeJson} {config : ServerConfig} {tr : List RubyEvent} {a a' : RubyHost}
  {p : CallId} {c : ConnId} {b b' : NativeCall}

/-! ### The queues and the calls -/

/-- A message a call puts on the incoming queue of `c`. -/
def RubyEvent.puts (c : ConnId) : RubyEvent → Option (CallId × Pushed)
  | .call p c' (.sent m) => if c' = c then some (p, m) else none
  | _ => none

/-- What was put on the incoming queue of `c`, in order, and by which call. -/
abbrev puts (c : ConnId) (tr : List RubyEvent) : List (CallId × Pushed) :=
  Lts.record (RubyEvent.puts c) tr

theorem RubyEvent.puts_eq_some {e : RubyEvent} {m : Pushed} :
    e.puts c = some (p, m) ↔ e = .call p c (.sent m) := by
  cases e with
  | call p' c' e => cases e <;> simp [RubyEvent.puts, and_left_comm]
  | _ => simp [RubyEvent.puts]

theorem mem_puts {m : Pushed} : (p, m) ∈ puts c tr ↔ .call p c (.sent m) ∈ tr := by
  simp only [puts, Lts.mem_record, RubyEvent.puts_eq_some, exists_eq_right]

theorem puts_nodup (h : RubyRun serde config tr a) : ((puts c tr).map Prod.fst).Nodup := by
  refine record_nodup (fun {e p m} he => ?_) h
  obtain rfl := RubyEvent.puts_eq_some.mp he
  exact ⟨_, if_pos rfl⟩

theorem takes_nodup (h : RubyRun serde config tr a) : ((takes c tr).map Prod.fst).Nodup := by
  refine record_nodup (fun {e p msg} he => ?_) h
  obtain rfl := RubyEvent.takes_eq_some.mp he
  exact ⟨_, if_pos rfl⟩

/-- The incoming queue of a connection is written by calls only. -/
theorem arrived_eq_puts (h : RubyRun serde config tr a) (c : ConnId) :
    arrived c (rubyCore tr) = (puts c tr).map Prod.snd := by
  refine h.invariant (fun tr _ => arrived c (rubyCore tr) = (puts c tr).map Prod.snd) rfl
    fun {tr a e a'} _ ih hs => ?_
  have hevent : e.toServer.bind (Event.arrives c) = (e.puts c).map Prod.snd := by
    cases hs with
    | @conn c' ce _ _ _ _ _ hn =>
        cases ce with
        | sent m => cases hn
        | _ => rfl
    | @server e _ he _ =>
        cases e with
        | conn _ _ => cases he
        | _ => rfl
    | @callConn p e ce b _ _ _ _ he _ _ _ _ =>
        rw [RubyEvent.toServer, he]
        cases e with
        | sent m =>
            cases he
            by_cases hc : b.conn = c <;> simp [Event.arrives, RubyEvent.puts, hc]
        | cancelled work =>
            cases work with
            | sending _ => cases he; rfl
            | _ => cases he
        | began _ | closed _ | gone _ => cases he; rfl
        | _ => cases he
    | @call p e b _ _ _ _ he _ _ _ =>
        rw [RubyEvent.toServer, he]
        cases e with
        | sent m => cases he
        | _ => rfl
    | _ => rfl
  have harrived : arrived c (rubyCore (tr ++ [e])) =
      arrived c (rubyCore tr) ++ (e.toServer.bind (Event.arrives c)).toList := by
    rw [rubyCore, Lts.record_snoc, arrived, Lts.record_append]
    cases e.toServer with
    | none => simp
    | some e' => cases hx : e'.arrives c <;> simp [Lts.record, hx]
  have hputs : puts c (tr ++ [e]) = puts c tr ++ (e.puts c).toList := Lts.record_snoc
  rw [harrived, ih, hevent, hputs, List.map_append]
  cases e.puts c <;> rfl

/-- What is recorded of the call `p`. -/
def ofCall {β : Type} (p : CallId) (l : List (CallId × β)) : List β :=
  l.filterMap fun x => if x.1 = p then some x.2 else none

def Completion.putsMessage : Completion → Option Pushed
  | .put m => some m
  | _ => none

def Completion.takesMessage : Completion → Option String
  | .took msg => some msg
  | _ => none

/-- What completed a call is what is recorded of it. -/
theorem ofCall_record {β : Type} {f : RubyEvent → Option (CallId × β)}
    {g : Completion → Option β}
    (hfg : ∀ e ∈ tr, ((f e).bind fun x => if x.1 = p then some x.2 else none) =
      (e.completes p).bind g) :
    ofCall p (Lts.record f tr) = (completionsOf p tr).filterMap g := by
  rw [ofCall, completionsOf, Lts.record, Lts.record, List.filterMap_filterMap,
    List.filterMap_filterMap]
  exact List.filterMap_congr hfg

theorem ofCall_puts (h : RubyRun serde config tr a) (hb : a.calls p = some b) :
    ofCall p (puts b.conn tr) = (completionsOf p tr).filterMap Completion.putsMessage := by
  refine ofCall_record fun e he => ?_
  cases e with
  | call p' c' e =>
      by_cases hp : p' = p
      · subst hp
        cases conn_of_mem h hb he
        cases e <;> simp [RubyEvent.puts, RubyEvent.completes, CallEvent.completes,
          Completion.putsMessage]
      · cases e <;> simp [RubyEvent.puts, RubyEvent.completes, hp]
  | _ => rfl

theorem ofCall_takes (h : RubyRun serde config tr a) (hb : a.calls p = some b) :
    ofCall p (takes b.conn tr) = (completionsOf p tr).filterMap Completion.takesMessage := by
  refine ofCall_record fun e he => ?_
  cases e with
  | call p' c' e =>
      by_cases hp : p' = p
      · subst hp
        cases conn_of_mem h hb he
        cases e <;> simp [RubyEvent.takes, RubyEvent.completes, CallEvent.completes,
          Completion.takesMessage]
      · cases e <;> simp [RubyEvent.takes, RubyEvent.completes, hp]
  | _ => rfl

/-! ### A closed connection -/

/-- `close` was called, or `run` is over: what is pushed is dropped. -/
def Connection.Shut (k : Connection) : Prop :=
  k.incomingTx = false ∨ k.phase.listening = false

theorem Connection.Move.shut_mono {w : World} {k k' : Connection} {e : Event}
    (hm : Connection.Move serde w c k e k') (h : k.Shut) : k'.Shut := by
  refine h.imp hm.closed_mono fun hl => ?_
  -- from `done` no step leads on
  cases hm with
  | own hs =>
      have hn := hs.next
      generalize k.phase = q, k'.phase = q' at hn hl
      cases hn with
      | stay _ => exact hl
      | _ => cases hl
  | register hp | closeReplaced hp _ | respond hp | cleanup hp | runReturned hp _ =>
      rw [hp] at hl; cases hl
  | closed _ | drainEnd _ _ _ | send _ | other _ => exact hl

/-- The call found the connection shut. -/
def FoundShut (p : CallId) (c : ConnId) (tr : List RubyEvent) : Prop :=
  (∃ text, .call p c (.closed text) ∈ tr) ∨ ∃ m, .call p c (.gone m) ∈ tr

theorem foundShut_iff (h : RubyRun serde config tr a) (hb : a.calls p = some b) :
    FoundShut p b.conn tr ↔ .closed ∈ completionsOf p tr := by
  rw [mem_completionsOf]
  constructor
  · rintro (⟨text, he⟩ | ⟨m, he⟩)
    · exact ⟨_, _, he, rfl⟩
    · exact ⟨_, _, he, rfl⟩
  · rintro ⟨c, e, he, hx⟩
    cases conn_of_mem h hb he
    cases e with
    | closed text => exact .inl ⟨text, he⟩
    | gone m => exact .inr ⟨m, he⟩
    | _ => cases hx

/-- A shut connection stays so. -/
theorem RubyStep.shut_mono {e : RubyEvent} (h : RubyStep serde a e a') (hw : a.server.Wf)
    {k : Connection} (hk : a.server.conns c = some k) (hs : k.Shut) :
    ∃ k', a'.server.conns c = some k' ∧ k'.Shut := by
  have hserver := h.toServer
  cases he : e.toServer with
  | none =>
      rw [he] at hserver
      exact ⟨k, hserver ▸ hk, hs⟩
  | some e' =>
      rw [he] at hserver
      obtain ⟨k', hk', hm⟩ := Step.move hserver hw.fresh hw.closesOthers hk
      exact ⟨k', hk', hm.shut_mono hs⟩

/-- Where a call finds its connection shut, it is. -/
theorem RubyStep.shut {e : CallEvent} (h : RubyStep serde a (.call p c e) a')
    (hx : e.completes = some .closed) : ∃ k, a.server.conns c = some k ∧ k.Shut := by
  cases h with
  | @callConn _ _ ce b _ k _ _ he hk hs hg _ =>
      refine ⟨k, hk, ?_⟩
      cases e with
      | closed text =>
          cases he
          obtain ⟨k₁, k', hk₁, hstep, -⟩ := hs.conn_inv
          cases hk₁.symm.trans hk
          cases hstep with
          | pushClosed ho => exact .inl ho
      | gone m => exact .inr (hg m rfl)
      | _ => cases hx
  | call _ he _ _ _ =>
      cases e with
      | closed _ | gone _ => cases he
      | _ => cases hx

theorem shut_of_found (h : RubyRun serde config tr a) (hf : FoundShut p c tr) :
    ∃ k, a.server.conns c = some k ∧ k.Shut := by
  obtain ⟨e, he, hx⟩ : ∃ e, .call p c e ∈ tr ∧ e.completes = some .closed := by
    rcases hf with ⟨text, he⟩ | ⟨m, he⟩
    · exact ⟨_, he, rfl⟩
    · exact ⟨_, he, rfl⟩
  refine h.invariant (fun tr a => .call p c e ∈ tr → ∃ k, a.server.conns c = some k ∧ k.Shut)
    (fun hmem => by cases hmem) (fun {tr a e' a'} hr ih hs hmem => ?_) he
  obtain ⟨k, hk, hshut⟩ : ∃ k, a.server.conns c = some k ∧ k.Shut := by
    rcases List.mem_append.mp hmem with hmem | hmem
    · exact ih hmem
    · cases List.mem_singleton.mp hmem
      exact hs.shut hx
  exact hs.shut_mono (wf_of_run (coreRun hr)) hk hshut

/-! ### How calls end -/

/-- The call has returned `value`, or returns it next. -/
def NativeCall.Returns (b : NativeCall) (value : NativeValue) : Prop :=
  b.call.phase = .returned value ∨
    ∃ b', b.next .settle = some b' ∧ b'.call.phase = .returned value

/-- A call returns what its work gave. -/
theorem NativeCall.returns_iff {value : NativeValue} :
    b.Returns value ↔ b.call.phase.result = some value := by
  constructor
  · rintro (hp | ⟨b', hn, hp⟩)
    · rw [hp]; rfl
    · obtain ⟨-, -, hcall⟩ := NativeCall.next_inv hn
      rw [← Gvl.Call.settle_result hcall, hp]
      rfl
  · intro hresult
    cases hp : b.call.phase with
    | left result =>
        rw [hp] at hresult
        obtain rfl : result = some (some value) := by
          rcases result with - | - | v <;> cases hresult
          rfl
        refine .inr ⟨{ b with call := { b.call with phase := .returned value } }, ?_, rfl⟩
        exact congrArg (Option.map _) (Gvl.Call.settle_of_value hp)
    | returned v =>
        rw [hp] at hresult
        cases hresult
        exact .inl hp
    | entering | inside _ _ | raised _ => rw [hp] at hresult; cases hresult

/-- A call of `push_message` returns when its text was put on the incoming queue once, or the
connection is shut; it raises an exception that hit its thread, and has put nothing. -/
structure PushOnce (p : CallId) (tr : List RubyEvent) (a : RubyHost) (b : NativeCall)
    (text : String) : Prop where
  returns : ∀ value, b.Returns value ↔ value = .sent ∧
    ((∃ m, m.text = text ∧ ofCall p (puts b.conn tr) = [m]) ∨ FoundShut p b.conn tr)
  putOrShut : FoundShut p b.conn tr → ofCall p (puts b.conn tr) = [] ∧
    ∃ k, a.server.conns b.conn = some k ∧ k.Shut
  raises : ∀ err, b.call.phase = .raised err → ofCall p (puts b.conn tr) = [] ∧
    ¬ FoundShut p b.conn tr ∧ Hit p tr (.raises err)

/-- A call of `next_outgoing` returns the message it has taken, or `nil` when none can come; it
raises an exception that hit its thread, and has taken nothing. -/
structure NextOnce (p : CallId) (tr : List RubyEvent) (a : RubyHost) (b : NativeCall) :
    Prop where
  returns : ∀ msg, b.Returns (.message (some msg)) ↔ ofCall p (takes b.conn tr) = [msg]
  returnsNil : ∀ value, b.Returns value → (∀ msg, value ≠ .message (some msg)) →
    value = .message none ∧ ofCall p (takes b.conn tr) = [] ∧
      a.callbackGone b.conn = true ∧ waiting a b.conn = []
  raises : ∀ err, b.call.phase = .raised err → ofCall p (takes b.conn tr) = [] ∧
    Hit p tr (.raises err)

/-- What a call may have done, by what it returns. -/
theorem completionsOf_cases (h : RubyRun serde config tr a) (hb : a.calls p = some b) :
    (completionsOf p tr = [] ∧ ∀ value, ¬ b.Returns value) ∨
      ∃ x : Completion, completionsOf p tr = [x] ∧ x.Of b.method ∧
        ∀ value, b.Returns value ↔ value = x.value := by
  obtain ⟨o, hdone, hvalue, hof⟩ := (callOk_of_run h hb).done
  simp only [NativeCall.returns_iff, hvalue]
  cases o with
  | none => exact .inl ⟨hdone, fun value hv => by cases hv⟩
  | some x => exact .inr ⟨x, hdone, hof x rfl, fun value => by simp [eq_comm]⟩

/-- Nothing is done by a call that raises. -/
theorem completionsOf_of_raised (h : RubyRun serde config tr a) (hb : a.calls p = some b)
    {err : String} (hp : b.call.phase = .raised err) :
    completionsOf p tr = [] ∧ Hit p tr (.raises err) := by
  have hok := callOk_of_run h hb
  refine ⟨?_, hok.struck.raised err hp⟩
  obtain ⟨o, hdone, hvalue, -⟩ := hok.done
  rw [hp] at hvalue
  cases o with
  | none => exact hdone
  | some x => cases hvalue

theorem pushOnce_of_run (h : RubyRun serde config tr a) (hb : a.calls p = some b) {text : String}
    (hm : b.method = .pushMessage text) : PushOnce p tr a b text := by
  have hputs := ofCall_puts h hb
  have hshut := foundShut_iff h hb
  refine ⟨fun value => ?_, fun hf => ⟨?_, shut_of_found h hf⟩, fun err he => ?_⟩
  · rw [hputs, hshut]
    rcases completionsOf_cases h hb with ⟨hnil, hno⟩ | ⟨x, hone, hof, hret⟩
    · rw [hnil]
      simp [hno]
    · rw [hret, hone]
      rw [hm] at hof
      cases x with
      | put m =>
          obtain rfl : m.text = text := hof
          simp [Completion.value, Completion.putsMessage]
      | closed => simp [Completion.value]
      | took _ | ended => exact hof.elim
  · rw [hputs]
    rw [hshut] at hf
    rcases completionsOf_cases h hb with ⟨hnil, -⟩ | ⟨x, hone, -⟩
    · rw [hnil]; rfl
    · rw [hone] at hf ⊢
      cases List.mem_singleton.mp hf
      rfl
  · obtain ⟨hnil, hhit⟩ := completionsOf_of_raised h hb he
    rw [hputs, hshut, hnil]
    exact ⟨rfl, List.not_mem_nil, hhit⟩

theorem nextOnce_of_run (h : RubyRun serde config tr a) (hb : a.calls p = some b)
    (hm : b.method = .nextOutgoing) : NextOnce p tr a b := by
  have htakes := ofCall_takes h hb
  refine ⟨fun msg => ?_, fun value hv hne => ?_, fun err he => ?_⟩
  · rw [htakes]
    rcases completionsOf_cases h hb with ⟨hnil, hno⟩ | ⟨x, hone, hof, hret⟩
    · rw [hnil]
      simp [hno]
    · rw [hret, hone]
      rw [hm] at hof
      cases x with
      | took msg' => simp [Completion.value, Completion.takesMessage, eq_comm]
      | ended => exact iff_of_false (by simp [Completion.value]) fun hf => by cases hf
      | put _ | closed => exact hof.elim
  · rw [htakes]
    rcases completionsOf_cases h hb with ⟨-, hno⟩ | ⟨x, hone, hof, hret⟩
    · exact absurd hv (hno value)
    · rw [hm] at hof
      obtain rfl := (hret value).mp hv
      cases x with
      | took msg => exact absurd rfl (hne msg)
      | ended =>
          have hmem : .ended ∈ completionsOf p tr := by rw [hone]; exact List.mem_singleton_self _
          obtain ⟨c, e, he, hx⟩ := mem_completionsOf.mp hmem
          cases conn_of_mem h hb he
          cases e with
          | ended => exact ⟨rfl, by rw [hone]; rfl, drained_of_ended h he⟩
          | _ => cases hx
      | put _ | closed => exact hof.elim
  · obtain ⟨hnil, hhit⟩ := completionsOf_of_raised h hb he
    rw [htakes, hnil]
    exact ⟨rfl, hhit⟩

/-! ### Every run -/

/-- What was put on an incoming queue was put by a call that returns. -/
theorem putter_of_run (h : RubyRun serde config tr a) {m : Pushed} (hmem : (p, m) ∈ puts c tr) :
    ∃ b, a.calls p = some b ∧ b.conn = c ∧ b.method = .pushMessage m.text ∧
      b.Returns .sent := by
  obtain ⟨b, hb, hconn, -, hresult, hof⟩ := completed_of_mem h (mem_puts.mp hmem) rfl
  refine ⟨b, hb, hconn, ?_, NativeCall.returns_iff.mpr hresult⟩
  cases hm : b.method with
  | pushMessage text =>
      rw [hm] at hof
      exact congrArg _ (Eq.symm hof)
  | nextOutgoing => rw [hm] at hof; exact hof.elim

/-- What was taken from a channel is what a call returns. -/
theorem taker_of_run (h : RubyRun serde config tr a) {msg : String}
    (hmem : (p, msg) ∈ takes c tr) :
    ∃ b, a.calls p = some b ∧ b.conn = c ∧ b.method = .nextOutgoing ∧
      b.Returns (.message (some msg)) := by
  obtain ⟨b, hb, hconn, -, hresult, hof⟩ := completed_of_mem h (mem_takes.mp hmem) rfl
  refine ⟨b, hb, hconn, ?_, NativeCall.returns_iff.mpr hresult⟩
  cases hm : b.method with
  | pushMessage text => rw [hm] at hof; exact hof.elim
  | nextOutgoing => rfl

/-- A call that begins after a message was taken takes a later one. -/
theorem takes_order (h : RubyRun serde config tr a) {tr₁ tr₂ : List RubyEvent}
    {x y : CallId × String} (htr : tr = tr₁ ++ tr₂) (hx : x ∈ takes c tr₁) (hy : y ∈ takes c tr)
    (hno : ∀ c' method, .called y.1 c' method ∉ tr₁) : [x, y].Sublist (takes c tr) := by
  subst htr
  obtain ⟨a₁, h₁, -⟩ := Lts.Run.split tr₁ tr₂ h
  have happend : takes c (tr₁ ++ tr₂) = takes c tr₁ ++ takes c tr₂ := Lts.record_append ..
  have hlater : y ∉ takes c tr₁ := fun hy => by
    cases hb : a₁.calls y.1 with
    | none => exact not_called_of_absent h₁ hb c _ (mem_takes.mp hy)
    | some b => exact hno _ _ (called_of_run h₁ hb)
  rw [happend] at hy ⊢
  have hy := (List.mem_append.mp hy).resolve_left hlater
  exact (List.singleton_sublist.mpr hx).append (List.singleton_sublist.mpr hy)

/-- What holds of the native calls of a run, and of the queues on both sides of them. -/
structure ExactlyOnce (tr : List RubyEvent) (a : RubyHost) : Prop where
  pushes : ∀ {p b text}, a.calls p = some b → b.method = .pushMessage text →
    PushOnce p tr a b text
  nexts : ∀ {p b}, a.calls p = some b → b.method = .nextOutgoing → NextOnce p tr a b
  /-- What is on an incoming queue was put there by calls, each once. -/
  incoming : ∀ c, arrived c (rubyCore tr) = (puts c tr).map Prod.snd ∧
    ((puts c tr).map Prod.fst).Nodup
  putter : ∀ {p c m}, (p, m) ∈ puts c tr →
    ∃ b, a.calls p = some b ∧ b.conn = c ∧ b.method = .pushMessage m.text ∧ b.Returns .sent
  /-- What was enqueued is what calls have taken, each once, and what waits. -/
  outgoing : ∀ c, enqueued c (rubyCore tr) = (takes c tr).map Prod.snd ++ waiting a c ∧
    ((takes c tr).map Prod.fst).Nodup
  taker : ∀ {p c msg}, (p, msg) ∈ takes c tr →
    ∃ b, a.calls p = some b ∧ b.conn = c ∧ b.method = .nextOutgoing ∧
      b.Returns (.message (some msg))
  order : ∀ {c tr₁ tr₂ x y}, tr = tr₁ ++ tr₂ → x ∈ takes c tr₁ → y ∈ takes c tr →
    (∀ c' method, .called y.1 c' method ∉ tr₁) → [x, y].Sublist (takes c tr)

/-- **Native calls are exactly once**, however their threads are interrupted. -/
theorem native_calls_exactly_once (h : RubyRun serde config tr a) : ExactlyOnce tr a where
  pushes hb hm := pushOnce_of_run h hb hm
  nexts := nextOnce_of_run h
  incoming c := ⟨arrived_eq_puts h c, puts_nodup h⟩
  putter := putter_of_run h
  outgoing c := ⟨enqueued_eq_takes h c, takes_nodup h⟩
  taker := taker_of_run h
  order := takes_order h

/-- A call of `push_message` that is not run at first, then wakes up while it sends, and is hit by
an exception as its send completes. -/
def interruptedPush (p : CallId) (c : ConnId) (text : String) : List RubyEvent :=
  RubyEvent.called p c (.pushMessage text) ::
    [CallEvent.interrupt .quiet, .enter, .settle, .enter, .began { n := 0, text },
      .interrupt (.deferred "later"), .cancelled (.sending { n := 0, text }), .settle, .enter,
      .began { n := 1, text }, .interrupt (.raises "stop"), .sent { n := 1, text },
      .settle].map (.call p c)

/-- A call of `next_outgoing` that waits until it is hit by an exception. -/
def stoppedNext (p : CallId) (c : ConnId) : List RubyEvent :=
  RubyEvent.called p c .nextOutgoing ::
    [CallEvent.enter, .locked, .interrupt (.raises "stop"), .cancelled .receiving,
      .settle].map (.call p c)

/-- A call of `next_outgoing` that is woken up as it gets `msg`. -/
def wokenNext (p : CallId) (c : ConnId) (msg : String) : List RubyEvent :=
  RubyEvent.called p c .nextOutgoing ::
    [CallEvent.enter, .locked, .interrupt .quiet, .received msg, .settle].map (.call p c)

/-- The first message of a client is pushed by the call 1.  The call 2 waits for the answer, and
the call 3 gets it. -/
def interruptedCalls : List RubyEvent :=
  let text := compactJson.toString
    (AuthMessage.toValue { msgType := "auth", token := demoConfig.secret, service := "app" })
  let ok := authOkText compactJson
  [RubyEvent.server (.create 1), .server (.conn 1 .onMessage)] ++ interruptedPush 1 1 text ++
    stoppedNext 2 1 ++
    [RubyEvent.server (.conn 1 .run), .server (.conn 1 (.authRecv { n := 1, text })),
      .server (.conn 1 (.check (some "app"))), .server (.conn 1 (.reply ok)),
      .server (.conn 1 (.deliver ok))] ++
    wokenNext 3 1 ok

/-- How the calls of that run end. -/
def interruptedEnds (a : RubyHost) : Prop :=
  (∃ b, a.calls 1 = some b ∧ b.call.phase = .returned .sent) ∧
    (∃ b, a.calls 2 = some b ∧ b.call.phase = .raised "stop") ∧
      ∃ b, a.calls 3 = some b ∧
        b.call.phase = .returned (.message (some (authOkText compactJson)))

theorem exists_interruptedCalls :
    ∃ a, RubyRun compactJson demoConfig interruptedCalls a ∧ interruptedEnds a := by
  have htest : (Lts.execAll (RubyHost.exec compactJson) (RubyHost.new demoConfig)
      interruptedCalls).any fun a =>
        ((a.calls 1).any fun b => decide (b.call.phase = .returned .sent)) &&
          ((a.calls 2).any fun b => decide (b.call.phase = .raised "stop")) &&
            (a.calls 3).any fun b =>
              decide (b.call.phase = .returned (.message (some (authOkText compactJson)))) := by
    decide +kernel
  obtain ⟨a, h, hends⟩ := Lts.exists_run_of_execAll RubyHost.exec_sound _ htest
  simp only [Bool.and_eq_true, Option.any_eq_true, decide_eq_true_eq] at hends
  exact ⟨a, h, hends.1.1, hends.1.2, hends.2⟩

/-- An interrupt skips a call, one comes while it waits, and one as it completes. -/
theorem native_calls_exactly_once_interrupted :
    ∃ a, RubyRun compactJson demoConfig interruptedCalls a ∧ interruptedEnds a ∧
      ExactlyOnce interruptedCalls a := by
  obtain ⟨a, h, hends⟩ := exists_interruptedCalls
  exact ⟨a, h, hends, native_calls_exactly_once h⟩

end Outpunch
