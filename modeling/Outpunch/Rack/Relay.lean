import Outpunch.Rack.Threads

/-!
# Rack — towards the core

What the driver of a bridge gives goes to the core in order: what has been pushed, with the text
that is being pushed and the handlers still to be called, is what the driver gave, as long as the
connection is not shut (`Flow`).
-/

namespace Outpunch

variable {serde : SerdeJson} {config : ServerConfig} {tr : List RackEvent} {a a' : Rack}
  {c : ConnId} {p : CallId} {b b' : RackBridge} {e : RackEvent}

/-! ### What goes through -/

/-- The texts the driver of `c` finds in what was read. -/
def RackEvent.gives (c : ConnId) : RackEvent → List String
  | .upgraded c' events | .bridge c' (.read events) => if c' = c then payloads events else []
  | _ => []

/-- What it has found, in order. -/
def given (c : ConnId) (tr : List RackEvent) : List String := tr.flatMap (RackEvent.gives c)

/-- A call of `push_message` of the bridge of `c`. -/
def RackEvent.pushes (c : ConnId) : RackEvent → Option (CallId × String)
  | .bridge c' (.push p text) => if c' = c then some (p, text) else none
  | _ => none

abbrev pushes (c : ConnId) (tr : List RackEvent) : List (CallId × String) :=
  Lts.record (RackEvent.pushes c) tr

/-- A message handed to the driver of `c`, which writes it to the socket. -/
def RackEvent.hands (c : ConnId) : RackEvent → Option String
  | .bridge c' (.handed msg _) => if c' = c then some msg else none
  | _ => none

/-- What was handed to the driver of `c`, in order. -/
abbrev toDriver (c : ConnId) (tr : List RackEvent) : List String :=
  Lts.record (RackEvent.hands c) tr

theorem given_snoc (e : RackEvent) : given c (tr ++ [e]) = given c tr ++ e.gives c := by
  simp [given]

/-- The event at the native connections. -/
def RackEvent.toHost (e : RackEvent) : Option RubyEvent := e.toProcess.bind ProcessEvent.toHost

/-- A step is one of the native connections, or leaves them alone. -/
theorem RackStep.toHost (hs : RackStep serde a e a') :
    match e.toHost with
    | none => a'.process.host = a.process.host
    | some e' => RubyStep serde a.process.host e' a'.process.host := by
  have hp := hs.toProcess
  unfold RackEvent.toHost
  cases he : e.toProcess with
  | none =>
      rw [he] at hp
      exact congrArg RubyProcess.host hp
  | some pe =>
      rw [he] at hp
      exact ProcessStep.toHost hp

theorem record_rackHost {β : Type} (f : RubyEvent → Option β) (tr : List RackEvent) :
    Lts.record f (rackHost tr) = Lts.record (fun e => e.toHost.bind f) tr := by
  simp only [Lts.record, List.filterMap_filterMap, RackEvent.toHost, Option.bind_assoc]

theorem record_rackHost_of_none {β : Type} {f : RubyEvent → Option β}
    (h : e.toHost.bind f = none) :
    Lts.record f (rackHost (tr ++ [e])) = Lts.record f (rackHost tr) := by
  rw [record_rackHost, record_rackHost]
  exact Lts.record_snoc_of_none h

theorem record_rackHost_of_some {β : Type} {f : RubyEvent → Option β} {x : β}
    (h : e.toHost.bind f = some x) :
    Lts.record f (rackHost (tr ++ [e])) = Lts.record f (rackHost tr) ++ [x] := by
  rw [record_rackHost, record_rackHost]
  exact Lts.record_snoc_of_some h

/-- Only a call itself takes its steps. -/
theorem RackEvent.toHost_call {ce : CallEvent} (h : e.toHost = some (.call p c ce)) :
    e = .process (.host (.call p c ce)) := by
  obtain ⟨pe, hpe, h⟩ := Option.bind_eq_some_iff.mp h
  obtain rfl := ProcessEvent.toHost_call h
  cases e with
  | process _ => cases hpe; rfl
  | upgraded _ _ => cases hpe
  | bridge c' be =>
      cases be with
      | closeFrame handler _ => cases handler <;> cases hpe
      | _ => cases hpe

/-- The event is one of the bridge of `c`. -/
def RackEvent.ofBridge (c : ConnId) : RackEvent → Prop
  | .process _ => False
  | .upgraded c' _ | .bridge c' _ => c' = c

theorem RackEvent.quiet_of_not (he : ¬ e.ofBridge c) :
    e.gives c = [] ∧ e.pushes c = none ∧ e.hands c = none := by
  cases e with
  | process _ => exact ⟨rfl, rfl, rfl⟩
  | upgraded c' events => exact ⟨if_neg he, rfl, rfl⟩
  | bridge c' be => cases be <;> simp_all [gives, pushes, hands, ofBridge]

/-- An event that is no step of a bridge that is there. -/
theorem RackStep.not_ofBridge (hs : RackStep serde a e a') (hb : a.bridges c = some b)
    (he : ∀ be, e ≠ .bridge c be) : ¬ e.ofBridge c := by
  cases hs with
  | process _ _ => exact id
  | upgraded hno _ _ =>
      rintro rfl
      rw [hno] at hb; cases hb
  | bridge _ _ _ =>
      rintro rfl
      exact he _ rfl

/-- Nothing has gone through a bridge that is not there. -/
theorem quiet_of_absent (h : RackRun serde config tr a) (hb : a.bridges c = none) :
    given c tr = [] ∧ pushes c tr = [] ∧ toDriver c tr = [] := by
  have hno : ∀ e ∈ tr, ¬ e.ofBridge c := by
    refine h.invariant (fun tr a => a.bridges c = none → ∀ e ∈ tr, ¬ e.ofBridge c)
      (fun _ e he => by cases he) (fun {tr a e a'} _ ih hs hb' e₁ he₁ => ?_) hb
    have hb : a.bridges c = none := Option.eq_none_iff_forall_ne_some.mpr fun b hb => by
      obtain ⟨b', hb₁, -⟩ := hs.bridgeMove hb
      rw [hb'] at hb₁; cases hb₁
    rcases List.mem_append.mp he₁ with he₁ | he₁
    · exact ih hb e₁ he₁
    · obtain rfl := List.mem_singleton.mp he₁
      cases hs with
      | process _ _ => exact id
      | upgraded _ _ _ =>
          rintro rfl
          cases (PartialMap.insert_same ..).symm.trans hb'
      | bridge hb₁ _ _ =>
          rintro rfl
          rw [hb] at hb₁; cases hb₁
  refine ⟨List.flatMap_eq_nil_iff.mpr fun e he => (RackEvent.quiet_of_not (hno e he)).1,
    Lts.record_eq_nil.mpr fun e he => (RackEvent.quiet_of_not (hno e he)).2.1,
    Lts.record_eq_nil.mpr fun e he => (RackEvent.quiet_of_not (hno e he)).2.2⟩

/-! ### What the driver gives is pushed -/

/-- The handlers that are still to be called, as long as `run` goes on. -/
def RackReader.events : RackReader → Option (List DriverEvent)
  | .driver _ events | .pushing _ _ events => some events
  | .spawning | .reading => some []
  | _ => none

/-- What the driver has given was pushed, in order, or is still to be. -/
def Pushes (c : ConnId) (tr : List RackEvent) (b : RackBridge) : Prop :=
  ∃ rest, given c tr = (pushes c tr).map Prod.snd ++ rest ∧
    ∀ events, b.reader.events = some events → rest = payloads events

namespace Pushes

/-- A step of which nothing shows. -/
theorem quiet (h : Pushes c tr b) (hg : e.gives c = []) (hp : e.pushes c = none)
    (hr : ∀ events', b'.reader.events = some events' →
      ∃ events, b.reader.events = some events ∧ payloads events' = payloads events) :
    Pushes c (tr ++ [e]) b' := by
  obtain ⟨rest, hgiven, hrest⟩ := h
  have hpush : pushes c (tr ++ [e]) = pushes c tr := Lts.record_snoc_of_none hp
  refine ⟨rest, ?_, fun events' he' => ?_⟩
  · rw [given_snoc, hg, List.append_nil, hpush, hgiven]
  · obtain ⟨events, he, heq⟩ := hr events' he'
    rw [hrest events he, heq]

theorem step {x : RubyProcess} {be : RackBridgeEvent} (h : Pushes c tr b)
    (hn : RackBridge.Next x b be b') : Pushes c (tr ++ [RackEvent.bridge c be]) b' := by
  -- a step after which no handler is to be called any more
  have ends : (RackEvent.bridge c be).gives c = [] → (RackEvent.bridge c be).pushes c = none →
      b'.reader.events = none → Pushes c (tr ++ [RackEvent.bridge c be]) b' :=
    fun hg hp hr => h.quiet hg hp fun _ he => by rw [hr] at he; cases he
  have same : (RackEvent.bridge c be).gives c = [] → (RackEvent.bridge c be).pushes c = none →
      b'.reader = b.reader → Pushes c (tr ++ [RackEvent.bridge c be]) b' :=
    fun hg hp hr => h.quiet hg hp fun events' he => ⟨events', hr ▸ he, rfl⟩
  cases hn with
  | @push starting p text rest hr =>
      obtain ⟨rest', hgiven, hrest⟩ := h
      have hpush : pushes c (tr ++ [RackEvent.bridge c (.push p text)]) =
          pushes c tr ++ [(p, text)] := Lts.record_snoc_of_some (if_pos rfl)
      obtain rfl := hrest _ (by rw [hr]; rfl)
      refine ⟨payloads rest, ?_, fun events he => by cases he; rfl⟩
      rw [given_snoc, hpush, hgiven, List.map_append, List.append_assoc _ _ (payloads rest)]
      exact List.append_nil _
  | @read events hr _ =>
      obtain ⟨rest', hgiven, hrest⟩ := h
      have hpush : pushes c (tr ++ [RackEvent.bridge c (.read events)]) = pushes c tr :=
        Lts.record_snoc_of_none rfl
      obtain rfl := hrest [] (by rw [hr]; rfl)
      refine ⟨payloads events, ?_, fun events' he => by cases he; rfl⟩
      rw [given_snoc, hpush, hgiven, List.append_assoc]
      exact congrArg _ (if_pos rfl)
  | pushed hr _ => exact h.quiet rfl rfl fun _ he => by cases he; exact ⟨_, by rw [hr]; rfl, rfl⟩
  | @handled _ d rest _ hr hd he =>
      refine h.quiet ?_ ?_ fun _ hev => ?_
      · rcases he with rfl | rfl | rfl <;> rfl
      · rcases he with rfl | rfl | rfl <;> rfl
      · cases hev
        exact ⟨_, by rw [hr]; rfl, (List.filterMap_cons_none hd).symm⟩
  | spawnCore hr | spawnWriter hr | parsed hr =>
      exact h.quiet rfl rfl fun _ he => by cases he; exact ⟨_, by rw [hr]; rfl, rfl⟩
  | pushRaised _ _ | refused _ | writeRaised _ | readRaised _ | close _ | joinCore _ _
  | coreRaised _ _ | joinWriter _ _ | writerRaised _ _ | closeIo _ | closeIoRaised _ _ =>
      exact ends rfl rfl rfl
  | run _ | next _ | taken _ _ | finished _ _ _ | takeRaised _ _ | handed _ | handRaised _
  | closeFrame _ | closeFrameRaised _ | writerCloseIo _ | writerCloseIoRaised _ =>
      exact same rfl rfl rfl

end Pushes

theorem pushes_of_run (h : RackRun serde config tr a) (hb : a.bridges c = some b) :
    Pushes c tr b := by
  refine rack_invariant (fun tr _ b => Pushes c tr b) (fun {tr a events a'} hr hno hs => ?_)
    (fun hr hb ih hs hm => ?_) h hb
  · obtain ⟨hgiven, hpushes, -⟩ := quiet_of_absent hr hno
    have hpush : pushes c (tr ++ [RackEvent.upgraded c events]) = pushes c tr :=
      Lts.record_snoc_of_none rfl
    refine ⟨payloads events, ?_, fun events' he => by cases he; rfl⟩
    rw [given_snoc, hpush, hgiven, hpushes]
    exact if_pos rfl
  · cases hm with
    | own hn => exact ih.step hn
    | other he =>
        obtain ⟨hg, hp, -⟩ := RackEvent.quiet_of_not (hs.not_ofBridge hb he)
        exact ih.quiet hg hp fun events' he => ⟨events', he, rfl⟩

/-! ### What is pushed arrives -/

/-- A process that takes an event or stays as it is keeps its connections and their ends. -/
theorem RubyProcess.Takes.connMove {x x' : RubyProcess} {pe : Option ProcessEvent}
    (h : x.Takes serde x' pe) (hw : x.server.Wf) {k : Connection}
    (hk : x.server.conns c = some k) :
    ∃ k', x'.server.conns c = some k' ∧ (k.incomingTx = false → k'.incomingTx = false) ∧
      (k.phase.isDone → k'.phase.isDone) := by
  cases pe with
  | none => cases h; exact ⟨k, hk, id, id⟩
  | some e =>
      obtain ⟨k', hk', htx, hdone, -⟩ := ProcessStep.connMove h hw hk
      exact ⟨k', hk', htx, hdone⟩

theorem Connection.shut_iff {k : Connection} : k.Shut ↔ k.incomingTx = false ∨ k.phase.isDone := by
  rw [Connection.Shut, Phase.isDone_iff]

/-- What reached the incoming queue of `c`, and by which call. -/
def reached (c : ConnId) (tr : List RackEvent) : List (CallId × String) :=
  (puts c (rackHost tr)).map fun x => (x.1, x.2.text)

/-- Only a send of a call puts anything on the queue. -/
theorem reached_quiet (he : ∀ p m, e.toHost ≠ some (.call p c (.sent m))) :
    reached c (tr ++ [e]) = reached c tr := by
  have hno : e.toHost.bind (RubyEvent.puts c) = none := by
    refine Option.eq_none_iff_forall_ne_some.mpr fun x hx => ?_
    obtain ⟨e', he', hx⟩ := Option.bind_eq_some_iff.mp hx
    exact he x.1 x.2 (he'.trans (congrArg some (RubyEvent.puts_eq_some.mp hx)))
  rw [reached, reached, puts, puts, record_rackHost_of_none hno]

theorem reached_sent {m : Pushed} :
    reached c (tr ++ [RackEvent.process (.host (.call p c (.sent m)))]) =
      reached c tr ++ [(p, m.text)] := by
  have hputs : (RackEvent.process (.host (.call p c (.sent m)))).toHost.bind (RubyEvent.puts c) =
      some (p, m) := if_pos rfl
  rw [reached, reached, puts, puts, record_rackHost_of_some hputs, List.map_append]
  rfl

/-- The call of `push_message` the reader is in. -/
def RackReader.call : RackReader → Option CallId
  | .pushing _ p _ => some p
  | _ => none

/-- The call puts nothing on the queue of its connection any more. -/
def NativeCall.Doomed (n : NativeCall) (k : Connection) : Prop :=
  k.phase.isDone ∨ k.incomingTx = false ∧ ∀ m permit, n.call.phase ≠ .inside (.sending m) permit

/-- What was pushed on a connection has reached its queue, in order, the last text when its call is
over; once the connection is shut, or the bridge is, no more of it. -/
inductive Flow (a : Rack) (c : ConnId) (b : RackBridge) (reached pushed : List (CallId × String)) :
    Prop where
  | all (heq : reached = pushed)
      (hr : ∀ p n, b.reader.call = some p → a.process.host.calls p = some n →
        n.call.phase.result ≠ none)
  | next {p : CallId} {n : NativeCall} {text : String} (heq : pushed = reached ++ [(p, text)])
      (hp : b.reader.call = some p) (hn : a.process.host.calls p = some n)
      (hm : n.method = .pushMessage text) (hr : n.call.phase.result = none)
  | shut {k : Connection} (hpre : reached <+: pushed) (hk : a.process.server.conns c = some k)
      (hs : k.Shut)
      (hd : ∀ p n, b.reader.call = some p → a.process.host.calls p = some n → n.Doomed k)
  | left (hpre : reached <+: pushed) (hr : b.reader.events = none)

namespace Flow

variable {rs ps : List (CallId × String)}

theorem isPrefix (h : Flow a c b rs ps) : rs <+: ps := by
  cases h with
  | all heq _ => rw [heq]
  | next heq _ _ _ _ => exact ⟨_, heq.symm⟩
  | shut hpre _ _ _ | left hpre _ => exact hpre

/-- A step that is none of the call the reader is in, and after which it is in no other. -/
theorem keep (h : Flow a c b rs ps) (hw : a.process.server.Wf) (hs : RackStep serde a e a')
    (hcall : ∀ p, b'.reader.call = some p → b.reader.call = some p ∧
      a'.process.host.calls p = a.process.host.calls p)
    (hnext : ∀ p n, b.reader.call = some p → a.process.host.calls p = some n →
      n.call.phase.result = none → b'.reader.call = some p ∨ b'.reader.events = none)
    (hleft : b.reader.events = none → b'.reader.events = none) : Flow a' c b' rs ps := by
  cases h with
  | all heq hr =>
      refine .all heq fun p n hp hn => ?_
      obtain ⟨hp, hsame⟩ := hcall p hp
      exact hr p n hp (hsame ▸ hn)
  | next heq hp hn hm hr =>
      rcases hnext _ _ hp hn hr with hp' | hl
      · exact .next heq hp' ((hcall _ hp').2.trans hn) hm hr
      · exact .left ⟨_, heq.symm⟩ hl
  | shut hpre hk hshut hd =>
      obtain ⟨k', hk', htx, hdone⟩ := hs.toProcess.connMove hw hk
      refine .shut hpre hk' ?_ fun p n hp hn => ?_
      · exact Connection.shut_iff.mpr ((Connection.shut_iff.mp hshut).imp htx hdone)
      · obtain ⟨hp, hsame⟩ := hcall p hp
        exact (hd p n hp (hsame ▸ hn)).imp hdone (And.imp_left htx)
  | left hpre hr => exact .left hpre (hleft hr)

theorem doomed_of_completes {n n' : NativeCall} {ce : CallEvent} {k : Connection} (hs : k.Shut)
    (hn : n.next ce = some n') (hx : ce.completes ≠ none) : n'.Doomed k := by
  obtain ⟨-, -, hcall⟩ := NativeCall.next_inv hn
  refine (Connection.shut_iff.mp hs).symm.imp_right fun htx => ⟨htx, fun m permit hp => ?_⟩
  have hresult := (NativeCall.does_of_stepCall hcall).result
  cases hce : ce.completes with
  | none => exact hx hce
  | some x =>
      rw [hce, hp] at hresult
      cases hresult.2

/-- A call sends when it has begun to. -/
theorem sending_inv {n n' : NativeCall} {ce : CallEvent} {m : Pushed} {permit : Bool}
    (h : n.next ce = some n') (hp : n'.call.phase = .inside (.sending m) permit) :
    (∃ permit, n.call.phase = .inside (.sending m) permit) ∨ ce = .began m := by
  obtain ⟨-, -, hcall⟩ := NativeCall.next_inv h
  cases ce with
  | interrupt i =>
      rcases (Gvl.Call.interrupt_inv hcall).2 with ⟨work, permit', hp₀, hp'⟩ | ⟨-, hp'⟩
      · cases hp'.symm.trans hp
        exact .inl ⟨_, hp₀⟩
      · exact .inl ⟨_, hp'.symm.trans hp⟩
  | enter =>
      obtain ⟨-, -, hp' | hp'⟩ := Gvl.Call.enter_inv hcall
      · have hwork := (Gvl.CallPhase.inside.inj (hp'.symm.trans hp)).1
        cases hm : n.method <;> rw [hm] at hwork <;> cases hwork
      · cases hp'.symm.trans hp
  | began m' =>
      obtain ⟨-, hcall⟩ := Option.ite_none_right_eq_some.mp hcall
      obtain ⟨_, -, hp'⟩ := Gvl.Call.advance_inv hcall
      rw [hp'] at hp
      cases hp
      exact .inr rfl
  | locked =>
      obtain ⟨_, -, hp'⟩ := Gvl.Call.advance_inv hcall
      rw [hp'] at hp; cases hp
  | closed text =>
      obtain ⟨-, hcall⟩ := Option.ite_none_right_eq_some.mp hcall
      obtain ⟨_, -, hp'⟩ := Gvl.Call.finish_inv hcall
      rw [hp'] at hp; cases hp
  | sent _ | gone _ | received _ | ended =>
      obtain ⟨_, -, hp'⟩ := Gvl.Call.finish_inv hcall
      rw [hp'] at hp; cases hp
  | cancelled work =>
      simp only [NativeCall.stepCall] at hcall
      split at hcall
      · cases hcall
      · rw [(Gvl.Call.cancel_inv hcall).2] at hp; cases hp
  | settle =>
      rcases Gvl.Call.settle_inv hcall with ⟨value, -, hp'⟩ | ⟨-, -, hp' | ⟨err, -, hp'⟩⟩ <;>
        rw [hp'] at hp <;> cases hp

/-- A call that puts nothing any more goes on so. -/
theorem doomed_step {x' : RubyHost} {n n' : NativeCall} {ce : CallEvent} {k k' : Connection}
    (h : n.Doomed k) (hs : RubyStep serde a.process.host (.call p n.conn ce) x')
    (hk : a.process.server.conns n.conn = some k) (hn : n.next ce = some n')
    (htx : k.incomingTx = false → k'.incomingTx = false)
    (hdone : k.phase.isDone → k'.phase.isDone) : n'.Doomed k' ∧ ∀ m, ce ≠ .sent m := by
  -- what the core does for the call it does in `k`
  have inCore : ∀ {e}, ce.conn = some e →
      ∃ k₁, Connection.Step serde a.process.server.state.config k e k₁ := by
    intro e he
    generalize hconn : n.conn = c at hs hk
    cases hs with
    | @callConn _ _ _ _ _ k₂ _ hb he' _ hs _ _ =>
        cases he.symm.trans he'
        obtain ⟨k₀, k₁, hk₀, hstep, -⟩ := hs.conn_inv
        cases hk₀.symm.trans hk
        exact ⟨k₁, hstep⟩
    | call _ he' _ _ _ => rw [he] at he'; cases he'
  have hsent : ∀ m, ce ≠ .sent m := by
    rintro m rfl
    obtain ⟨-, -, hcall⟩ := NativeCall.next_inv hn
    obtain ⟨permit, hp, -⟩ := Gvl.Call.finish_inv hcall
    rcases h with hover | ⟨-, hno⟩
    · obtain ⟨k₁, hstep⟩ := inCore rfl
      cases hstep with
      | sent _ hl _ =>
          rw [Phase.isDone_iff, hl] at hover
          cases hover
    · exact hno m permit hp
  refine ⟨?_, hsent⟩
  rcases h with hover | ⟨hclosed, hno⟩
  · exact .inl (hdone hover)
  · refine .inr ⟨htx hclosed, fun m permit hp => ?_⟩
    rcases sending_inv hn hp with ⟨permit', hp'⟩ | rfl
    · exact hno m permit' hp'
    · obtain ⟨k₁, hstep⟩ := inCore rfl
      cases hstep with
      | push _ ho => rw [hclosed] at ho; cases ho

/-- A step of the call the reader is in. -/
theorem call {n n' : NativeCall} {ce : CallEvent} (h : Flow a c b (reached c tr) ps)
    (hrun : RackRun serde config tr a)
    (hs : RackStep serde a (.process (.host (.call p c ce))) a') (hp : b.reader.call = some p)
    (hn : a.process.host.calls p = some n) (hconn : n.conn = c) {text : String}
    (hm : n.method = .pushMessage text) (hnext : n.next ce = some n')
    (hn' : a'.process.host.calls p = some n') :
    Flow a' c b (reached c (tr ++ [RackEvent.process (.host (.call p c ce))])) ps := by
  have hw := wf_of_run (rackCoreRun hrun)
  subst hconn
  have hhost : RubyStep serde a.process.host (.call p n.conn ce) a'.process.host := by
    cases hs with
    | process _ hs => cases hs with | host _ hs => exact hs
  obtain ⟨-, -, hcall⟩ := NativeCall.next_inv hnext
  have hdoes := NativeCall.does_of_stepCall hcall
  have hresult := hdoes.result
  obtain ⟨-, hmethod, -⟩ := NativeCall.next_inv hnext
  have same : ∀ q n₁, b.reader.call = some q → a'.process.host.calls q = some n₁ →
      q = p ∧ n₁ = n' := by
    intro q n₁ hq hn₁
    cases hp.symm.trans hq
    cases hn'.symm.trans hn₁
    exact ⟨rfl, rfl⟩
  cases h with
  | all heq hr =>
      have hdone := hr p n hp hn
      cases hx : ce.completes with
      | some x => rw [hx] at hresult; exact absurd hresult.1 hdone
      | none =>
          rw [hx] at hresult
          rw [reached_quiet (fun q m hq => by cases hq; cases hx), heq]
          refine .all rfl fun q n₁ hq hn₁ => ?_
          obtain ⟨rfl, rfl⟩ := same q n₁ hq hn₁
          rw [hresult]; exact hdone
  | @next q n₀ text' heq hq hn₀ hm₀ hr =>
      cases hp.symm.trans hq
      cases hn.symm.trans hn₀
      cases hm.symm.trans hm₀
      have hof := (hdoes.of (callOk_of_run (rackHostRun hrun) hn).work).2
      cases hx : ce.completes with
      | none =>
          rw [hx] at hresult
          rw [reached_quiet (fun q m hq => by cases hq; cases hx)]
          exact .next heq hp hn' (hmethod.trans hm) (hresult.trans hr)
      | some x =>
          have hx' := hof x hx
          rw [hm] at hx'
          cases x with
          | put m =>
              obtain rfl : ce = .sent m := by cases ce <;> cases hx; rfl
              obtain rfl : m.text = text := hx'
              rw [reached_sent]
              refine .all heq.symm fun q n₁ hq hn₁ => ?_
              obtain ⟨rfl, rfl⟩ := same q n₁ hq hn₁
              rw [hx] at hresult
              rw [hresult.2]
              exact Option.some_ne_none _
          | closed =>
              obtain ⟨k, hk, hshut⟩ := hhost.shut hx
              obtain ⟨k', hk', htx, hdone⟩ := hs.toProcess.connMove hw hk
              have hshut' : k'.Shut := Connection.shut_iff.mpr
                ((Connection.shut_iff.mp hshut).imp htx hdone)
              rw [reached_quiet (fun q m hq => by cases hq; cases hx)]
              refine .shut ⟨_, heq.symm⟩ hk' hshut' fun q n₁ hq hn₁ => ?_
              obtain ⟨rfl, rfl⟩ := same q n₁ hq hn₁
              exact doomed_of_completes hshut' hnext (by simp [hx])
          | took _ | ended => exact hx'.elim
  | @shut k hpre hk hshut hd =>
      obtain ⟨k', hk', htx, hdone⟩ := hs.toProcess.connMove hw hk
      obtain ⟨hdoomed, hsent⟩ := doomed_step (hd p n hp hn) hhost hk hnext htx hdone
      rw [reached_quiet (fun q m hq => by cases hq; exact hsent m rfl)]
      refine .shut hpre hk' ?_ fun q n₁ hq hn₁ => ?_
      · exact Connection.shut_iff.mpr ((Connection.shut_iff.mp hshut).imp htx hdone)
      · obtain ⟨rfl, rfl⟩ := same q n₁ hq hn₁
        exact hdoomed
  | left hpre hr =>
      cases hreader : b.reader with
      | pushing _ _ _ => rw [hreader] at hr; cases hr
      | _ => rw [hreader] at hp; cases hp

end Flow

/-- A call whose step it is not stays as it is. -/
theorem RackStep.call_same {n : NativeCall} (hs : RackStep serde a e a')
    (hn : a.process.host.calls p = some n) (he : ∀ ce, e.toHost ≠ some (.call p n.conn ce)) :
    a'.process.host.calls p = some n := by
  have hhost := hs.toHost
  cases hre : e.toHost with
  | none =>
      rw [hre] at hhost
      exact hhost ▸ hn
  | some re =>
      rw [hre] at hhost
      obtain ⟨n', hn', hm⟩ := RubyStep.callMove hhost hn
      cases hm with
      | own _ => exact absurd hre (he _)
      | other _ => exact hn'

theorem RackReader.call_eq_some {r : RackReader} (h : r.call = some p) :
    ∃ starting rest, r = .pushing starting p rest := by
  cases r with
  | pushing starting p' rest => cases h; exact ⟨starting, rest, rfl⟩
  | _ => cases h

/-- The call the reader is in is one of `push_message`, and stays as it is at other steps. -/
theorem Owned.pending_same (h : Owned a) (hs : RackStep serde a e a') (hb : a.bridges c = some b)
    (hp : b.reader.call = some p) (he : ∀ ce, e.toHost ≠ some (.call p c ce)) :
    a'.process.host.calls p = a.process.host.calls p := by
  obtain ⟨starting, rest, hr⟩ := RackReader.call_eq_some hp
  obtain ⟨n, text, hn, rfl, -⟩ := h.pushing hb hr
  rw [hn]
  exact hs.call_same hn he

/-- The events of a bridge are no steps of its calls. -/
theorem RackEvent.toHost_bridge {c' : ConnId} {be : RackBridgeEvent} {ce : CallEvent} :
    (RackEvent.bridge c be).toHost ≠ some (.call p c' ce) := fun h => by
  cases RackEvent.toHost_call h

theorem Flow.own {be : RackBridgeEvent} (h : Flow a c b (reached c tr) (pushes c tr))
    (hrun : RackRun serde config tr a) (hb : a.bridges c = some b)
    (hs : RackStep serde a (.bridge c be) a') (hn : RackBridge.Next a.process b be b') :
    Flow a' c b' (reached c (tr ++ [RackEvent.bridge c be]))
      (pushes c (tr ++ [RackEvent.bridge c be])) := by
  have hw := wf_of_run (rackCoreRun hrun)
  have hown := owned_of_run hrun
  rw [reached_quiet fun _ _ => RackEvent.toHost_bridge]
  have hsame : ∀ p, b.reader.call = some p →
      a'.process.host.calls p = a.process.host.calls p :=
    fun p hp => hown.pending_same hs hb hp fun _ => RackEvent.toHost_bridge
  -- a step that leaves the reader where it is
  have stay : (RackEvent.bridge c be).pushes c = none → b'.reader = b.reader →
      Flow a' c b' (reached c tr) (pushes c (tr ++ [RackEvent.bridge c be])) := by
    intro hpush hr
    rw [show pushes c (tr ++ [RackEvent.bridge c be]) = pushes c tr from
      Lts.record_snoc_of_none hpush]
    exact h.keep hw hs (fun p hp => ⟨hr ▸ hp, hsame p (hr ▸ hp)⟩)
      (fun p n hp _ _ => .inl (hr ▸ hp)) (fun he => hr ▸ he)
  -- a step of a reader that is in no call, into none
  have go : (RackEvent.bridge c be).pushes c = none → b.reader.call = none →
      b'.reader.call = none → (b.reader.events = none → b'.reader.events = none) →
      Flow a' c b' (reached c tr) (pushes c (tr ++ [RackEvent.bridge c be])) := by
    intro hpush hr hr' hleft
    rw [show pushes c (tr ++ [RackEvent.bridge c be]) = pushes c tr from
      Lts.record_snoc_of_none hpush]
    exact h.keep hw hs (fun p hp => by rw [hr'] at hp; cases hp)
      (fun p n hp _ _ => by rw [hr] at hp; cases hp) hleft
  cases hn with
  | @push starting p text rest hr =>
      rw [show pushes c (tr ++ [RackEvent.bridge c (.push p text)]) = pushes c tr ++ [(p, text)]
        from Lts.record_snoc_of_some (if_pos rfl)]
      have hnew : a'.process.host.calls p =
          some { conn := c, method := .pushMessage text, call := .new } :=
        ProcessStep.called_inv hs.toProcess
      cases h with
      | all heq _ => exact .next (heq ▸ rfl) rfl hnew rfl rfl
      | next _ hp _ _ _ => rw [hr] at hp; cases hp
      | shut hpre hk hshut _ =>
          obtain ⟨k', hk', htx, hdone⟩ := hs.toProcess.connMove hw hk
          have hshut' := (Connection.shut_iff.mp hshut).imp htx hdone
          refine .shut (hpre.trans (List.prefix_append _ _)) hk' (Connection.shut_iff.mpr hshut')
            fun q n hq hn => ?_
          cases hq
          cases hnew.symm.trans hn
          exact hshut'.symm.imp_right fun htx => ⟨htx, fun _ _ hp => by cases hp⟩
      | left _ he => rw [hr] at he; cases he
  | @pushed starting p rest value hr ho =>
      rw [show pushes c (tr ++ [RackEvent.bridge c .pushed]) = pushes c tr from
        Lts.record_snoc_of_none rfl]
      refine h.keep hw hs (fun p hp => by cases hp) (fun q n hq hn hres => ?_)
        (fun he => by rw [hr] at he; cases he)
      rw [hr] at hq
      cases hq
      -- a call that has returned has its result
      obtain ⟨n', hn', hout⟩ := Option.bind_eq_some_iff.mp ho
      cases hn.symm.trans hn'
      cases hphase : n.call.phase <;> simp [NativeCall.outcome, Gvl.CallPhase.result, hphase]
        at hout hres
  | pushRaised hr _ =>
      rw [show pushes c (tr ++ [RackEvent.bridge c .pushed]) = pushes c tr from
        Lts.record_snoc_of_none rfl]
      exact h.keep hw hs (fun p hp => by cases hp) (fun _ _ _ _ _ => .inr rfl) (fun _ => rfl)
  | handled hr _ he =>
      refine go ?_ (by rw [hr]; rfl) rfl fun he => by rw [hr] at he; cases he
      rcases he with rfl | rfl | rfl <;> rfl
  | spawnCore hr | spawnWriter hr | parsed hr | read hr _ =>
      exact go rfl (by rw [hr]; rfl) rfl fun he => by rw [hr] at he; cases he
  | refused hr | writeRaised hr | readRaised hr | close hr | joinCore hr _ | coreRaised hr _
  | joinWriter hr _ | writerRaised hr _ | closeIo hr | closeIoRaised hr _ =>
      exact go rfl (by rw [hr]; rfl) rfl fun _ => rfl
  | run _ | next _ | taken _ _ | finished _ _ _ | takeRaised _ _ | handed _ | handRaised _
  | closeFrame _ | closeFrameRaised _ | writerCloseIo _ | writerCloseIoRaised _ =>
      exact stay rfl rfl

/-- The call a step is one of. -/
theorem RubyStep.call_inv {x x' : RubyHost} {ce : CallEvent}
    (h : RubyStep serde x (.call p c ce) x') :
    ∃ n n', x.calls p = some n ∧ n.conn = c ∧ n.next ce = some n' ∧ x'.calls p = some n' := by
  cases h with
  | callConn hb _ _ _ _ hn | call hb _ _ hn _ =>
      exact ⟨_, _, hb, rfl, hn, PartialMap.insert_same ..⟩

theorem Flow.other (h : Flow a c b (reached c tr) (pushes c tr)) (hrun : RackRun serde config tr a)
    (hb : a.bridges c = some b) (hs : RackStep serde a e a') (he : ∀ be, e ≠ .bridge c be) :
    Flow a' c b (reached c (tr ++ [e])) (pushes c (tr ++ [e])) := by
  have hw := wf_of_run (rackCoreRun hrun)
  have hown := owned_of_run hrun
  rw [show pushes c (tr ++ [e]) = pushes c tr from
    Lts.record_snoc_of_none (RackEvent.quiet_of_not (hs.not_ofBridge hb he)).2.1]
  by_cases hcall : ∃ p ce, e.toHost = some (.call p c ce)
  · obtain ⟨p, ce, hce⟩ := hcall
    obtain rfl := RackEvent.toHost_call hce
    have hhost : RubyStep serde a.process.host (.call p c ce) a'.process.host := by
      cases hs with
      | process _ hs => cases hs with | host _ hs => exact hs
    obtain ⟨n, n', hn, hconn, hnext, hn'⟩ := hhost.call_inv
    cases hm : n.method with
    | pushMessage text =>
        obtain ⟨b₁, hb₁, hcalls⟩ := hown.call hn
        rw [hconn, hb] at hb₁
        cases hb₁
        have hpending := hcalls (NativeCall.outcome_of_next hnext)
        rw [hm] at hpending
        obtain ⟨starting, rest, hr⟩ := hpending
        exact h.call hrun hs (by rw [hr]; rfl) hn hconn hm hnext hn'
    | nextOutgoing =>
        have hsent : ∀ m, ce ≠ .sent m := by
          rintro m rfl
          obtain ⟨-, -, hcall⟩ := NativeCall.next_inv hnext
          have hof := ((NativeCall.does_of_stepCall hcall).of
            (callOk_of_run (rackHostRun hrun) hn).work).2 _ rfl
          rw [hm] at hof
          exact hof
        rw [reached_quiet (fun q m hq => by cases hq; exact hsent m rfl)]
        refine h.keep hw hs (fun q hq => ⟨hq, ?_⟩) (fun q n hq _ _ => .inl hq) id
        refine hown.pending_same hs hb hq fun ce' heq => ?_
        cases heq
        obtain ⟨starting, rest, hr⟩ := RackReader.call_eq_some hq
        obtain ⟨n₁, text, hn₁, -, hm₁⟩ := hown.pushing hb hr
        cases hn.symm.trans hn₁
        rw [hm] at hm₁; cases hm₁
  · rw [reached_quiet fun p m hpm => hcall ⟨p, _, hpm⟩]
    exact h.keep hw hs
      (fun p hp => ⟨hp, hown.pending_same hs hb hp fun ce hce => hcall ⟨p, ce, hce⟩⟩)
      (fun _ _ hp _ _ => .inl hp) id

theorem flow_of_run (h : RackRun serde config tr a) (hb : a.bridges c = some b) :
    Flow a c b (reached c tr) (pushes c tr) := by
  refine rack_invariant (fun tr a b => Flow a c b (reached c tr) (pushes c tr))
    (fun {tr a events a'} hr hno hs => ?_) (fun hr hb ih hs hm => ?_) h hb
  · obtain ⟨-, hpushes, -⟩ := quiet_of_absent hr hno
    rw [reached_quiet (e := .upgraded c events) (fun _ _ h => by cases h),
      show pushes c (tr ++ [RackEvent.upgraded c events]) = pushes c tr from
        Lts.record_snoc_of_none rfl, hpushes]
    refine .all ?_ fun p n hp _ => by cases hp
    -- no call of a connection without a bridge
    refine List.map_eq_nil_iff.mpr (List.eq_nil_iff_forall_not_mem.mpr fun x hx => ?_)
    obtain ⟨n, hn, rfl, -⟩ := putter_of_run (rackHostRun hr) hx
    obtain ⟨b, hb, -⟩ := (owned_of_run hr).call hn
    rw [hno] at hb; cases hb
  · cases hm with
    | own hn => exact ih.own hr hb hs hn
    | other he => exact ih.other hr hb hs he

end Outpunch
