import Outpunch.Rack.Relay

/-!
# Rack — what a bridge delivers

In every run of a process with bridges, each bridge relays both ways without loss, copy or
reordering between the driver and the core (`rack_relays`): what the core receives are the first of
the texts the driver found, and what the driver is given to write are the first of the messages the
core sent.  What is under way is in the hands of the thread that brings it, as long as the bridge
and the connection are open; and the writer closes the socket only when the driver was given all
that was sent.  Whether the client gets what the driver was given is up to the driver and the
socket.
-/

namespace Outpunch

variable {serde : SerdeJson} {config : ServerConfig} {tr : List RackEvent} {a a' : Rack}
  {c : ConnId} {p : CallId} {b b' : RackBridge} {e : RackEvent} {n n' : NativeCall}

/-! ### What calls take is handed over -/

/-- The message a call has taken. -/
def NativeCall.took (n : NativeCall) : Option String :=
  match n.call.phase.result with
  | some (.message msg) => msg
  | _ => none

/-- The message the writer has, or the call it is in. -/
def RackBridge.inHand (x : RubyProcess) (b : RackBridge) : List String :=
  match b.writer with
  | .waiting p => ((x.host.calls p).bind NativeCall.took).toList
  | .writing msg => [msg]
  | _ => []

/-- What the calls of a bridge have taken was handed to the driver, in order, or is in the writer's
hands. -/
def HandedOver (c : ConnId) (tr : List RackEvent) (a : Rack) (b : RackBridge) : Prop :=
  (takes c (rackHost tr)).map Prod.snd = toDriver c tr ++ b.inHand a.process

theorem takes_quiet (he : ∀ p msg, e.toHost ≠ some (.call p c (.received msg))) :
    takes c (rackHost (tr ++ [e])) = takes c (rackHost tr) := by
  refine record_rackHost_of_none (Option.eq_none_iff_forall_ne_some.mpr fun x hx => ?_)
  obtain ⟨e', he', hx⟩ := Option.bind_eq_some_iff.mp hx
  exact he x.1 x.2 (he'.trans (congrArg some (RubyEvent.takes_eq_some.mp hx)))

/-- What a call has taken it took when it completed. -/
theorem took_next {ce : CallEvent} : n.next ce = some n' →
    n'.took = match ce with
      | .received msg => some msg
      | _ => n.took := by
  intro h
  obtain ⟨-, -, hcall⟩ := NativeCall.next_inv h
  have hresult := (NativeCall.does_of_stepCall hcall).result
  unfold NativeCall.took
  cases ce with
  | received msg | ended | sent _ | gone _ | closed _ =>
      rw [hresult.2]
      simp only [hresult.1]
      rfl
  | _ =>
      have hsame : n'.call.phase.result = n.call.phase.result := hresult
      rw [hsame]

theorem took_of_outcome {value : NativeValue} (h : n.outcome = some (.ok value)) :
    n.took = match value with
      | .message msg => msg
      | .sent => none := by
  unfold NativeCall.took
  cases hp : n.call.phase with
  | returned v =>
      rw [NativeCall.outcome, hp] at h
      cases h
      cases value <;> rfl
  | _ => rw [NativeCall.outcome, hp] at h; cases h

theorem took_of_raised {err : String} (h : n.outcome = some (.error err)) : n.took = none := by
  unfold NativeCall.took
  cases hp : n.call.phase with
  | raised err' => rfl
  | _ => rw [NativeCall.outcome, hp] at h; cases h

namespace HandedOver

/-- A step that takes nothing and hands over nothing. -/
theorem keep (h : HandedOver c tr a b) (ht : ∀ p msg, e.toHost ≠ some (.call p c (.received msg)))
    (hw : e.hands c = none) (hh : b'.inHand a'.process = b.inHand a.process) :
    HandedOver c (tr ++ [e]) a' b' := by
  rw [HandedOver, takes_quiet ht, toDriver, Lts.record_snoc_of_none hw, hh]
  exact h

theorem own {be : RackBridgeEvent} (h : HandedOver c tr a b) (hrun : RackRun serde config tr a)
    (hb : a.bridges c = some b) (hs : RackStep serde a (.bridge c be) a')
    (hn : RackBridge.Next a.process b be b') :
    HandedOver c (tr ++ [RackEvent.bridge c be]) a' b' := by
  have hown := owned_of_run hrun
  have quiet : ∀ p msg, (RackEvent.bridge c be).toHost ≠ some (.call p c (.received msg)) :=
    fun _ _ => RackEvent.toHost_bridge
  have hands : ∀ msg raised, toDriver c (tr ++ [RackEvent.bridge c (.handed msg raised)]) =
      toDriver c tr ++ [msg] := fun _ _ => Lts.record_snoc_of_some (if_pos rfl)
  -- a step that leaves the writer where it is
  have stay : (RackEvent.bridge c be).hands c = none → b'.writer = b.writer →
      HandedOver c (tr ++ [RackEvent.bridge c be]) a' b' := by
    intro hw hr
    refine h.keep quiet hw ?_
    unfold RackBridge.inHand
    rw [hr]
    cases hwriter : b.writer with
    | waiting p =>
        obtain ⟨n, hn, -, -⟩ := hown.waiting hb hwriter
        simp only [hn, hs.call_same hn fun _ => RackEvent.toHost_bridge]
    | _ => rfl
  cases hn with
  | spawnWriter hr =>
      refine h.keep quiet rfl ?_
      have hmade := hown.made hb
      unfold RackBridge.Made at hmade
      rw [hr] at hmade
      simp only [RackBridge.inHand, hmade.2]
  | @next p hw =>
      refine h.keep quiet rfl ?_
      have hnew : a'.process.host.calls p =
          some { conn := c, method := .nextOutgoing, call := .new } :=
        ProcessStep.called_inv hs.toProcess
      simp only [RackBridge.inHand, hw, hnew]
      rfl
  | taken hw ho =>
      obtain ⟨n, hn, hout⟩ := Option.bind_eq_some_iff.mp ho
      refine h.keep quiet rfl ?_
      simp only [RackBridge.inHand, hw, hn, Option.bind_some, took_of_outcome hout,
        Option.toList_some]
  | @finished p value hw ho hv =>
      obtain ⟨n, hn, hout⟩ := Option.bind_eq_some_iff.mp ho
      refine h.keep quiet rfl ?_
      simp only [RackBridge.inHand, hw, hn, Option.bind_some, took_of_outcome hout]
      rcases value with - | (- | msg)
      · rfl
      · rfl
      · exact absurd rfl (hv msg)
  | takeRaised hw ho =>
      obtain ⟨n, hn, hout⟩ := Option.bind_eq_some_iff.mp ho
      refine h.keep quiet rfl ?_
      simp only [RackBridge.inHand, hw, hn, Option.bind_some, took_of_raised hout,
        Option.toList_none]
  | @handed msg hw | @handRaised msg _ hw =>
      rw [HandedOver, takes_quiet quiet, hands]
      have h' := h
      simp only [HandedOver, RackBridge.inHand, hw] at h'
      simpa [RackBridge.inHand] using h'
  | closeFrame hw | closeFrameRaised hw | writerCloseIo hw | writerCloseIoRaised hw =>
      refine h.keep quiet rfl ?_
      simp only [RackBridge.inHand, hw]
  | handled _ _ he => rcases he with rfl | rfl | rfl <;> exact stay rfl rfl
  | _ => exact stay rfl rfl

theorem other (h : HandedOver c tr a b) (hrun : RackRun serde config tr a)
    (hb : a.bridges c = some b) (hs : RackStep serde a e a') (he : ∀ be, e ≠ .bridge c be) :
    HandedOver c (tr ++ [e]) a' b := by
  have hown := owned_of_run hrun
  have hhands := (RackEvent.quiet_of_not (hs.not_ofBridge hb he)).2.2
  -- a step that is none of the call the writer is in
  have stay : (∀ p msg, e.toHost ≠ some (.call p c (.received msg))) →
      (∀ p ce, b.writer = .waiting p → e.toHost ≠ some (.call p c ce)) →
      HandedOver c (tr ++ [e]) a' b := by
    intro hquiet hcall
    refine h.keep hquiet hhands ?_
    unfold RackBridge.inHand
    cases hwriter : b.writer with
    | waiting p =>
        obtain ⟨n, hn, rfl, -⟩ := hown.waiting hb hwriter
        simp only [hn, hs.call_same hn fun ce => hcall p ce hwriter]
    | _ => rfl
  by_cases hcall : ∃ p ce, e.toHost = some (.call p c ce)
  · obtain ⟨p, ce, hce⟩ := hcall
    obtain rfl := RackEvent.toHost_call hce
    have hhost : RubyStep serde a.process.host (.call p c ce) a'.process.host := by
      cases hs with
      | process _ hs => cases hs with | host _ hs => exact hs
    obtain ⟨n, n', hn, hconn, hnext, hn'⟩ := hhost.call_inv
    obtain ⟨-, -, hcall⟩ := NativeCall.next_inv hnext
    have hof := ((NativeCall.does_of_stepCall hcall).of
      (callOk_of_run (rackHostRun hrun) hn).work).2
    cases hm : n.method with
    | pushMessage text =>
        refine stay (fun q msg hq => ?_) fun q ce' hq heq => ?_
        · cases hq
          have hx := hof _ rfl
          rw [hm] at hx
          exact hx
        · cases heq
          obtain ⟨n₁, hn₁, -, hm₁⟩ := hown.waiting hb hq
          cases hn.symm.trans hn₁
          rw [hm] at hm₁; cases hm₁
    | nextOutgoing =>
        obtain ⟨b₁, hb₁, hcalls⟩ := hown.call hn
        rw [hconn, hb] at hb₁
        cases hb₁
        have hwriter := hcalls (NativeCall.outcome_of_next hnext)
        rw [hm] at hwriter
        replace hwriter : b.writer = .waiting p := hwriter
        have htook := took_next hnext
        by_cases hr : ∃ msg, ce = .received msg
        · obtain ⟨msg, rfl⟩ := hr
          have htakes : takes c (rackHost (tr ++
              [RackEvent.process (.host (.call p c (.received msg)))])) =
              takes c (rackHost tr) ++ [(p, msg)] := record_rackHost_of_some (if_pos rfl)
          have hnone : n.took = none := by
            have hresult := (NativeCall.does_of_stepCall hcall).result
            rw [NativeCall.took, hresult.1]
          have h' := h
          simp only [HandedOver, RackBridge.inHand, hwriter, hn, Option.bind_some, hnone,
            Option.toList_none, List.append_nil] at h'
          rw [HandedOver, htakes, toDriver, Lts.record_snoc_of_none hhands,
            List.map_append, h']
          simp only [RackBridge.inHand, hwriter, hn', Option.bind_some, htook]
          rfl
        · refine h.keep (fun q msg hq => hr ⟨msg, by cases hq; rfl⟩) hhands ?_
          have hsame : n'.took = n.took := by
            rw [htook]
            cases ce with
            | received msg => exact absurd ⟨msg, rfl⟩ hr
            | _ => rfl
          simp only [RackBridge.inHand, hwriter, hn, hn', Option.bind_some, hsame]
  · exact stay (fun p msg hpm => hcall ⟨p, _, hpm⟩) fun p ce _ hce => hcall ⟨p, ce, hce⟩

end HandedOver

theorem handedOver_of_run (h : RackRun serde config tr a) (hb : a.bridges c = some b) :
    HandedOver c tr a b := by
  refine rack_invariant (fun tr a b => HandedOver c tr a b) (fun {tr a events a'} hr hno hs => ?_)
    (fun hr hb ih hs hm => ?_) h hb
  · obtain ⟨-, -, hhanded⟩ := quiet_of_absent hr hno
    have hsame : toDriver c (tr ++ [RackEvent.upgraded c events]) = toDriver c tr :=
      Lts.record_snoc_of_none rfl
    rw [HandedOver, takes_quiet (e := .upgraded c events) (fun _ _ h => by cases h), hsame, hhanded]
    refine List.map_eq_nil_iff.mpr (List.eq_nil_iff_forall_not_mem.mpr fun x hx => ?_)
    -- no call of a connection without a bridge
    obtain ⟨n, hn, rfl, -⟩ := taker_of_run (rackHostRun hr) hx
    obtain ⟨b, hb, -⟩ := (owned_of_run hr).call hn
    rw [hno] at hb; cases hb
  · cases hm with
    | own hn => exact ih.own hr hb hs hn
    | other he => exact ih.other hr hb hs he

/-! ### When the writer closes the socket -/

/-- The writer was told that nothing more comes. -/
def RackWriter.finished : RackWriter → Bool
  | .closing | .closingIo | .ended (.ok ()) => true
  | _ => false

/-- A call of `next_outgoing` that returns no message has found the channel closed. -/
theorem ended_of_outcome (h : RackRun serde config tr a) (hn : a.process.host.calls p = some n)
    (hm : n.method = .nextOutgoing) {value : NativeValue} (hout : n.outcome = some (.ok value))
    (hv : ∀ msg, value ≠ .message (some msg)) : .call p n.conn .ended ∈ rackHost tr := by
  have hret : n.Returns value := by
    refine .inl ?_
    cases hp : n.call.phase with
    | returned v => rw [NativeCall.outcome, hp] at hout; cases hout; rfl
    | _ => rw [NativeCall.outcome, hp] at hout; cases hout
  rcases completionsOf_cases (rackHostRun h) hn with ⟨-, hno⟩ | ⟨x, hone, hof, hx⟩
  · exact absurd hret (hno value)
  · rw [hm] at hof
    obtain rfl := (hx value).mp hret
    have hmem : x ∈ completionsOf p (rackHost tr) := by rw [hone]; exact List.mem_singleton_self x
    obtain ⟨c, e, he, hcompletes⟩ := mem_completionsOf.mp hmem
    cases conn_of_mem (rackHostRun h) hn he
    cases x with
    | ended =>
        cases e with
        | ended => exact he
        | _ => cases hcompletes
    | took msg => exact absurd rfl (hv msg)
    | put _ | closed => exact hof.elim

theorem rackHost_mono (e : RackEvent) : rackHost tr ⊆ rackHost (tr ++ [e]) :=
  (((List.sublist_append_left tr [e]).filterMap _).filterMap _).subset

/-- A writer that closes the socket has found the channel closed. -/
theorem ended_of_finished (h : RackRun serde config tr a) (hb : a.bridges c = some b)
    (hw : b.writer.finished) : ∃ p, .call p c .ended ∈ rackHost tr := by
  refine rack_invariant
    (fun tr _ b => b.writer.finished → ∃ p, .call p c .ended ∈ rackHost tr)
    (fun _ _ _ hw => by cases hw) (fun {tr a b e a' b'} hr hb ih hs hm hw => ?_) h hb hw
  have old : b.writer.finished → ∃ p, .call p c .ended ∈ rackHost (tr ++ [e]) := fun hw =>
    (ih hw).imp fun p hp => rackHost_mono e hp
  cases hm with
  | other _ => exact old hw
  | own hn =>
      cases hn with
      | finished hwriter ho hv =>
          obtain ⟨n, hn, hout⟩ := Option.bind_eq_some_iff.mp ho
          obtain ⟨n₁, hn₁, hconn, hm⟩ := (owned_of_run hr).waiting hb hwriter
          cases hn.symm.trans hn₁
          exact ⟨_, rackHost_mono _ (hconn ▸ ended_of_outcome hr hn hm hout hv)⟩
      | closeFrame hwriter | writerCloseIo hwriter => exact old (by rw [hwriter]; rfl)
      | spawnWriter _ | next _ | taken _ _ | takeRaised _ _ | handed _ | handRaised _
      | closeFrameRaised _ | writerCloseIoRaised _ => cases hw
      | _ => exact old hw

/-! ### Both ways -/

/-- The text of a call that has not come to its end. -/
def NativeCall.unsent (n : NativeCall) : Option String :=
  match n.method, n.call.phase.result with
  | .pushMessage text, none => some text
  | _, _ => none

/-- The text the reader is pushing. -/
def RackReader.inHand (x : RubyProcess) (r : RackReader) : List String :=
  (r.call.bind fun p => (x.host.calls p).bind NativeCall.unsent).toList

/-- What a bridge relays. -/
structure RackRelays (c : ConnId) (tr : List RackEvent) (a : Rack) (b : RackBridge) : Prop where
  /-- The core receives the first of the texts the driver found. -/
  incoming : (arrived c (rackCore tr)).map Pushed.text <+: given c tr
  /-- The others are the one being pushed and those whose handlers are still to be called. -/
  incomingRest : ∀ {k events}, a.process.server.conns c = some k → ¬ k.Shut →
    b.reader.events = some events → given c tr =
      (arrived c (rackCore tr)).map Pushed.text ++ b.reader.inHand a.process ++ payloads events
  /-- What the core sent was handed to the driver, or is in the writer's hands, or waits for it. -/
  outgoing : enqueued c (rackCore tr) =
    toDriver c tr ++ b.inHand a.process ++ waiting a.process.host c
  /-- A writer that closes the socket has handed it all over. -/
  outgoingAll : b.writer.finished → toDriver c tr = enqueued c (rackCore tr)

theorem enqueued_eq_toDriver (h : RackRun serde config tr a) (hb : a.bridges c = some b) :
    enqueued c (rackCore tr) = toDriver c tr ++ b.inHand a.process ++ waiting a.process.host c := by
  rw [enqueued_eq_takes (rackHostRun h) c, handedOver_of_run h hb]

/-- A writer that closes the socket has handed over all that was sent. -/
theorem toDriver_of_finished (h : RackRun serde config tr a) (hb : a.bridges c = some b)
    (hw : b.writer.finished) : toDriver c tr = enqueued c (rackCore tr) := by
  obtain ⟨p, hp⟩ := ended_of_finished h hb hw
  have hhand : b.inHand a.process = [] := by
    cases hwriter : b.writer with
    | closing | closingIo | ended _ => simp only [RackBridge.inHand, hwriter]
    | _ => rw [hwriter] at hw; cases hw
  rw [enqueued_eq_toDriver h hb, (drained_of_ended (rackHostRun h) hp).2, hhand, List.append_nil,
    List.append_nil]

theorem arrived_text (h : RackRun serde config tr a) :
    (arrived c (rackCore tr)).map Pushed.text = (reached c tr).map Prod.snd := by
  rw [reached, List.map_map]
  exact (congrArg _ (arrived_eq_puts (rackHostRun h) c)).trans (List.map_map ..)

/-- What the driver gave on an open connection has arrived, or is on its way. -/
theorem given_eq_arrived (h : RackRun serde config tr a) (hb : a.bridges c = some b)
    {k : Connection} (hk : a.process.server.conns c = some k) (hopen : ¬ k.Shut)
    {events : List DriverEvent} (hevents : b.reader.events = some events) : given c tr =
      (arrived c (rackCore tr)).map Pushed.text ++ b.reader.inHand a.process ++
        payloads events := by
  obtain ⟨rest, hgiven, hrest⟩ := pushes_of_run h hb
  rw [arrived_text h, hgiven, hrest events hevents]
  cases flow_of_run h hb with
  | all heq hr =>
      have hhand : b.reader.inHand a.process = [] := by
        rw [RackReader.inHand, Option.toList_eq_nil_iff]
        refine Option.eq_none_iff_forall_ne_some.mpr fun text ht => ?_
        obtain ⟨p, hp, ht⟩ := Option.bind_eq_some_iff.mp ht
        obtain ⟨n, hn, ht⟩ := Option.bind_eq_some_iff.mp ht
        obtain ⟨value, hvalue⟩ := Option.ne_none_iff_exists'.mp (hr p n hp hn)
        rw [NativeCall.unsent, hvalue] at ht
        cases hm : n.method <;> rw [hm] at ht <;> cases ht
      rw [heq, hhand, List.append_nil]
  | @next p n text heq hp hn hm hr =>
      have hhand : b.reader.inHand a.process = [text] := by
        simp only [RackReader.inHand, hp, Option.bind_some, hn, NativeCall.unsent, hm, hr]
        rfl
      rw [heq, hhand, List.map_append]
      rfl
  | shut _ hk' hshut _ =>
      cases hk.symm.trans hk'
      exact absurd hshut hopen
  | left _ hr => rw [hevents] at hr; cases hr

/-- **A bridge relays**: without loss, copy or reordering, both ways. -/
theorem rack_relays (h : RackRun serde config tr a) (hb : a.bridges c = some b) :
    RackRelays c tr a b where
  incoming := by
    obtain ⟨rest, hgiven, -⟩ := pushes_of_run h hb
    rw [arrived_text h, hgiven]
    exact ((flow_of_run h hb).isPrefix.map _).trans (List.prefix_append _ _)
  incomingRest hk hopen hevents := given_eq_arrived h hb hk hopen hevents
  outgoing := enqueued_eq_toDriver h hb
  outgoingAll := toDriver_of_finished h hb

/-- The events of a native call. -/
def nativeSteps (p : CallId) (c : ConnId) (l : List CallEvent) : List RackEvent :=
  l.map fun e => .process (.host (.call p c e))

/-- The events of a core connection. -/
def coreSteps (c : ConnId) (l : List ConnEvent) : List RackEvent :=
  l.map fun e => .process (.host (.server (.conn c e)))

/-- A client connects as 1, sends the token, and is told that it is registered. -/
def rackOpening : List RackEvent :=
  let text := compactJson.toString
    (AuthMessage.toValue { msgType := "auth", token := demoConfig.secret, service := "app" })
  let ok := authOkText compactJson
  let m : Pushed := { n := 0, text }
  [RackEvent.process (.host (.server (.create 1)))] ++ coreSteps 1 [.onMessage] ++
    [RackEvent.upgraded 1 [.write], .bridge 1 (.written none), .bridge 1 .spawnCore,
      .bridge 1 .spawnWriter, .bridge 1 (.run 1), .process (.run 1 .enter),
      .process (.runBegan 1 1), .bridge 1 (.read [.text text]), .bridge 1 (.push 2 text)] ++
    nativeSteps 2 1 [.enter, .began m, .sent m, .settle] ++
    [RackEvent.bridge 1 .pushed, .bridge 1 .parsed, .bridge 1 (.next 3)] ++
    nativeSteps 3 1 [.enter, .locked] ++
    coreSteps 1 [.authRecv m, .check (some "app"), .reply ok, .deliver ok] ++
    nativeSteps 3 1 [.received ok, .settle] ++
    [RackEvent.bridge 1 .taken, .bridge 1 (.handed ok none),
      .process (.host (.server (.register 1 "app")))] ++ coreSteps 1 [.upgrade] ++
    [RackEvent.bridge 1 (.next 4)] ++ nativeSteps 4 1 [.enter, .locked]

/-- It hangs up. -/
def rackSession : List RackEvent :=
  rackOpening ++ [RackEvent.bridge 1 (.readRaised none), .bridge 1 .close] ++
    coreSteps 1 [.relayClosed] ++ [RackEvent.process (.host (.server (.cleanup 1 "app")))] ++
    coreSteps 1 [.dropOutgoing]

/-- Where its threads stand. -/
def rackSessionWaits (a : Rack) : Bool :=
  (a.bridges 1).any fun b => decide (b.reader = .joiningCore none ∧ b.writer = .waiting 4)

/-- A client that has authenticated and hung up. -/
theorem rack_relays_session : ∃ a b, RackRun compactJson demoConfig rackSession a ∧
    a.bridges 1 = some b ∧ b.writer = .waiting 4 ∧ RackRelays 1 rackSession a b := by
  obtain ⟨a, h, hwaits⟩ :=
    exists_rackRun compactJson demoConfig rackSession rackSessionWaits (by decide +kernel)
  obtain ⟨b, hb, hw⟩ := (Option.any_eq_true ..).mp hwaits
  exact ⟨a, b, h, hb, (of_decide_eq_true hw).2, rack_relays h hb⟩

end Outpunch
