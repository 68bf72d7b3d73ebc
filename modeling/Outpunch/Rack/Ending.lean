import Outpunch.Rack.Delivery
import Outpunch.Server.Disconnect

/-!
# Rack — how a bridge ends

A bridge whose `run` is over has closed its native connection, whoever was interrupted when
(`rack_ends`).  The `ensure` joins the other two threads, so unless one of them raised nothing is
left behind: the `run` of the core is over and nothing is registered for it or parked under it, all
that the core sent was handed to the driver, and the socket is closed, unless its close raised.
Where a thread raised, the join passes that on and skips the rest.  Whatever `run` raises has come
to one of the three threads from outside: no task of the core fails it.
-/

namespace Outpunch

variable {serde : SerdeJson} {config : ServerConfig} {tr : List RackEvent} {a a' : Rack}
  {c : ConnId} {p : CallId} {b b' : RackBridge} {e : RackEvent}

/-! ### The joined threads -/

/-- A call of `run` that has ended its thread stays as it ended it. -/
theorem RunCall.Move.thread {w : World} {r r' : RunCall} {pe : ProcessEvent}
    {out : Except RackError Unit} (hm : RunCall.Move w p r pe r')
    (h : r.stage.thread = some out) : r'.stage.thread = some out := by
  cases hm with
  | wait hn =>
      cases hs : r.stage with
      | waiting _ => rw [hs] at h; cases h
      | _ => simp only [RunCall.next, hs] at hn; cases hn
  | closed ht | joined ht _ => rw [ht] at h; cases h
  | began _ | panicked _ _ _ | other _ => exact h

/-- What a join has given it gives. -/
theorem RackStep.core_result {core : RackCore} {out : Except RackError Unit}
    (hs : RackStep serde a e a') (h : core.result a.process = some out) :
    core.result a'.process = some out := by
  cases core with
  | absent => exact h
  | spawned => cases h
  | running p =>
      obtain ⟨r, hr, hthread⟩ := Option.bind_eq_some_iff.mp h
      have hp := hs.toProcess
      cases he : e.toProcess with
      | none =>
          rw [he] at hp
          exact (congrArg (fun x : RubyProcess => RackCore.result x (.running p)) hp).trans h
      | some pe =>
          rw [he] at hp
          obtain ⟨r', hr', hm⟩ := ProcessStep.runMove hp hr
          exact Option.bind_eq_some_iff.mpr ⟨r', hr', hm.thread hthread⟩

/-- A writer thread that a join raises for has raised. -/
theorem RackWriter.ended_of_result {writer : RackWriter} {err : RackError}
    (h : writer.result = some (.error err)) : writer = .ended (.error err) := by
  cases writer with
  | ended _ => cases h; rfl
  | absent => cases h
  | _ => cases h

/-- A thread that ended with an error has raised it. -/
theorem RunStage.thread_error {stage : RunStage} {err : RackError}
    (h : stage.thread = some (.error err)) :
    (∃ text, stage = .ended (.error (.raised text)) ∧ err = .native text) ∨
      stage = .ended (.error .taskFailed) ∨ stage = .unwound := by
  cases stage with
  | ended result =>
      rcases result with (text | _) | u
      · cases h; exact .inl ⟨text, rfl, rfl⟩
      · exact .inr (.inl rfl)
      · cases h
  | unwound => exact .inr (.inr rfl)
  | _ => cases h

theorem RunStage.thread_ok {stage : RunStage} (h : stage.thread = some (.ok ())) :
    stage = .ended (.ok ()) := by
  cases stage with
  | ended result =>
      rcases result with (text | _) | u
      · cases h
      · cases h
      · rfl
  | _ => cases h

/-! ### Causes -/

/-- A write to the socket, or its close, raised. -/
def RackBridgeEvent.SocketRaised (err : String) : RackBridgeEvent → Prop
  | .written raised | .handed _ raised | .closeFrame _ raised | .closeIo raised
  | .writerCloseIo raised => raised = some err
  | _ => False

/-- An error that comes from outside the process: an exception hit the thread in its native call,
the driver brought a binary message, or the socket failed. -/
def RackError.Caused (c : ConnId) (tr : List RackEvent) : RackError → Prop
  | .native err => ∃ p, .process (.host (.call p c (.interrupt (.raises err)))) ∈ tr ∨
      .bridge c (.run p) ∈ tr ∧ .process (.run p (.interrupt (.raises err))) ∈ tr
  | .notText => .bridge c .refused ∈ tr
  | .read err => .bridge c (.readRaised (some err)) ∈ tr
  | .socket err => ∃ e, e.SocketRaised err ∧ .bridge c e ∈ tr
  | .taskFailed | .panicked => False

theorem RackError.Caused.mono {err : RackError} (h : err.Caused c tr) :
    err.Caused c (tr ++ [e]) := by
  cases err with
  | native _ =>
      obtain ⟨p, h⟩ := h
      refine ⟨p, h.imp (List.mem_append_left _) fun h => ?_⟩
      exact ⟨List.mem_append_left _ h.1, List.mem_append_left _ h.2⟩
  | notText | read _ => exact List.mem_append_left _ h
  | socket _ => exact h.imp fun _ h => ⟨h.1, List.mem_append_left _ h.2⟩
  | taskFailed | panicked => exact h

/-- A native call that raised was hit. -/
theorem caused_of_raised (h : RackRun serde config tr a) {n : NativeCall}
    (hn : a.process.host.calls p = some n) {err : String} (ho : n.outcome = some (.error err)) :
    (RackError.native err).Caused n.conn tr := by
  have hp : n.call.phase = .raised err := by
    cases hp : n.call.phase with
    | raised _ => rw [NativeCall.outcome, hp] at ho; cases ho; rfl
    | _ => rw [NativeCall.outcome, hp] at ho; cases ho
  obtain ⟨-, c, hhit⟩ := completionsOf_of_raised (rackHostRun h) hn hp
  cases conn_of_mem (rackHostRun h) hn hhit
  obtain ⟨pe, hpe, hpe'⟩ := Lts.mem_record.mp hhit
  obtain ⟨e, he, he'⟩ := Lts.mem_record.mp hpe
  have hhost : e.toHost = some (.call p n.conn (.interrupt (.raises err))) := by
    rw [RackEvent.toHost, he']; exact hpe'
  exact ⟨p, .inl (RackEvent.toHost_call hhost ▸ he)⟩

/-- So was the thread of the bridge that made it. -/
theorem caused_of_outcome (h : RackRun serde config tr a) {p : CallId} {err : String}
    (ho : a.process.outcome p = some (.error err))
    (hcall : ∃ n, a.process.host.calls p = some n ∧ n.conn = c) :
    (RackError.native err).Caused c tr := by
  obtain ⟨n, hn, hout⟩ := Option.bind_eq_some_iff.mp ho
  obtain ⟨n', hn', rfl⟩ := hcall
  cases hn.symm.trans hn'
  exact caused_of_raised h hn hout

/-- An event of a call of `run` is nobody else's. -/
theorem mem_processEvents_run {we : WaitEvent} (h : .run p we ∈ processEvents tr) :
    .process (.run p we) ∈ tr := by
  obtain ⟨e, he, hpe⟩ := Lts.mem_record.mp h
  cases e with
  | process _ => cases hpe; exact he
  | upgraded _ _ => cases hpe
  | bridge c be =>
      cases be with
      | closeFrame handler _ => cases handler <;> cases hpe
      | _ => cases hpe

/-- Nobody else runs the connection of a bridge. -/
theorem not_panicked (h : RackRun serde config tr a) {r : RunCall}
    (hr : a.process.runs p = some r) : r.task ≠ .panicked := by
  intro ht
  have hown := owned_of_run h
  have hok := runsOk_of_run (rackProcessRun h)
  obtain ⟨k, hk, hcreated, -⟩ := (hok.call hr).conn
  obtain ⟨p', r', hr', hconn, ht'⟩ := hok.runner hk (hcreated (by rw [ht]; simp))
  obtain ⟨b, hb, hcore⟩ := hown.run hr
  obtain ⟨b', hb', hcore'⟩ := hown.run hr'
  rw [hconn] at hb'
  cases hb.symm.trans hb'
  cases hcore.symm.trans hcore'
  cases hr.symm.trans hr'
  rw [ht] at ht'; cases ht'

/-- A thread of `run` that raised was hit in its call. -/
theorem caused_of_core (h : RackRun serde config tr a)
    (hrun : ∀ p, b.core = .running p → .bridge c (.run p) ∈ tr) {err : RackError}
    (hr : b.core.result a.process = some (.error err)) : err.Caused c tr := by
  cases hcore : b.core with
  | absent | spawned => rw [hcore] at hr; cases hr
  | running p =>
      rw [hcore] at hr
      obtain ⟨r, hp, hthread⟩ := Option.bind_eq_some_iff.mp hr
      have hstage := ((runsOk_of_run (rackProcessRun h)).call hp).stage
      rcases RunStage.thread_error hthread with ⟨text, hs, rfl⟩ | hs | hs <;> rw [hs] at hstage
      · obtain ⟨⟨text', heq, hhit⟩, -⟩ := hstage
        cases heq
        exact ⟨p, .inr ⟨hrun p hcore, mem_processEvents_run hhit⟩⟩
      · obtain ⟨⟨text', heq, -⟩, -⟩ := hstage
        cases heq
      · rcases RunCall.joined_cases hstage with ⟨hj, -⟩ | ⟨-, ht⟩
        · cases hj
        · exact absurd ht (not_panicked h hp)

/-! ### Every run -/

/-- `run` has called `close`. -/
def RackReader.closed : RackReader → Bool
  | .joiningCore _ | .joiningWriter _ | .closingIo _ | .ended _ => true
  | _ => false

/-- What `run` raises once its `ensure` is over. -/
def RackReader.error : RackReader → Option RackError
  | .closing err | .joiningCore err | .joiningWriter err | .closingIo err | .ended err => err
  | _ => none

/-- The close of the socket raised, which is what `run` raises. -/
def RackBridge.CloseRaised (c : ConnId) (tr : List RackEvent) (err : Option RackError) : Prop :=
  ∃ raised, err = some (.socket raised) ∧ .bridge c (.closeIo (some raised)) ∈ tr

/-- What the `ensure` has seen of the other threads. -/
def RackBridge.Joined (c : ConnId) (tr : List RackEvent) (x : RubyProcess) (b : RackBridge) :
    Prop :=
  match b.reader with
  | .joiningWriter _ => b.core.result x = some (.ok ())
  | .closingIo _ => b.core.result x = some (.ok ()) ∧ b.writer.result = some (.ok ())
  | .ended err =>
    b.core.result x = some (.ok ()) ∧ b.writer.result = some (.ok ()) ∧
        (b.ioClosed = true ∨ CloseRaised c tr err) ∨
      ∃ e, err = some e ∧
        (b.core.result x = some (.error e) ∨ b.writer.result = some (.error e))
  | _ => True

/-- The threads of a bridge, and what ended them. -/
structure EndOk (c : ConnId) (tr : List RackEvent) (a : Rack) (b : RackBridge) : Prop where
  run : ∀ p, b.core = .running p → .bridge c (.run p) ∈ tr
  closed : b.reader.closed → ∃ k, a.process.server.conns c = some k ∧ k.incomingTx = false
  reader : ∀ err, b.reader.error = some err → err.Caused c tr
  writer : ∀ err, b.writer = .ended (.error err) → err.Caused c tr
  joined : b.Joined c tr a.process

/-- A bridge whose reader stays and whose other threads stay joined. -/
theorem RackBridge.Joined.keep {x x' : RubyProcess} (h : b.Joined c tr x)
    (hr : b'.reader = b.reader)
    (hc : ∀ out, b.core.result x = some out → b'.core.result x' = some out)
    (hw : ∀ out, b.writer.result = some out → b'.writer.result = some out)
    (hio : b.ioClosed = true → b'.ioClosed = true) : b'.Joined c (tr ++ [e]) x' := by
  unfold RackBridge.Joined at *
  rw [hr]
  split at h
  · exact hc _ h
  · exact ⟨hc _ h.1, hw _ h.2⟩
  · rcases h with ⟨hcore, hwriter, hclosed⟩ | ⟨e, he, hres⟩
    · refine .inl ⟨hc _ hcore, hw _ hwriter, hclosed.imp hio fun ⟨raised, he, hmem⟩ => ?_⟩
      exact ⟨raised, he, List.mem_append_left _ hmem⟩
    · exact .inr ⟨e, he, hres.imp (hc _) (hw _)⟩
  · trivial

namespace EndOk

/-- A step that moves neither the reader nor the threads that are over. -/
theorem keep (h : EndOk c tr a b) (hw : a.process.server.Wf) (hs : RackStep serde a e a')
    (hreader : b'.reader = b.reader) (hrun : ∀ p, b'.core = .running p → b.core = .running p ∨
      e = .bridge c (.run p))
    (hcore : ∀ out, b.core.result a'.process = some out → b'.core.result a'.process = some out)
    (hwriter : ∀ out, b.writer.result = some out → b'.writer.result = some out)
    (herr : ∀ err, b'.writer = .ended (.error err) → err.Caused c (tr ++ [e]))
    (hio : b.ioClosed = true → b'.ioClosed = true) : EndOk c (tr ++ [e]) a' b' where
  run p hp := by
    rcases hrun p hp with hp | rfl
    · exact List.mem_append_left _ (h.run p hp)
    · exact List.mem_concat_self
  closed hc := by
    obtain ⟨k, hk, hclosed⟩ := h.closed (hreader ▸ hc)
    obtain ⟨k', hk', htx, -⟩ := hs.toProcess.connMove hw hk
    exact ⟨k', hk', htx hclosed⟩
  reader err he := (h.reader err (hreader ▸ he)).mono
  writer := herr
  joined := h.joined.keep hreader (fun out ho => hcore out (hs.core_result ho)) hwriter hio

/-- A step of the reader that does not call `close`. -/
theorem move (h : EndOk c tr a b) (hw : a.process.server.Wf) (hs : RackStep serde a e a')
    (hcore : ∀ p, b'.core = .running p → b.core = .running p)
    (hwriter : ∀ err, b'.writer = .ended (.error err) → b.writer = .ended (.error err))
    (hclosed : b'.reader.closed → b.reader.closed)
    (hreader : ∀ err, b'.reader.error = some err → err.Caused c (tr ++ [e]))
    (hjoined : b'.Joined c (tr ++ [e]) a'.process) : EndOk c (tr ++ [e]) a' b' where
  run p hp := List.mem_append_left _ (h.run p (hcore p hp))
  closed hc := by
    obtain ⟨k, hk, hclosed⟩ := h.closed (hclosed hc)
    obtain ⟨k', hk', htx, -⟩ := hs.toProcess.connMove hw hk
    exact ⟨k', hk', htx hclosed⟩
  reader := hreader
  writer err he := (h.writer err (hwriter err he)).mono
  joined := hjoined

/-- A step that makes `run` go to its `ensure`. -/
theorem leave (h : EndOk c tr a b) (hw : a.process.server.Wf) (hs : RackStep serde a e a')
    {err : Option RackError} (hcaused : ∀ e', err = some e' → e'.Caused c (tr ++ [e])) :
    EndOk c (tr ++ [e]) a' { b with reader := .closing err } :=
  h.move hw hs (fun _ => id) (fun _ => id) (fun hc => by cases hc) hcaused trivial

/-- A step of the `ensure` behind `close`. -/
theorem ensure (h : EndOk c tr a b) (hw : a.process.server.Wf) (hs : RackStep serde a e a')
    {r : RackReader} {ioClosed : Bool} (hclosed : b.reader.closed)
    (hreader : ∀ err, r.error = some err → err.Caused c (tr ++ [e]))
    (hjoined : RackBridge.Joined c (tr ++ [e]) a'.process { b with reader := r, ioClosed }) :
    EndOk c (tr ++ [e]) a' { b with reader := r, ioClosed } :=
  h.move hw hs (fun _ => id) (fun _ => id) (fun _ => hclosed) hreader hjoined

/-- A step of the writer that raises, or ends. -/
theorem write (h : EndOk c tr a b) (hw : a.process.server.Wf) (hs : RackStep serde a e a')
    {writer : RackWriter} {ioClosed : Bool} (hresult : b.writer.result = none)
    (hcaused : ∀ err, writer = .ended (.error err) → err.Caused c (tr ++ [e]))
    (hio : b.ioClosed = true → ioClosed = true) :
    EndOk c (tr ++ [e]) a' { b with writer, ioClosed } :=
  h.keep hw hs rfl (fun _ hp => .inl hp) (fun _ => id)
    (fun out ho => by rw [hresult] at ho; cases ho) hcaused hio

theorem own {be : RackBridgeEvent} (h : EndOk c tr a b) (hrun : RackRun serde config tr a)
    (hb : a.bridges c = some b) (hs : RackStep serde a (.bridge c be) a')
    (hn : RackBridge.Next a.process b be b') : EndOk c (tr ++ [RackEvent.bridge c be]) a' b' := by
  have hw := wf_of_run (rackCoreRun hrun)
  have hown := owned_of_run hrun
  have hjoined := h.joined
  unfold RackBridge.Joined at hjoined
  have herr : ∀ err, b.reader.error = some err →
      err.Caused c (tr ++ [RackEvent.bridge c be]) := fun err he => (h.reader err he).mono
  have hsocket : ∀ {raised}, be.SocketRaised raised →
      (RackError.socket raised).Caused c (tr ++ [RackEvent.bridge c be]) :=
    fun hraised => ⟨be, hraised, List.mem_concat_self⟩
  -- a step of `run` before its `ensure`
  have before : ∀ {r core writer}, (∀ p, core = .running p → b.core = .running p) →
      (∀ err, writer = .ended (.error err) → b.writer = .ended (.error err)) →
      r.closed = false → r.error = none →
      EndOk c (tr ++ [RackEvent.bridge c be]) a'
        { b with reader := r, core, writer } := by
    intro r core writer hcore hwriter hr he
    refine h.move hw hs hcore hwriter (fun hc => by rw [hr] at hc; cases hc)
      (fun err h => by rw [he] at h; cases h) ?_
    unfold RackBridge.Joined
    cases r with
    | joiningWriter _ | closingIo _ | ended _ => cases hr
    | _ => trivial
  cases hn with
  | run hc =>
      exact h.keep hw hs rfl (fun p hp => by cases hp; exact .inr rfl)
        (fun out ho => by rw [hc] at ho; cases ho) (fun _ => id)
        (fun err he => (h.writer err he).mono) id
  | next hwr | taken hwr _ | finished hwr _ _ | handed hwr | closeFrame hwr =>
      exact h.write hw hs (by rw [hwr]; rfl) (fun err he => by cases he) id
  | writerCloseIo hwr =>
      exact h.write hw hs (by rw [hwr]; rfl) (fun err he => by cases he) fun _ => rfl
  | handRaised hwr | closeFrameRaised hwr | writerCloseIoRaised hwr =>
      refine h.write hw hs (by rw [hwr]; rfl) (fun err he => ?_) id
      cases he
      exact hsocket rfl
  | takeRaised hwr ho =>
      refine h.write hw hs (by rw [hwr]; rfl) (fun err he => ?_) id
      cases he
      obtain ⟨n, hn, hconn, -⟩ := hown.waiting hb hwr
      exact (caused_of_outcome hrun ho ⟨n, hn, hconn⟩).mono
  | push _ | pushed _ _ | handled _ _ _ | read _ _ | parsed _ =>
      exact before (fun _ => id) (fun _ => id) rfl rfl
  | spawnCore _ => exact before (fun p hp => by cases hp) (fun _ => id) rfl rfl
  | spawnWriter _ => exact before (fun _ => id) (fun err he => by cases he) rfl rfl
  | pushRaised hr ho =>
      refine h.leave hw hs fun err he => ?_
      cases he
      obtain ⟨n, _, hn, hconn, -⟩ := hown.pushing hb hr
      exact (caused_of_outcome hrun ho ⟨n, hn, hconn⟩).mono
  | refused _ =>
      refine h.leave hw hs fun err he => ?_
      cases he
      exact List.mem_concat_self
  | writeRaised _ =>
      refine h.leave hw hs fun err he => ?_
      cases he
      exact hsocket rfl
  | @readRaised err _ =>
      refine h.leave hw hs fun e he => ?_
      obtain ⟨text, rfl, rfl⟩ := Option.map_eq_some_iff.mp he
      exact List.mem_concat_self
  | close hr =>
      have hstep : ProcessStep serde a.process (.host (.server (.conn c .close))) a'.process :=
        hs.toProcess
      refine ⟨fun p hp => List.mem_append_left _ (h.run p hp), fun _ => ?_,
        fun err he => herr err (by rw [hr]; exact he),
        fun err he => (h.writer err he).mono, trivial⟩
      obtain ⟨k, k', -, hclose, hk'⟩ :=
        Step.conn_inv (show Step serde _ (.conn c .close) _ from hstep.toServer)
      cases hclose
      exact ⟨_, hk', rfl⟩
  | joinCore hr hj =>
      exact h.ensure hw hs (by rw [hr]; rfl) (fun err he => herr err (by rw [hr]; exact he))
        (hs.core_result hj)
  | @coreRaised _ err hr hj =>
      refine h.ensure hw hs (by rw [hr]; rfl) (fun err he => ?_)
        (.inr ⟨err, rfl, .inl (hs.core_result hj)⟩)
      cases he
      exact (caused_of_core hrun h.run hj).mono
  | joinWriter hr hj =>
      rw [hr] at hjoined
      exact h.ensure hw hs (by rw [hr]; rfl) (fun err he => herr err (by rw [hr]; exact he))
        ⟨hs.core_result hjoined, hj⟩
  | @writerRaised _ err hr hj =>
      refine h.ensure hw hs (by rw [hr]; rfl) (fun err he => ?_) (.inr ⟨err, rfl, .inr hj⟩)
      cases he
      exact (h.writer _ (RackWriter.ended_of_result hj)).mono
  | closeIo hr =>
      rw [hr] at hjoined
      exact h.ensure hw hs (by rw [hr]; rfl) (fun err he => herr err (by rw [hr]; exact he))
        (.inl ⟨hs.core_result hjoined.1, hjoined.2, .inl rfl⟩)
  | @closeIoRaised _ raised hr _ =>
      rw [hr] at hjoined
      refine h.ensure hw hs (by rw [hr]; rfl) (fun err he => ?_) (.inl ⟨hs.core_result hjoined.1,
        hjoined.2, .inr ⟨raised, rfl, List.mem_concat_self⟩⟩)
      cases he
      exact hsocket rfl

end EndOk

theorem endOk_of_run (h : RackRun serde config tr a) (hb : a.bridges c = some b) :
    EndOk c tr a b := by
  refine rack_invariant (fun tr a b => EndOk c tr a b) (fun _ _ _ => ?_)
    (fun hr hb ih hs hm => ?_) h hb
  · exact ⟨fun p hp => (by cases hp), fun hc => (by cases hc), fun err he => (by cases he),
      fun err he => (by cases he), trivial⟩
  · cases hm with
    | own hn => exact ih.own hr hb hs hn
    | other _ =>
        exact ih.keep (wf_of_run (rackCoreRun hr)) hs rfl (fun _ hp => .inl hp) (fun _ => id)
          (fun _ => id) (fun err he => (ih.writer err he).mono) id

/-! ### What is left -/

/-- Nothing of a bridge is left at its connection. -/
structure RackBridge.Released (c : ConnId) (tr : List RackEvent) (a : Rack) (b : RackBridge) :
    Prop where
  /-- No `run` was called, or it is over, and what it sent was handed to the driver. -/
  core : b.core = .absent ∨ (∃ k, a.process.server.conns c = some k ∧ k.phase.isDone) ∧
    toDriver c tr = enqueued c (rackCore tr)
  registry : ∀ {s g}, a.process.server.state.services s = some g → g.connId ≠ c
  pending : ∀ {q w}, a.process.server.state.pending q = some w → w.connId ≠ c

/-- A bridge whose `run` is over. -/
structure Ends (c : ConnId) (tr : List RackEvent) (a : Rack) (b : RackBridge)
    (err : Option RackError) : Prop where
  closed : ∃ k, a.process.server.conns c = some k ∧ k.incomingTx = false
  /-- Nothing is left, and the socket is closed unless that raised; or a thread it joined has
  raised, and that is what it raises. -/
  released : b.Released c tr a ∧ (b.ioClosed = true ∨ RackBridge.CloseRaised c tr err) ∨
    ∃ e, err = some e ∧
      (b.core.result a.process = some (.error e) ∨ b.writer.result = some (.error e))
  caused : ∀ {e}, err = some e → e.Caused c tr

/-- A connection whose core thread was joined serves nothing. -/
theorem serving_of_joined (h : RackRun serde config tr a) (hb : a.bridges c = some b)
    (hc : b.core.result a.process = some (.ok ())) {s : String} :
    a.process.server.serving c ≠ some s := by
  intro hs
  obtain ⟨k, hk, hserve⟩ := World.observe_eq_some hs
  have hnew : k.phase ≠ .created := fun hp => by rw [hp] at hserve; cases hserve
  obtain ⟨p, r, hr, rfl, -⟩ := (runsOk_of_run (rackProcessRun h)).runner hk hnew
  obtain ⟨b₁, hb₁, hcore⟩ := (owned_of_run h).run hr
  cases hb.symm.trans hb₁
  rw [hcore] at hc
  obtain ⟨r₁, hr₁, hthread⟩ := Option.bind_eq_some_iff.mp hc
  cases hr.symm.trans hr₁
  have hstage := ((runsOk_of_run (rackProcessRun h)).call hr).stage
  rw [RunStage.thread_ok hthread] at hstage
  obtain ⟨k₁, hk₁, hdone⟩ := RunCall.done_of_joined hstage
  cases hk.symm.trans hk₁
  cases hp : k.phase with
  | done _ => rw [hp] at hserve; cases hserve
  | _ => rw [hp] at hdone; cases hdone

/-- **A bridge ends**: it closes its connection, and leaves nothing behind but what a thread that
raised has left. -/
theorem rack_ends (h : RackRun serde config tr a) (hb : a.bridges c = some b)
    {err : Option RackError} (he : b.reader = .ended err) : Ends c tr a b err := by
  have hw := wf_of_run (rackCoreRun h)
  have hok := endOk_of_run h hb
  refine ⟨hok.closed (by rw [he]; rfl), ?_, fun {e} herr => hok.reader e (by rw [he]; exact herr)⟩
  have hjoined := hok.joined
  unfold RackBridge.Joined at hjoined
  rw [he] at hjoined
  refine hjoined.imp_left fun ⟨hcore, hwriter, hio⟩ => ?_
  have hserve : ∀ {s}, a.process.server.serving c ≠ some s := serving_of_joined h hb hcore
  refine ⟨⟨?_, fun {s g} hg hc => ?_, fun {q w} hq hc => ?_⟩, hio⟩
  · cases hthread : b.core with
    | absent => exact .inl rfl
    | spawned => rw [hthread] at hcore; cases hcore
    | running p =>
        rw [hthread] at hcore
        obtain ⟨r, hr, hout⟩ := Option.bind_eq_some_iff.mp hcore
        obtain ⟨b₁, hb₁, hcore₁⟩ := (owned_of_run h).run hr
        obtain ⟨r₁, hr₁, rfl⟩ := (owned_of_run h).running hb hthread
        cases hr.symm.trans hr₁
        have hstage := ((runsOk_of_run (rackProcessRun h)).call hr).stage
        rw [RunStage.thread_ok hout] at hstage
        refine .inr ⟨RunCall.done_of_joined hstage, toDriver_of_finished h hb ?_⟩
        -- the writer is there, and has ended without an error
        have hmade := (owned_of_run h).made hb
        unfold RackBridge.Made at hmade
        rw [he, hthread] at hmade
        cases hwr : b.writer with
        | absent => cases hmade.mpr hwr
        | ended result =>
            rw [hwr] at hwriter
            cases hwriter
            rfl
        | _ => rw [hwr] at hwriter; cases hwriter
  · exact hserve (hc ▸ (hw.service hg).2)
  · obtain ⟨-, d, -, -, -, hserv⟩ := hw.pending hq
    exact hserve (hc ▸ hserv)

/-! ### A client that has hung up -/

/-- What happens after the drain task of its connection is over. -/
def rackHungUp : List RackEvent :=
  [RackEvent.process (.host (.server (.runReturned 1))), .process (.run 1 .joined),
    .process (.run 1 .settle), .bridge 1 .joinCore] ++ nativeSteps 4 1 [.ended, .settle] ++
    [RackEvent.bridge 1 .taken, .bridge 1 (.closeFrame true none), .bridge 1 (.writerCloseIo none),
      .bridge 1 .joinWriter, .bridge 1 (.closeIo none)]

/-- The state after the drain task, where it has nothing left to do. -/
def Rack.drained (a : Rack) : Option Rack := do
  let k ← a.process.server.conns 1
  match k.phase, k.drain, k.outgoing with
  | .joining _, .running true, [] =>
    some {
      a with
      process := {
        a.process with
        host := {
          a.process.host with
          server := a.process.server.setConn 1 { k with drain := .ended } } } }
  | _, _, _ => none

/-- Nobody else holds a sender to that client. -/
theorem rackSession_not_held (h : RackRun compactJson demoConfig rackSession a) {k : Connection}
    (hk : a.process.server.conns 1 = some k) {service : Option String}
    (hp : k.phase = .joining service) :
    ∀ g, ¬ a.process.server.Holds 1 g := by
  have hevents : (rackCore rackSession).all fun e => match e with
      | .assign _ _ _ => false
      | .register c _ => c = 1
      | _ => true := by decide +kernel
  rw [List.all_eq_true] at hevents
  intro g hg
  have hg := holderOfCleaned_of_run (s := "app") (rackCoreRun h) (by decide +kernel) g hg
  cases g with
  | run =>
      obtain ⟨k₁, hk₁, hhold⟩ := hg
      cases hk.symm.trans hk₁
      rw [hp] at hhold; cases hhold
  | registry s => exact hg
  | dispatch q => cases hevents _ hg.1
  | replacing c =>
      obtain ⟨k₁, s, g, hk₁, hp₁, -, -, hreg⟩ := hg
      obtain rfl := of_decide_eq_true (hevents _ hreg)
      cases hk.symm.trans hk₁
      rw [hp] at hp₁; cases hp₁

theorem drained_step (h : RackRun compactJson demoConfig rackSession a)
    (hd : a.drained = some a') :
    RackStep compactJson a (.process (.host (.server (.drainEnd 1)))) a' := by
  obtain ⟨k, hk, hd⟩ := Option.bind_eq_some_iff.mp hd
  split at hd
  · rename_i hp hdrain ho
    cases hd
    exact .process rfl (.host rfl (.server rfl
      (.drainEnd hk hdrain ho (rackSession_not_held h hk hp))))
  · cases hd

/-- A client that has hung up, and whose bridge has ended. -/
theorem rack_ends_session : ∃ a b,
    RackRun compactJson demoConfig
      (rackSession ++ [RackEvent.process (.host (.server (.drainEnd 1)))] ++ rackHungUp) a ∧
    a.bridges 1 = some b ∧ b.core ≠ .absent ∧
    Ends 1 (rackSession ++ [RackEvent.process (.host (.server (.drainEnd 1)))] ++ rackHungUp) a b
      none := by
  obtain ⟨a₀, h₀, htest⟩ := exists_rackRun compactJson demoConfig rackSession
    (fun a => (a.drained.bind fun a => Lts.execAll (Rack.exec compactJson) a rackHungUp).any
      fun a => (a.bridges 1).any fun b => decide (b.reader = .ended none ∧ b.core ≠ .absent))
    (by decide +kernel)
  obtain ⟨a, ha, hover⟩ := (Option.any_eq_true ..).mp htest
  obtain ⟨a₁, hdrained, hexec⟩ := Option.bind_eq_some_iff.mp ha
  have hstep := drained_step h₀ hdrained
  have h := (h₀.snoc hstep).append (.of_execAll Rack.exec_sound hexec)
  obtain ⟨b, hb, hends⟩ := (Option.any_eq_true ..).mp hover
  obtain ⟨hreader, hcore⟩ := of_decide_eq_true hends
  exact ⟨a, b, h, hb, hcore, rack_ends h hb hreader⟩

end Outpunch
