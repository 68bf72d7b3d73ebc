import Outpunch.Ruby.ExactlyOnce
import Outpunch.Ruby.Tasks
import Outpunch.Server.Rest

/-!
# Ruby — `run` of a native connection

A call of `run` ends, by returning or by raising, with the `run` of the core over, whatever hits
its thread meanwhile (`runs_exact`).  It raises only an exception that hit its thread, and then has
closed the connection; so once the server comes to rest the exception gets out (`run_gets_out`).
Of two calls for one connection one runs it and the task of the other panics.
-/

namespace Outpunch

open Gvl (Interrupt)

variable {serde : SerdeJson} {config : ServerConfig} {tr : List ProcessEvent} {a a' : RubyProcess}
  {p : CallId} {c : ConnId} {b b' : RunCall}

/-! ### The connection -/

theorem Phase.isDone_iff {phase : Phase} : phase.isDone ↔ phase.listening = false := by
  cases phase <;> simp [Phase.isDone, Phase.listening]

/-- A connection whose `run` is over stays so. -/
theorem Connection.Move.done_mono {w : World} {k k' : Connection} {e : Event}
    (hm : Connection.Move serde w c k e k') (h : k.phase.isDone) : k'.phase.isDone := by
  rw [Phase.isDone_iff] at h ⊢
  cases hm with
  | own hs =>
      have hn := hs.next
      generalize k.phase = q, k'.phase = q' at hn h
      cases hn with
      | stay _ => exact h
      | _ => cases h
  | register hp | closeReplaced hp _ | respond hp | cleanup hp | runReturned hp _ =>
      rw [hp] at h; cases h
  | closed _ | drainEnd _ _ _ | send _ | other _ => exact h

/-- A connection is taken from where it was made by `run`. -/
theorem Connection.Move.created {w : World} {k k' : Connection} {e : Event}
    (hm : Connection.Move serde w c k e k') :
    (k'.phase = .created ↔ k.phase = .created) ∨
      e = .conn c .run ∧ k.phase = .created ∧ k'.phase ≠ .created := by
  cases hm with
  | @own e _ hs =>
      by_cases he : e = .run
      · subst he
        cases hs with
        | run hp => exact .inr ⟨rfl, hp, by simp⟩
      · exact .inl (hs.created_iff he)
  | register hp | closeReplaced hp _ | respond hp | cleanup hp | runReturned hp _ =>
      exact .inl (by simp [hp])
  | closed _ | drainEnd _ _ _ | send _ | other _ => exact .inl Iff.rfl

/-- Only a task that begins takes a connection from where it was made. -/
theorem ProcessStep.run_inv {e : ProcessEvent} (h : ProcessStep serde a e a')
    (he : e.toServer = some (.conn c .run)) : ∃ p b, e = .runBegan p c ∧
      a.runs p = some b ∧ b.conn = c ∧ a'.runs p = some { b with task := .running } := by
  cases h with
  | @host e _ hfree _ =>
      cases e with
      | server e => cases he; cases hfree
      | call p c e =>
          obtain ⟨_, hce, he⟩ := Option.map_eq_some_iff.mp he
          cases he
          rcases CallEvent.conn_inv hce with ⟨_, h⟩ | ⟨_, h⟩ | ⟨_, h⟩ | ⟨_, h⟩ <;> cases h
      | called _ _ _ => cases he
  | runBegan hb _ _ =>
      cases he
      exact ⟨_, _, rfl, hb, rfl, PartialMap.insert_same ..⟩
  | _ => cases he

/-- A connection stays; once closed it stays closed, and once over it stays over. -/
theorem ProcessStep.connMove {e : ProcessEvent} (h : ProcessStep serde a e a')
    (hw : a.server.Wf) {k : Connection} (hk : a.server.conns c = some k) :
    ∃ k', a'.server.conns c = some k' ∧ (k.incomingTx = false → k'.incomingTx = false) ∧
      (k.phase.isDone → k'.phase.isDone) ∧
      ((k'.phase = .created ↔ k.phase = .created) ∨
        e.toServer = some (.conn c .run) ∧ k.phase = .created ∧ k'.phase ≠ .created) := by
  have hserver := h.toServer
  cases he : e.toServer with
  | none =>
      rw [he] at hserver
      exact ⟨k, hserver ▸ hk, id, id, .inl Iff.rfl⟩
  | some e' =>
      rw [he] at hserver
      obtain ⟨k', hk', hm⟩ := Step.move hserver hw.fresh hw.closesOthers hk
      refine ⟨k', hk', hm.closed_mono, hm.done_mono, hm.created.imp_right fun hc => ?_⟩
      exact ⟨congrArg some hc.1, hc.2⟩

/-! ### One call -/

/-- An interrupt hit the thread of the call `p`. -/
def RunHit (p : CallId) (tr : List ProcessEvent) (i : Interrupt String) : Prop :=
  .run p (.interrupt i) ∈ tr

/-- The call of `run` of which it is an event. -/
def ProcessEvent.ofRun : ProcessEvent → Option CallId
  | .run p _ | .runBegan p _ | .runPanicked p | .runClosed p _ | .runJoined p => some p
  | _ => none

/-- What an event makes of the call `p`. -/
inductive RunCall.Move (w : World) (p : CallId) (b : RunCall) : ProcessEvent → RunCall → Prop where
  | wait {e : WaitEvent} {b' : RunCall} (hn : b.next w e = some b') : Move w p b (.run p e) b'
  | began (ht : b.task = .spawned) : Move w p b (.runBegan p b.conn) { b with task := .running }
  | panicked {k : Connection} (ht : b.task = .spawned) (hk : w.conns b.conn = some k)
      (hp : k.phase ≠ .created) : Move w p b (.runPanicked p) { b with task := .panicked }
  | closed {err : WaitError} (ht : b.stage = .closing err) :
      Move w p b (.runClosed p b.conn) { b with stage := .joining err }
  | joined {err : WaitError} (ht : b.stage = .joining err) (hj : (b.joined w).isSome) :
      Move w p b (.runJoined p) { b with stage := .ended (.error err) }
  | other {e : ProcessEvent} (he : e.ofRun ≠ some p) : Move w p b e b

/-- A call stays, and makes one move. -/
theorem ProcessStep.runMove {e : ProcessEvent} (h : ProcessStep serde a e a')
    (hb : a.runs p = some b) : ∃ b', a'.runs p = some b' ∧ RunCall.Move a.server p b e b' := by
  -- a step that writes the call `p'` alone is a move of it
  have write : ∀ {p' b₁ b₂}, a.runs p' = some b₁ → (p' ≠ p → e.ofRun ≠ some p) →
      (p' = p → RunCall.Move a.server p b₁ e b₂) →
      ∃ b', (a.runs.insert p' b₂) p = some b' ∧ RunCall.Move a.server p b e b' := by
    intro p' b₁ b₂ hb₁ hother hsame
    by_cases hp : p' = p
    · subst hp
      cases hb₁.symm.trans hb
      exact ⟨b₂, PartialMap.insert_same .., hsame rfl⟩
    · exact ⟨b, (PartialMap.insert_other (Ne.symm hp)).trans hb, .other (hother hp)⟩
  have ne : ∀ {p' : CallId}, p' ≠ p → some p' ≠ some p := fun hp h => hp (Option.some.inj h)
  cases h with
  | runCalled hp _ _ =>
      have hne : p ≠ _ := fun he => by rw [he, hp] at hb; cases hb
      exact ⟨b, (PartialMap.insert_other hne).trans hb, .other (by simp [ProcessEvent.ofRun])⟩
  | runBegan hb' ht _ => exact write hb' ne (by rintro rfl; exact .began ht)
  | runPanicked hb' ht hk hp => exact write hb' ne (by rintro rfl; exact .panicked ht hk hp)
  | run hb' hn => exact write hb' ne (by rintro rfl; exact .wait hn)
  | runClosed hb' ht _ => exact write hb' ne (by rintro rfl; exact .closed ht)
  | runJoined hb' ht hj => exact write hb' ne (by rintro rfl; exact .joined ht hj)
  | _ => exact ⟨b, hb, .other (by simp [ProcessEvent.ofRun])⟩

/-- A call that is there after a step was there before it, or is made by it. -/
theorem ProcessStep.runMove_inv {e : ProcessEvent} (h : ProcessStep serde a e a')
    (hb' : a'.runs p = some b') :
    (∃ c, e = .runCalled p c ∧ b' = .new c) ∨
      ∃ b, a.runs p = some b ∧ RunCall.Move a.server p b e b' := by
  cases hb : a.runs p with
  | some b =>
      obtain ⟨b₁, hb₁, hm⟩ := h.runMove hb
      cases hb₁.symm.trans hb'
      exact .inr ⟨b, rfl, hm⟩
  | none =>
      have other : ∀ {p' b₁ b₂}, a.runs p' = some b₁ → (a.runs.insert p' b₂) p ≠ some b' :=
        fun {p' _ _} hb₁ hins => by
          rcases PartialMap.insert_eq_some.mp hins with ⟨rfl, -⟩ | ⟨-, hold⟩
          · rw [hb] at hb₁; cases hb₁
          · rw [hb] at hold; cases hold
      cases h with
      | runCalled _ _ _ =>
          rcases PartialMap.insert_eq_some.mp hb' with ⟨rfl, rfl⟩ | ⟨-, hold⟩
          · exact .inl ⟨_, rfl, rfl⟩
          · rw [hb] at hold; cases hold
      | runBegan hb₁ _ _ | runPanicked hb₁ _ _ _ | run hb₁ _ | runClosed hb₁ _ _
      | runJoined hb₁ _ _ => exact absurd hb' (other hb₁)
      | _ => rw [hb] at hb'; cases hb'

/-! ### The invariant -/

/-- An exception hit the thread, and is what is raised. -/
def WaitError.Struck (hit : Interrupt String → Prop) (err : WaitError) : Prop :=
  ∃ text, err = .raised text ∧ hit (.raises text)

/-- What holds where a call stands; `task` is what its task gives. -/
def RunStage.Ok (hit : Interrupt String → Prop) (task : Option (Joined Unit)) : RunStage → Prop
  | .waiting wait => wait.Struck hit ∧ wait.waited = none ∧
      ∀ joined, wait.phase.result = some joined → task = some joined
  | .closing err | .joining err => err.Struck hit
  | .ended (.ok ()) => task = some (.ok ())
  | .ended (.error err) => err.Struck hit ∧ task.isSome
  | .unwound => task = some .panicked

/-- The call has closed its connection. -/
def RunStage.closed : RunStage → Bool
  | .joining _ | .ended (.error _) => true
  | _ => false

/-- The call is over. -/
def RunStage.isEnded : RunStage → Bool
  | .ended _ | .unwound => true
  | _ => false

/-- What holds of a call of `run`. -/
structure RunOk (tr : List ProcessEvent) (w : World) (p : CallId) (b : RunCall) : Prop where
  conn : ∃ k, w.conns b.conn = some k ∧ (b.task ≠ .spawned → k.phase ≠ .created) ∧
    (b.stage.closed → k.incomingTx = false)
  stage : b.stage.Ok (RunHit p tr) (b.joined w)

theorem RunStage.Ok.mono {hit hit' : Interrupt String → Prop} {task task' : Option (Joined Unit)}
    {stage : RunStage} (h : stage.Ok hit task) (hsub : ∀ i, hit i → hit' i)
    (htask : ∀ joined, task = some joined → task' = some joined) : stage.Ok hit' task' := by
  have raised : ∀ {err : WaitError}, err.Struck hit → err.Struck hit' := fun hr => by
    obtain ⟨text, he, hi⟩ := hr
    exact ⟨text, he, hsub _ hi⟩
  cases stage with
  | waiting wait => exact ⟨h.1.mono hsub, h.2.1, fun joined hj => htask _ (h.2.2 joined hj)⟩
  | closing _ | joining _ => exact raised h
  | unwound => exact htask _ h
  | ended result =>
      cases result with
      | ok _ => exact htask _ h
      | error err =>
          obtain ⟨joined, hj⟩ := Option.isSome_iff_exists.mp h.2
          exact ⟨raised h.1, by rw [htask _ hj]; rfl⟩

/-- A task that `run` waits for is not aborted. -/
theorem RunCall.joined_cases {w : World} {joined : Joined Unit} (hj : b.joined w = some joined) :
    joined = .ok () ∧ b.task = .running ∨ joined = .panicked ∧ b.task = .panicked := by
  unfold RunCall.joined at hj
  split at hj
  · cases hj
  · rename_i ht
    cases (Option.ite_none_right_eq_some.mp hj).2
    exact .inl ⟨rfl, ht⟩
  · rename_i ht
    cases hj
    exact .inr ⟨rfl, ht⟩

/-- Where a wait leaves the call. -/
theorem RunCall.waitedStage_ok {w : World} {hit : Interrupt String → Prop} {wait : WaitFor Unit}
    (hstruck : wait.Struck hit)
    (hresult : ∀ joined, wait.phase.result = some joined → b.joined w = some joined) :
    (RunCall.waitedStage wait).Ok hit (b.joined w) := by
  cases hw : wait.waited with
  | none =>
      rw [waitedStage, hw]
      exact ⟨hstruck, hw, hresult⟩
  | some out =>
      rcases WaitFor.waited_eq_some.mp hw with ⟨joined, hp, rfl⟩ | ⟨err, hp, rfl⟩
      · have hj : b.joined w = some joined := hresult joined (by rw [hp]; rfl)
        rcases joined_cases hj with ⟨rfl, -⟩ | ⟨rfl, -⟩
        · rw [waitedStage, hw]
          exact hj
        · rw [waitedStage, hw]
          exact hj
      · rw [waitedStage, hw]
        exact ⟨err, rfl, hstruck.raised err hp⟩

/-- `wait_for` does not close the connection. -/
theorem RunCall.waitedStage_closed (wait : WaitFor Unit) :
    (RunCall.waitedStage wait).closed = false := by
  unfold waitedStage
  split <;> rfl

/-- What a task gave, it gives. -/
theorem ProcessStep.runTask {e : ProcessEvent} (h : ProcessStep serde a e a')
    (hw : a.server.Wf) {joined : Joined Unit} (hj : b.joined a.server = some joined) :
    b.joined a'.server = some joined := by
  unfold RunCall.joined at hj ⊢
  split at hj
  · cases hj
  · obtain ⟨hany, hj⟩ := Option.ite_none_right_eq_some.mp hj
    obtain ⟨k, hk, hdone⟩ := (Option.any_eq_true ..).mp hany
    obtain ⟨k', hk', -, hmono, -⟩ := h.connMove hw hk
    rw [hk', Option.any_some, if_pos (hmono hdone)]
    exact hj
  · exact hj

namespace RunOk

variable {w : World}

theorem new {k : Connection} (hk : w.conns c = some k) : RunOk tr w p (.new c) where
  conn := ⟨k, hk, fun h => absurd rfl h, fun h => (by cases h)⟩
  stage := ⟨.new _, rfl, fun _ hj => (by cases hj)⟩

/-- An event of its wait. -/
theorem wait {e : WaitEvent} (h : RunOk tr w p b) (hn : b.next w e = some b') :
    RunOk (tr ++ [ProcessEvent.run p e]) w p b' := by
  unfold RunCall.next at hn
  split at hn
  · rename_i wait hstage
    obtain ⟨k, hk, rfl⟩ := Option.map_eq_some_iff.mp hn
    have hok := h.stage
    rw [hstage] at hok
    obtain ⟨hstruck, hover, hresult⟩ := hok
    obtain ⟨k₀, hk₀, hcreated, -⟩ := h.conn
    refine ⟨⟨k₀, hk₀, hcreated, fun hc => ?_⟩, RunCall.waitedStage_ok (b := b) ?_ ?_⟩
    · rw [RunCall.waitedStage_closed] at hc
      cases hc
    · exact WaitFor.step_struck (hstruck.mono fun i hi => List.mem_append_left _ hi) hk
        fun i hi => hi ▸ List.mem_concat_self
    · intro joined hj
      rcases WaitFor.step_cases hk with ⟨joined', _, -, htask, -, hp⟩ | ⟨-, hsame⟩
      · rw [hp] at hj
        cases hj
        exact htask
      · exact hresult joined (hsame ▸ hj)
  · cases hn

end RunOk

/-- What holds of all of them. -/
structure RunsOk (tr : List ProcessEvent) (a : RubyProcess) : Prop where
  call : ∀ {p b}, a.runs p = some b → RunOk tr a.server p b
  /-- A connection that was taken from where it was made is run by a call. -/
  runner : ∀ {c k}, a.server.conns c = some k → k.phase ≠ .created →
    ∃ p b, a.runs p = some b ∧ b.conn = c ∧ b.task = .running
  one : ∀ {p p' b b'}, a.runs p = some b → a.runs p' = some b' → b.conn = b'.conn →
    b.task = .running → b'.task = .running → p = p'

/-- A connection of the native side is one of the server. -/
theorem conn_of_outgoing {l : List RubyEvent} {host : RubyHost} (h : RubyRun serde config l host)
    {o : OutgoingQueue} (ho : host.outgoing c = some o) : ∃ k, host.server.conns c = some k := by
  rcases queue_invariant (c := c) (fun _ _ _ => True) (fun _ _ => trivial)
    (fun _ _ _ _ _ _ => trivial) h with ⟨-, hno, -⟩ | ⟨_, k, -, hk, -⟩
  · rw [hno] at ho; cases ho
  · exact ⟨k, hk⟩

namespace RunCall.Move

variable {w : World} {e : ProcessEvent}

theorem conn (h : RunCall.Move w p b e b') : b'.conn = b.conn := by
  cases h with
  | wait hn =>
      unfold RunCall.next at hn
      split at hn
      · obtain ⟨_, -, rfl⟩ := Option.map_eq_some_iff.mp hn
        rfl
      · cases hn
  | _ => rfl

/-- A task runs that ran before, or that has just begun. -/
theorem running_iff (h : RunCall.Move w p b e b') :
    b'.task = .running ↔ b.task = .running ∨ e = .runBegan p b.conn := by
  cases h with
  | wait hn =>
      unfold RunCall.next at hn
      split at hn
      · obtain ⟨_, -, rfl⟩ := Option.map_eq_some_iff.mp hn
        simp
      · cases hn
  | began _ => simp
  | panicked ht _ _ => simp [ht]
  | closed _ | joined _ _ => simp
  | other he =>
      refine ⟨.inl, fun h => h.resolve_right ?_⟩
      rintro rfl
      exact he rfl

end RunCall.Move

/-- A `run` that begins takes its connection from where it was made. -/
theorem ProcessStep.conn_of_began (h : ProcessStep serde a (.runBegan p c) a') :
    (∃ k, a.server.conns c = some k ∧ k.phase = .created) ∧
      ∃ k, a'.server.conns c = some k ∧ k.phase ≠ .created := by
  have hstep : Step serde a.server (.conn c .run) a'.server := h.toServer
  obtain ⟨k, k', hk, hs, hk'⟩ := hstep.conn_inv
  cases hs with
  | run hp => exact ⟨⟨k, hk, hp⟩, _, hk', by simp⟩

theorem ProcessStep.conn_of_closed (h : ProcessStep serde a (.runClosed p c) a') :
    ∃ k, a'.server.conns c = some k ∧ k.incomingTx = false := by
  have hstep : Step serde a.server (.conn c .close) a'.server := h.toServer
  obtain ⟨k, k', hk, hs, hk'⟩ := hstep.conn_inv
  cases hs with
  | close => exact ⟨_, hk', rfl⟩

namespace RunsOk

/-- A call that makes no move. -/
theorem stay {e : ProcessEvent} (hok : RunOk tr a.server p b) (h : ProcessStep serde a e a')
    (hw : a.server.Wf) : RunOk (tr ++ [e]) a'.server p b := by
  obtain ⟨k, hk, hcreated, hclosed⟩ := hok.conn
  obtain ⟨k', hk', hclosed', -, hc⟩ := h.connMove hw hk
  refine ⟨⟨k', hk', fun ht => ?_, fun hs => hclosed' (hclosed hs)⟩,
    hok.stage.mono (fun i hi => List.mem_append_left _ hi) fun joined hj => h.runTask hw hj⟩
  rcases hc with hc | ⟨-, -, hc⟩
  · exact fun hp => hcreated ht (hc.mp hp)
  · exact hc

theorem step_call {e : ProcessEvent} (ih : RunsOk tr a) (hr : ProcessRun serde config tr a)
    (h : ProcessStep serde a e a') (hb' : a'.runs p = some b') :
    RunOk (tr ++ [e]) a'.server p b' := by
  have hw := wf_of_run (processCoreRun hr)
  rcases h.runMove_inv hb' with ⟨c, rfl, rfl⟩ | ⟨b, hb, hm⟩
  · cases h with
    | runCalled _ ho _ =>
        obtain ⟨k, hk⟩ := conn_of_outgoing (hostRun hr) ho
        exact .new hk
  · have hok := stay (ih.call hb) h hw
    obtain ⟨k, hk, hcreated, hclosed⟩ := hok.conn
    have hstage := hok.stage
    -- a task that has not begun has given nothing
    have begun : b.task = .spawned → ∀ {task}, b.stage.Ok (RunHit p (tr ++ [e])) task :=
      fun ht _ => hstage.mono (fun _ => id) fun joined hj => by
        rw [RunCall.joined, ht] at hj
        cases hj
    cases hm with
    | wait hn =>
        have hsame : a'.server = a.server := h.toServer
        rw [hsame]
        exact (ih.call hb).wait hn
    | began ht =>
        obtain ⟨-, k', hk', hp⟩ := h.conn_of_began
        cases hk.symm.trans hk'
        exact ⟨⟨k, hk, fun _ => hp, hclosed⟩, begun ht⟩
    | panicked ht hk₀ hp =>
        have hsame : a'.server = a.server := h.toServer
        rw [hsame] at hk
        cases hk₀.symm.trans hk
        exact ⟨⟨k, hsame ▸ hk, fun _ => hp, hclosed⟩, begun ht⟩
    | closed ht =>
        obtain ⟨k', hk', hc⟩ := h.conn_of_closed
        cases hk.symm.trans hk'
        rw [ht] at hstage
        exact ⟨⟨k, hk, hcreated, fun _ => hc⟩, hstage⟩
    | joined ht hj =>
        have hsame : a'.server = a.server := h.toServer
        rw [ht] at hstage hclosed
        exact ⟨⟨k, hk, hcreated, fun _ => hclosed rfl⟩, hstage, hsame ▸ hj⟩
    | other _ => exact hok

theorem step_runner {e : ProcessEvent} (ih : RunsOk tr a) (hw : a.server.Wf)
    (h : ProcessStep serde a e a') {k' : Connection} (hk' : a'.server.conns c = some k')
    (hp' : k'.phase ≠ .created) :
    ∃ p b, a'.runs p = some b ∧ b.conn = c ∧ b.task = .running := by
  cases hk : a.server.conns c with
  | none =>
      -- a new connection
      have hserver := h.toServer
      cases he : e.toServer with
      | none =>
          rw [he] at hserver
          rw [hserver, hk] at hk'; cases hk'
      | some e' =>
          rw [he] at hserver
          rcases Step.move_inv hserver hw.fresh hw.closesOthers hk' with ⟨-, -, rfl⟩ | ⟨k, hk₁, -⟩
          · exact absurd rfl hp'
          · rw [hk] at hk₁; cases hk₁
  | some k =>
      obtain ⟨k₁, hk₁, -, -, hc⟩ := h.connMove hw hk
      cases hk₁.symm.trans hk'
      rcases hc with hc | ⟨he, -, -⟩
      · obtain ⟨p, b, hb, rfl, ht⟩ := ih.runner hk fun hp => hp' (hc.mpr hp)
        obtain ⟨b', hb', hm⟩ := h.runMove hb
        exact ⟨p, b', hb', hm.conn, hm.running_iff.mpr (.inl ht)⟩
      · obtain ⟨p, b, -, -, rfl, hb'⟩ := h.run_inv he
        exact ⟨p, _, hb', rfl, rfl⟩

theorem step_one {e : ProcessEvent} (ih : RunsOk tr a) (h : ProcessStep serde a e a')
    {p₁ p₂ : CallId} {b₁ b₂ : RunCall} (hb₁ : a'.runs p₁ = some b₁) (hb₂ : a'.runs p₂ = some b₂)
    (hc : b₁.conn = b₂.conn) (ht₁ : b₁.task = .running) (ht₂ : b₂.task = .running) : p₁ = p₂ := by
  -- a task that runs ran before, or has begun
  have inv : ∀ {p b}, a'.runs p = some b → b.task = .running →
      (∃ b₀, a.runs p = some b₀ ∧ b₀.conn = b.conn ∧ b₀.task = .running) ∨
        e = .runBegan p b.conn := fun hb ht => by
    rcases h.runMove_inv hb with ⟨_, -, rfl⟩ | ⟨b₀, hb₀, hm⟩
    · cases ht
    · rcases hm.running_iff.mp ht with ht | he
      · exact .inl ⟨b₀, hb₀, hm.conn.symm, ht⟩
      · exact .inr (hm.conn ▸ he)
  have fresh : ∀ {p p' c b₀}, e = .runBegan p c → a.runs p' = some b₀ → b₀.conn = c →
      b₀.task ≠ .running := fun he hb₀ hc ht => by
    subst he hc
    obtain ⟨⟨k, hk, hp⟩, -⟩ := h.conn_of_began
    obtain ⟨k', hk', hcreated, -⟩ := (ih.call hb₀).conn
    cases hk.symm.trans hk'
    exact hcreated (by rw [ht]; simp) hp
  rcases inv hb₁ ht₁ with ⟨b, hb, hbc, ht⟩ | he
  · rcases inv hb₂ ht₂ with ⟨b', hb', hbc', ht'⟩ | he
    · exact ih.one hb hb' (hbc.trans (hc.trans hbc'.symm)) ht ht'
    · exact absurd ht (fresh he hb (hbc.trans hc))
  · rcases inv hb₂ ht₂ with ⟨b', hb', hbc', ht'⟩ | he'
    · exact absurd ht' (fresh he hb' (hbc'.trans hc.symm))
    · exact (ProcessEvent.runBegan.inj (he.symm.trans he')).1

end RunsOk

theorem runsOk_of_run (h : ProcessRun serde config tr a) : RunsOk tr a :=
  h.invariant RunsOk
    ⟨fun hb => (by cases hb), fun hk => (by cases hk), fun hb => (by cases hb)⟩
    fun hr ih hs => ⟨ih.step_call hr hs, ih.step_runner (wf_of_run (processCoreRun hr)) hs,
      ih.step_one hs⟩

/-! ### `run` ends with the core's -/

/-- What the calls of `run` do. -/
structure RunsExact (tr : List ProcessEvent) (a : RubyProcess) : Prop where
  /-- One call runs the connection. -/
  one : ∀ {p p' b b'}, a.runs p = some b → a.runs p' = some b' → b.conn = b'.conn →
    b.task = .running → b'.task = .running → p = p'
  /-- The task of a call panics where another runs the connection. -/
  panicked : ∀ {p b}, a.runs p = some b → b.task = .panicked →
    ∃ p' b', p' ≠ p ∧ a.runs p' = some b' ∧ b'.conn = b.conn ∧ b'.task = .running
  /-- A call returns with the `run` of the core over. -/
  returned : ∀ {p b}, a.runs p = some b → b.stage = .ended (.ok ()) → b.task = .running ∧
    ∃ k, a.server.conns b.conn = some k ∧ k.phase.isDone
  /-- A call raises with it over, or with a task that panicked. -/
  raised : ∀ {p b err}, a.runs p = some b → b.stage = .ended (.error err) →
    b.task = .panicked ∨ ∃ k, a.server.conns b.conn = some k ∧ k.phase.isDone
  /-- The panic of a task goes on in its call. -/
  unwound : ∀ {p b}, a.runs p = some b → b.stage = .unwound → b.task = .panicked
  /-- A call closes its connection where an exception hit its thread, which is what it raises. -/
  closed : ∀ {p b}, a.runs p = some b → b.stage.closed →
    (∃ text, (b.stage = .joining (.raised text) ∨ b.stage = .ended (.error (.raised text))) ∧
      RunHit p tr (.raises text)) ∧
    ∃ k, a.server.conns b.conn = some k ∧ k.incomingTx = false

theorem RunCall.done_of_joined {w : World} (hj : b.joined w = some (.ok ())) :
    ∃ k, w.conns b.conn = some k ∧ k.phase.isDone := by
  unfold RunCall.joined at hj
  split at hj
  · cases hj
  · exact (Option.any_eq_true ..).mp (Option.ite_none_right_eq_some.mp hj).1
  · cases hj

/-- **`run` ends with the core's**, however its thread is interrupted. -/
theorem runs_exact (h : ProcessRun serde config tr a) : RunsExact tr a where
  one := (runsOk_of_run h).one
  panicked {p b} hb ht := by
    obtain ⟨k, hk, hcreated, -⟩ := ((runsOk_of_run h).call hb).conn
    obtain ⟨p', b', hb', hc, ht'⟩ := (runsOk_of_run h).runner hk (hcreated (by rw [ht]; simp))
    refine ⟨p', b', ?_, hb', hc, ht'⟩
    rintro rfl
    cases hb.symm.trans hb'
    rw [ht] at ht'; cases ht'
  returned hb hs := by
    have hok := ((runsOk_of_run h).call hb).stage
    rw [hs] at hok
    rcases RunCall.joined_cases hok with ⟨-, ht⟩ | ⟨hp, -⟩
    · exact ⟨ht, RunCall.done_of_joined hok⟩
    · cases hp
  raised hb hs := by
    have hok := ((runsOk_of_run h).call hb).stage
    rw [hs] at hok
    obtain ⟨joined, hj⟩ := Option.isSome_iff_exists.mp hok.2
    rcases RunCall.joined_cases hj with ⟨rfl, -⟩ | ⟨-, ht⟩
    · exact .inr (RunCall.done_of_joined hj)
    · exact .inl ht
  unwound hb hs := by
    have hok := ((runsOk_of_run h).call hb).stage
    rw [hs] at hok
    rcases RunCall.joined_cases hok with ⟨hp, -⟩ | ⟨-, ht⟩
    · cases hp
    · exact ht
  closed {p b} hb hc := by
    have hok := (runsOk_of_run h).call hb
    obtain ⟨k, hk, -, hclosed⟩ := hok.conn
    refine ⟨?_, k, hk, hclosed hc⟩
    have hstage := hok.stage
    cases hs : b.stage with
    | joining err =>
        rw [hs] at hstage
        obtain ⟨text, rfl, hhit⟩ := hstage
        exact ⟨text, .inl rfl, hhit⟩
    | ended result =>
        cases result with
        | ok _ => rw [hs] at hc; cases hc
        | error err =>
            rw [hs] at hstage
            obtain ⟨⟨text, rfl, hhit⟩, -⟩ := hstage
            exact ⟨text, .inr rfl, hhit⟩
    | _ => rw [hs] at hc; cases hc

/-- The call 1 runs the connection 1, is woken up, and then hit by an exception; the call 2 finds
it run. -/
def stoppedRun : List ProcessEvent :=
  [.host (.server (.create 1)), .host (.server (.conn 1 .onMessage)), .runCalled 1 1,
    .run 1 .enter, .runBegan 1 1, .run 1 (.interrupt .quiet), .run 1 .cancelled, .run 1 .settle,
    .run 1 .enter, .runCalled 2 1, .run 2 .enter, .runPanicked 2, .run 2 .joined, .run 2 .settle,
    .run 1 (.interrupt (.raises "stop")), .run 1 .cancelled, .run 1 .settle, .runClosed 1 1]

/-- How the two calls stand. -/
def stoppedCalls (a : RubyProcess) : Bool :=
  (a.runs 1).any (fun b => decide (b.task = .running) && b.stage.closed && !b.stage.isEnded) &&
    (a.runs 2).any (fun b => decide (b.task = .panicked) && b.stage.isEnded)

theorem exists_stoppedRun :
    ∃ a, ProcessRun compactJson demoConfig stoppedRun a ∧ stoppedCalls a :=
  exists_processRun compactJson demoConfig stoppedRun stoppedCalls (by decide +kernel)

/-- Two calls for one connection, one hit by an exception. -/
theorem runs_exact_stopped : ∃ a, ProcessRun compactJson demoConfig stoppedRun a ∧
    stoppedCalls a ∧ RunsExact stoppedRun a := by
  obtain ⟨a, h, hcalls⟩ := exists_stoppedRun
  exact ⟨a, h, hcalls, runs_exact h⟩

/-- A connection that runs and is closed does so from then on. -/
theorem closed_of_run {w w' : World} {l : List Event} (h : Lts.Run (Step serde) w l w')
    (hw : w.Wf) {k : Connection} (hk : w.conns c = some k) (hp : k.phase ≠ .created)
    (hc : k.incomingTx = false) :
    ∃ k', w'.conns c = some k' ∧ k'.phase ≠ .created ∧ k'.incomingTx = false := by
  have hinv : w'.Wf ∧ ∃ k', w'.conns c = some k' ∧ k'.phase ≠ .created ∧ k'.incomingTx = false :=
    h.preserves (P := fun w => w.Wf ∧
      ∃ k, w.conns c = some k ∧ k.phase ≠ .created ∧ k.incomingTx = false)
      (fun hinv hs => by
        obtain ⟨hw, k, hk, hp, hc⟩ := hinv
        obtain ⟨k', hk', hm⟩ := hs.move hw.fresh hw.closesOthers hk
        refine ⟨hs.wf hw, k', hk', ?_, hm.closed_mono hc⟩
        rcases hm.created with hiff | ⟨-, hnew, -⟩
        · exact fun hp' => hp (hiff.mp hp')
        · exact absurd hnew hp)
      ⟨hw, k, hk, hp, hc⟩
  exact hinv.2

/-! ### A task that has not begun -/

/-- A queue with a callback keeps it. -/
theorem OutgoingQueue.Move.ready {host : RubyHost} {o o' : OutgoingQueue} {k k' : Connection}
    {e : RubyEvent} (h : OutgoingQueue.Move serde host c o k e o' k') (hr : o.ready) :
    o'.ready := by
  cases h with
  | conn _ hn =>
      rename_i ce _
      cases ce with
      | onMessage =>
          obtain ⟨hno, -⟩ := Option.ite_none_right_eq_some.mp hn
          rw [hr] at hno
          cases hno
      | run | close =>
          obtain ⟨-, ho⟩ := Option.ite_none_right_eq_some.mp hn
          cases ho
          exact hr
      | _ => first | (cases hn; exact hr) | cases hn
  | server _ _ | push _ _ | other _ _ => exact hr
  | call _ hq =>
      obtain ⟨hready, -⟩ := OutgoingQueue.onCall_inv hq
      exact hready.trans hr

/-- A run is called for a connection whose callback is set. -/
theorem ready_of_run (h : ProcessRun serde config tr a) (hb : a.runs p = some b) :
    ∃ o, a.host.outgoing b.conn = some o ∧ o.ready := by
  induction h generalizing b with
  | nil => cases hb
  | @snoc tr e a a' h hs ih =>
      have hw : a.server.Wf := wf_of_run (processCoreRun h)
      -- what there was before the step keeps its callback
      have keep : ∀ {c o}, a.host.outgoing c = some o → o.ready →
          ∃ o', a'.host.outgoing c = some o' ∧ o'.ready := by
        intro c o ho hr
        have hhost := hs.toHost
        cases he : e.toHost with
        | none =>
            rw [he] at hhost
            exact ⟨o, hhost ▸ ho, hr⟩
        | some e' =>
            rw [he] at hhost
            obtain ⟨k, hk⟩ := conn_of_outgoing (hostRun h) ho
            obtain ⟨o', _, ho', -, hm⟩ := hhost.queueMove hw ho hk
            exact ⟨o', ho', hm.ready hr⟩
      rcases hs.runMove_inv hb with ⟨c, rfl, rfl⟩ | ⟨b₁, hb₁, hm⟩
      · cases hs with
        | runCalled _ ho hr => exact keep ho hr
      · obtain ⟨o, ho, hr⟩ := ih hb₁
        rw [hm.conn]
        exact keep ho hr

/-- A task that has not begun can, and panics where its connection was run. -/
theorem exists_begun (h : ProcessRun serde config tr a) (hb : a.runs p = some b)
    (ht : b.task = .spawned) : ∃ e a' b', ProcessStep serde a e a' ∧
      (e = .runBegan p b.conn ∨ e = .runPanicked p) ∧ a'.runs p = some b' ∧
      b'.stage = b.stage ∧ b'.task ≠ .spawned := by
  obtain ⟨k, hk, -, -⟩ := ((runsOk_of_run h).call hb).conn
  by_cases hp : k.phase = .created
  · obtain ⟨o, ho, hr⟩ := ready_of_run h hb
    have hn : o.onConn .run = some o := if_pos hr
    exact ⟨_, _, _, .runBegan hb ht (.conn (.conn hk (.run hp)) ho hn), .inl rfl,
      PartialMap.insert_same .., rfl, by simp⟩
  · exact ⟨_, _, _, .runPanicked hb ht hk hp, .inr rfl, PartialMap.insert_same .., rfl, by simp⟩

/-! ### How an exception gets out -/

/-- At rest a task that has begun is over, where its call has closed the connection. -/
theorem joined_of_rests (h : ProcessRun serde config tr a) {err : WaitError}
    (hb : a.runs p = some b) (hs : b.stage = .joining err) (ht : b.task ≠ .spawned)
    {tr' : List Event} {w' : World} (h' : Lts.Run (Step serde) a.server tr' w')
    (hr : w'.Rests serde) : (b.joined w').isSome := by
  cases htask : b.task with
  | spawned => exact absurd htask ht
  | panicked => simp [RunCall.joined, htask]
  | running =>
      obtain ⟨k, hk, hcreated, hclosed⟩ := ((runsOk_of_run h).call hb).conn
      have hrun := processCoreRun h
      obtain ⟨k', hk', hp', hc'⟩ := closed_of_run h' (wf_of_run hrun) hk (hcreated ht)
        (hclosed (by rw [hs]; rfl))
      have hdone : k'.phase.isDone := by
        cases (hr.atRest (hrun.append h')).conn hk' with
        | created hp => exact absurd hp hp'
        | done hp => rw [hp]; rfl
        | waiting _ hopen _ _ _ => rw [hc'] at hopen; cases hopen
      simp [RunCall.joined, htask, hk', hdone]

/-- **An exception gets out of `run`**: the task a call waits for the second time begins, if it has
not, the tasks of the core come to rest, and then it is over. -/
theorem run_gets_out (h : ProcessRun serde config tr a) {err : WaitError}
    (hb : a.runs p = some b) (hs : b.stage = .joining err) :
    (b.task ≠ .spawned → ∀ tr' w', Lts.Run (Step serde) a.server tr' w' → w'.Rests serde →
      (b.joined w').isSome) ∧
    ∃ tr₁ a₁ b₁, Lts.Run (ProcessStep serde) a tr₁ a₁ ∧
      (tr₁ = [] ∨ b.task = .spawned ∧ (tr₁ = [.runBegan p b.conn] ∨ tr₁ = [.runPanicked p])) ∧
      a₁.runs p = some b₁ ∧ b₁.stage = .joining err ∧ b₁.task ≠ .spawned ∧
      ∃ tr' w', Lts.Run (Step serde) a₁.server tr' w' ∧ (∀ e ∈ tr', e.own) ∧ w'.Rests serde ∧
        (b₁.joined w').isSome := by
  refine ⟨fun ht _ _ => joined_of_rests h hb hs ht, ?_⟩
  by_cases ht : b.task = .spawned
  · obtain ⟨e, a₁, b₁, hstep, he, hb₁, hstage, ht₁⟩ := exists_begun h hb ht
    have h₁ := h.snoc hstep
    have hs₁ := hstage.trans hs
    obtain ⟨tr', w', h', hown, hr⟩ := exists_rest (processCoreRun h₁)
    refine ⟨[e], a₁, b₁, Lts.Run.nil.snoc hstep, .inr ⟨ht, ?_⟩, hb₁, hs₁, ht₁, tr', w', h', hown,
      hr, joined_of_rests h₁ hb₁ hs₁ ht₁ h' hr⟩
    rcases he with rfl | rfl
    · exact .inl rfl
    · exact .inr rfl
  · obtain ⟨tr', w', h', hown, hr⟩ := exists_rest (processCoreRun h)
    exact ⟨[], a, b, .nil, .inl rfl, hb, hs, ht, tr', w', h', hown, hr,
      joined_of_rests h hb hs ht h' hr⟩

/-- The call 1 is hit by an exception before its task begins. -/
def unbegunRun : List ProcessEvent :=
  [.host (.server (.create 1)), .host (.server (.conn 1 .onMessage)), .runCalled 1 1,
    .run 1 .enter, .run 1 (.interrupt (.raises "stop")), .run 1 .cancelled, .run 1 .settle,
    .runClosed 1 1]

/-- How the call stands. -/
def unbegunCall (a : RubyProcess) : Bool :=
  (a.runs 1).any fun b => decide (b.task = .spawned) && b.stage.closed && !b.stage.isEnded

/-- The call 1 has closed its connection; its task begins, and ends. -/
theorem run_gets_out_unbegun : ∃ a b, ProcessRun compactJson demoConfig unbegunRun a ∧
    a.runs 1 = some b ∧ b.task = .spawned ∧
    ∃ tr₁ a₁ b₁, Lts.Run (ProcessStep compactJson) a tr₁ a₁ ∧ a₁.runs 1 = some b₁ ∧
      b₁.task ≠ .spawned ∧ ∃ tr' w', Lts.Run (Step compactJson) a₁.server tr' w' ∧
        (∀ e ∈ tr', e.own) ∧ (b₁.joined w').isSome := by
  obtain ⟨a, h, hcall⟩ :=
    exists_processRun compactJson demoConfig unbegunRun unbegunCall (by decide +kernel)
  obtain ⟨b, hb, hcall⟩ := (Option.any_eq_true ..).mp hcall
  simp only [Bool.and_eq_true, decide_eq_true_eq, Bool.not_eq_true'] at hcall
  obtain ⟨⟨ht, hc⟩, he⟩ := hcall
  cases hs : b.stage with
  | joining err =>
      obtain ⟨-, tr₁, a₁, b₁, h₁, -, hb₁, -, ht₁, tr', w', h', hown, -, hj⟩ :=
        run_gets_out h hb hs
      exact ⟨a, b, h, hb, ht, tr₁, a₁, b₁, h₁, hb₁, ht₁, tr', w', h', hown, hj⟩
  | ended _ => rw [hs] at he; cases he
  | _ => rw [hs] at hc; cases hc

end Outpunch
