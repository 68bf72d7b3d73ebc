import Outpunch.Axum.Tasks
import Outpunch.Server.Rest

/-!
# Axum — handlers at rest

What is left of the WebSocket handlers when neither the server nor one of their tasks can go on by
itself: a handler is over with its tasks, or its connection is open and nothing is on its way
through it, unless a send on its socket has failed (`bridge_at_rest`).
-/

namespace Outpunch

variable {serde : SerdeJson} {config : ServerConfig} {tr : List AxumEvent} {a a' : Axum}
  {c : ConnId} {b b' : Bridge} {k k' : Connection}

/-! ### Steps of a handler -/

/-- What a bridge does apart from its connection, case by case. -/
inductive Bridge.Next (b : Bridge) (callbackGone : Bool) : BridgeEvent → Bridge → Prop where
  | spawnWrite (hm : b.main = .bridged) :
      Next b callbackGone .spawnWrite { b with main := .writing, writer := .receiving }
  | spawnRead (hm : b.main = .writing) :
      Next b callbackGone .spawnRead { b with main := .ready, reader := .receiving }
  | sink {text : String} {rest : List String} (hw : b.writer = .receiving)
      (hq : b.queue = text :: rest) :
      Next b callbackGone (.sink text) { b with writer := .sending, queue := rest }
  | sinkOk (hw : b.writer = .sending) : Next b callbackGone .sinkOk { b with writer := .receiving }
  | sinkErr (hw : b.writer = .sending) :
      Next b callbackGone .sinkErr { b with writer := .ended, queue := [] }
  | writeEnd (hw : b.writer = .receiving) (hq : b.queue = []) (hg : callbackGone = true) :
      Next b callbackGone .writeEnd { b with writer := .ended }
  | flushed (hm : b.main = .flushing) :
      Next b callbackGone .flushed { b with main := .returned, aborted := true }
  | readCancelled (ha : b.aborted = true) (hr : b.reader = .receiving) :
      Next b callbackGone .readCancelled { b with reader := .ended }

theorem Bridge.next_inv {e : BridgeEvent} {gone : Bool} (h : b.next gone e = some b') :
    Next b gone e b' := by
  cases e with
  | sink text =>
      simp only [Bridge.next] at h
      split at h
      · rename_i hw hq
        obtain ⟨heq, hn⟩ := Option.ite_none_right_eq_some.mp h
        cases hn
        exact heq ▸ .sink hw hq
      · cases h
  | writeEnd =>
      obtain ⟨⟨hw, hq, hg⟩, h⟩ := Option.ite_none_right_eq_some.mp h
      cases h
      exact .writeEnd hw hq hg
  | readCancelled =>
      obtain ⟨⟨ha, hr⟩, h⟩ := Option.ite_none_right_eq_some.mp h
      cases h
      exact .readCancelled ha hr
  | spawnWrite | spawnRead | sinkOk | sinkErr | flushed =>
      obtain ⟨hg, h⟩ := Option.ite_none_right_eq_some.mp h
      cases h
      first
        | exact .spawnWrite hg | exact .spawnRead hg | exact .sinkOk hg | exact .sinkErr hg
        | exact .flushed hg

/-- What the read task is pushing. -/
def ReadTask.inHand : ReadTask → List Pushed
  | .pushing m => [m]
  | _ => []

theorem ReadTask.eq_pushing {r : ReadTask} {m : Pushed} (h : m ∈ r.inHand) : r = .pushing m := by
  cases r with
  | pushing m' => rw [List.mem_singleton.mp h]
  | _ => cases h

/-- The read task pushes, and is closed by the end of its socket. -/
theorem Bridge.onConn_reader {listening : Bool} {e : ConnEvent}
    (h : b.onConn listening e = some b') :
    (∃ m, e = .push m ∧ b.reader = .receiving ∧ b'.reader = .pushing m) ∨
      (∃ m, (e = .sent m ∨ e = .gone m ∧ (listening = false ∨ b.aborted = true)) ∧
        b.reader = .pushing m ∧ b'.reader = .receiving) ∨
      (e = .close ∧ b.reader = .receiving ∧ b'.reader = .ended) ∨
      (∀ m, e ≠ .push m ∧ e ≠ .sent m ∧ e ≠ .gone m) ∧ e ≠ .close ∧ b'.reader = b.reader := by
  cases e with
  | push m =>
      obtain ⟨hr, h⟩ := Option.ite_none_right_eq_some.mp h
      cases h
      exact .inl ⟨m, rfl, hr, rfl⟩
  | sent m =>
      obtain ⟨hr, h⟩ := Option.ite_none_right_eq_some.mp h
      cases h
      exact .inr (.inl ⟨m, .inl rfl, hr, rfl⟩)
  | gone m =>
      obtain ⟨⟨hr, hg⟩, h⟩ := Option.ite_none_right_eq_some.mp h
      cases h
      exact .inr (.inl ⟨m, .inr ⟨rfl, hg⟩, hr, rfl⟩)
  | close =>
      obtain ⟨hr, h⟩ := Option.ite_none_right_eq_some.mp h
      cases h
      exact .inr (.inr (.inl ⟨rfl, hr, rfl⟩))
  | panic _ => cases h
  | onMessage | run | pushClosed _ =>
      obtain ⟨-, h⟩ := Option.ite_none_right_eq_some.mp h
      cases h
      exact .inr (.inr (.inr ⟨by simp, by simp, rfl⟩))
  | deliver text =>
      cases Bridge.onConn_deliver h
      refine .inr (.inr (.inr ⟨by simp, by simp, ?_⟩))
      unfold Bridge.receive
      split <;> rfl
  | _ => cases h; exact .inr (.inr (.inr ⟨by simp, by simp, rfl⟩))

/-! ### Where a handler stands -/

/-- `handle_ws` has not spawned its read task. -/
def WsMain.beforeRead : WsMain → Bool
  | .connected | .bridged | .writing => true
  | _ => false

/-- `handle_ws` has come past `connection.run()`. -/
def WsMain.afterRun : WsMain → Bool
  | .flushing | .returned => true
  | _ => false

/-- Where `handle_ws` and its read task stand, and its connection. -/
structure HandlerOk (b : Bridge) (k : Connection) : Prop where
  pushing : k.pushing = b.reader.inHand
  idle : b.reader = .idle ↔ b.main.beforeRead
  ended : b.reader = .ended → k.incomingTx = false ∨ b.aborted = true
  aborted : b.aborted = true → b.main = .returned
  created : k.phase = .created ↔ b.main.beforeRun
  finished : k.phase.listening = false ↔ b.main.afterRun
  drain : k.phase.holdsOutgoing → k.drain ≠ .ended

/-- A step of a connection alone neither ends its `run` nor follows its end. -/
theorem Connection.Step.listening {e : ConnEvent} (h : Connection.Step serde config k e k') :
    k'.phase.listening = k.phase.listening := by
  have hn := h.next
  generalize k.phase = p, k'.phase = p' at hn
  cases hn <;> rfl

theorem Bridge.onConn_created {e : ConnEvent} (h : b.onConn k.phase.listening e = some b')
    (hs : Connection.Step serde config k e k') (hc : k.phase = .created ↔ b.main.beforeRun) :
    k'.phase = .created ↔ b'.main.beforeRun := by
  have hn := hs.next
  rcases Bridge.onConn_main h with ⟨rfl, hm, hm'⟩ | ⟨rfl, hm, hm'⟩ | ⟨⟨-, hrun⟩, hm⟩
  · cases hs with
    | onMessage => simpa [hm, hm', WsMain.beforeRun] using hc
  · cases hs with
    | run _ => simp [hm', WsMain.beforeRun]
  · rw [hm, ← hc]
    generalize k.phase = p, k'.phase = p' at hn
    cases hn with
    | stay _ => exact Iff.rfl
    | run => exact absurd rfl hrun
    | _ => simp

namespace HandlerOk

theorem new : HandlerOk .new .new where
  pushing := rfl
  idle := iff_of_true rfl rfl
  ended h := by cases h
  aborted h := by cases h
  created := iff_of_true rfl rfl
  finished := by simp [Connection.new, Bridge.new, Phase.listening, WsMain.afterRun]
  drain _ := by simp [Connection.new]

theorem conn {e : ConnEvent} (h : HandlerOk b k) (hs : Connection.Step serde config k e k')
    (hn : b.onConn k.phase.listening e = some b') : HandlerOk b' k' := by
  obtain ⟨-, haborted, -⟩ := Bridge.onConn_tasks hn
  have hmain : (b'.main.beforeRead ↔ b.main.beforeRead) ∧
      (b'.main.afterRun ↔ b.main.afterRun) ∧ (b'.main = .returned ↔ b.main = .returned) := by
    rcases Bridge.onConn_main hn with ⟨-, hm, hm'⟩ | ⟨-, hm, hm'⟩ | ⟨-, hm⟩
    · simp [hm, hm', WsMain.beforeRead, WsMain.afterRun]
    · simp [hm, hm', WsMain.beforeRead, WsMain.afterRun]
    · simp [hm]
  obtain ⟨hread, hafter, hreturned⟩ := hmain
  have hphase := hs.next
  have hlisten := hs.listening
  refine ⟨?_, ?_, ?_, fun ha => hreturned.mpr (h.aborted (haborted ▸ ha)),
    Bridge.onConn_created hn hs h.created, by rw [hlisten, h.finished, hafter], fun hh => ?_⟩
  · have hp := h.pushing
    rcases Bridge.onConn_reader hn with ⟨m, rfl, hr, hr'⟩ | ⟨m, rfl | ⟨rfl, -⟩, hr, hr'⟩ |
      ⟨rfl, hr, hr'⟩ | ⟨hno, -, hr'⟩
    · cases hs with
      | push _ _ => rw [hr] at hp; simp [hr', hp, ReadTask.inHand]
    · cases hs with
      | sent _ _ _ => rw [hr] at hp; simp [hr', hp, ReadTask.inHand]
    · cases hs with
      | gone _ => rw [hr] at hp; simp [hr', hp, ReadTask.inHand]
    · cases hs with
      | close => rw [hr] at hp; simpa [hr', ReadTask.inHand] using hp
    · rw [hr', ← hp]
      cases hs with
      | push _ _ => exact absurd rfl (hno _).1
      | sent _ _ _ => exact absurd rfl (hno _).2.1
      | gone _ => exact absurd rfl (hno _).2.2
      | _ => rfl
  · rw [hread, ← h.idle]
    rcases Bridge.onConn_reader hn with ⟨m, -, hr, hr'⟩ | ⟨m, -, hr, hr'⟩ | ⟨-, hr, hr'⟩ |
      ⟨-, -, hr'⟩
    · simp [hr, hr']
    · simp [hr, hr']
    · simp [hr, hr']
    · rw [hr']
  · intro hend
    rcases Bridge.onConn_reader hn with ⟨m, -, -, hr'⟩ | ⟨m, -, -, hr'⟩ | ⟨rfl, -, -⟩ |
      ⟨-, -, hr'⟩
    · rw [hr'] at hend; cases hend
    · rw [hr'] at hend; cases hend
    · cases hs with
      | close => exact .inl rfl
    · rw [haborted]
      refine (h.ended (hr' ▸ hend)).imp_left fun hin => ?_
      cases hs with
      | close => rfl
      | _ => exact hin
  · have hold : k.phase.holdsOutgoing := by
      by_contra hno
      rw [hphase.holdsOutgoing (Bool.eq_false_iff.mpr hno)] at hh
      cases hh
    have hdrain := h.drain hold
    cases hs with
    | run _ => simp
    | panic _ _ => cases hn
    | _ => exact hdrain

theorem bridge {e : BridgeEvent} {gone : Bool} (h : HandlerOk b k)
    (hn : b.next gone e = some b') : HandlerOk b' k := by
  obtain ⟨hpush, hidle, hend, ha, hc, hf, hd⟩ := h
  cases Bridge.next_inv hn with
  | spawnWrite hm =>
      exact ⟨hpush, by simpa [hm, WsMain.beforeRead] using hidle, hend,
        fun hab => (by rw [hm] at ha; cases ha hab), by simpa [hm, WsMain.beforeRun] using hc,
        by simpa [hm, WsMain.afterRun] using hf, hd⟩
  | spawnRead hm =>
      have hr : b.reader = .idle := hidle.mpr (by rw [hm]; rfl)
      exact ⟨by rw [hpush, hr]; rfl, by simp [WsMain.beforeRead], fun he => (by cases he),
        fun hab => (by rw [hm] at ha; cases ha hab), by simpa [hm, WsMain.beforeRun] using hc,
        by simpa [hm, WsMain.afterRun] using hf, hd⟩
  | flushed hm =>
      exact ⟨hpush, by simpa [hm, WsMain.beforeRead] using hidle, fun _ => .inr rfl,
        fun _ => rfl, by simpa [hm, WsMain.beforeRun] using hc,
        by simpa [hm, WsMain.afterRun] using hf, hd⟩
  | readCancelled hab hr =>
      refine ⟨by rw [hpush, hr]; rfl, ?_, fun _ => .inr hab, ha, hc, hf, hd⟩
      rw [hr] at hidle
      simpa using hidle
  | sink _ _ | sinkOk _ | sinkErr _ | writeEnd _ _ _ => exact ⟨hpush, hidle, hend, ha, hc, hf, hd⟩

/-- **Where a handler stands is kept.** -/
theorem move {e : AxumEvent} (h : HandlerOk b k) (hk : a.server.conns c = some k)
    (hm : Bridge.Move serde a c b k e b' k') : HandlerOk b' k' := by
  cases hm with
  | conn hs hn => exact h.conn hs hn
  | bridge hn => exact h.bridge hn
  | other _ => exact h
  | runReturned hrun _ _ =>
      obtain ⟨hpush, hidle, hend, ha, -, -, -⟩ := h
      exact ⟨hpush, by simpa [hrun, WsMain.beforeRead] using hidle, hend,
        fun hab => (by rw [hrun] at ha; cases ha hab), by simp [WsMain.beforeRun],
        by simp [Phase.listening, WsMain.afterRun], fun hh => (by cases hh)⟩
  | server he hr hm =>
      obtain ⟨hpush, hidle, hend, ha, hc, hf, hd⟩ := h
      cases hm with
      | own _ => exact absurd rfl (he _)
      | runReturned _ _ => exact absurd rfl hr
      | register hp | closeReplaced hp _ | respond hp | cleanup hp =>
          rw [hp] at hc hf hd
          exact ⟨hpush, hidle, hend, ha, by simpa using hc, by simpa [Phase.listening] using hf, hd⟩
      | drainEnd _ _ hh =>
          exact ⟨hpush, hidle, hend, ha, hc, hf, fun hp => absurd ⟨k, hk, hp⟩ (hh .run)⟩
      | closed _ => exact ⟨hpush, hidle, fun _ => .inl rfl, ha, hc, hf, hd⟩
      | send _ | other _ => exact ⟨hpush, hidle, hend, ha, hc, hf, hd⟩

end HandlerOk

theorem handlerOk_of_run (h : AxumRun serde config tr a) (hk : a.server.conns c = some k) :
    ∃ b, a.bridges c = some b ∧ HandlerOk b k := by
  rcases bridge_invariant (c := c) (fun _ b k => HandlerOk b k) (fun _ _ => .new)
    (fun _ _ hk h _ hm => h.move hk hm) h with ⟨hno, -⟩ | ⟨b, k', hb, hk', hok⟩
  · rw [hno] at hk; cases hk
  · cases hk.symm.trans hk'
    exact ⟨b, hb, hok⟩

/-! ### What the read task has pushed -/

/-- `handle_ws` does not go back before the end of `connection.run()`. -/
theorem Bridge.Move.afterRun {e : AxumEvent} (hm : Bridge.Move serde a c b k e b' k')
    (h : b.main.afterRun) : b'.main.afterRun := by
  cases hm with
  | conn _ hn =>
      rcases Bridge.onConn_main hn with ⟨-, hm, -⟩ | ⟨-, hm, -⟩ | ⟨-, hm⟩
      · rw [hm] at h; cases h
      · rw [hm] at h; cases h
      · rwa [hm]
  | runReturned _ _ _ => rfl
  | bridge hn =>
      cases Bridge.next_inv hn with
      | spawnWrite hm | spawnRead hm => rw [hm] at h; cases h
      | flushed _ => rfl
      | _ => exact h
  | server _ _ _ | other _ => exact h

/-- Where the texts are that the read task has received. -/
structure PushedOk (c : ConnId) (tr : List AxumEvent) (b : Bridge) (k : Connection) : Prop where
  /-- A message has arrived, or is being pushed, unless `connection.run()` is over. -/
  pushed : ∀ m, .server (.conn c (.push m)) ∈ tr →
    m ∈ arrived c (serverEvents tr) ∨ m ∈ k.pushing ∨ b.main.afterRun
  /-- A text is refused only where the connection is closed. -/
  closed : ∀ text, .server (.conn c (.pushClosed text)) ∈ tr → k.incomingTx = false

namespace PushedOk

/-- An event that pushes nothing, and lets nothing go that was being pushed. -/
theorem quiet {e : AxumEvent} (h : PushedOk c tr b k)
    (hafter : b.main.afterRun → b'.main.afterRun)
    (hpush : ∀ m, e ≠ .server (.conn c (.push m)))
    (hclosed : ∀ text, e ≠ .server (.conn c (.pushClosed text)))
    (hkept : ∀ m ∈ k.pushing, m ∈ k'.pushing)
    (htx : k.incomingTx = false → k'.incomingTx = false) : PushedOk c (tr ++ [e]) b' k' where
  pushed m hmem := by
    rcases List.mem_append.mp hmem with hmem | hmem
    · rcases h.pushed m hmem with harr | hin | hover
      · refine .inl ?_
        rw [arrived, serverEvents, Lts.record_append, Lts.record_append]
        exact List.mem_append_left _ harr
      · exact .inr (.inl (hkept m hin))
      · exact .inr (.inr (hafter hover))
    · exact absurd (List.mem_singleton.mp hmem).symm (hpush m)
  closed text hmem := by
    rcases List.mem_append.mp hmem with hmem | hmem
    · exact htx (h.closed text hmem)
    · exact absurd (List.mem_singleton.mp hmem).symm (hclosed text)

/-- A step of the connection with its read task. -/
theorem conn {ce : ConnEvent} (h : PushedOk c tr b k) (hok : HandlerOk b k)
    (hs : Connection.Step serde config k ce k')
    (hn : b.onConn k.phase.listening ce = some b')
    (hafter : b.main.afterRun → b'.main.afterRun) :
    PushedOk c (tr ++ [AxumEvent.server (.conn c ce)]) b' k' := by
  have hevents : serverEvents (tr ++ [AxumEvent.server (.conn c ce)]) =
      serverEvents tr ++ [.conn c ce] := serverEvents_server tr _
  have harrived : ∀ m ∈ arrived c (serverEvents tr),
      m ∈ arrived c (serverEvents (tr ++ [AxumEvent.server (.conn c ce)])) := fun m harr => by
    rw [hevents, arrived, Lts.record_append]
    exact List.mem_append_left _ harr
  cases hs with
  | push _ _ =>
      refine ⟨fun m hmem => ?_, fun text hmem => ?_⟩
      · rcases List.mem_append.mp hmem with hmem | hmem
        · rcases h.pushed m hmem with harr | hin | hover
          · exact .inl (harrived m harr)
          · exact .inr (.inl (List.mem_append_left _ hin))
          · exact .inr (.inr (hafter hover))
        · cases List.mem_singleton.mp hmem
          exact .inr (.inl List.mem_concat_self)
      · rcases List.mem_append.mp hmem with hmem | hmem
        · exact h.closed text hmem
        · cases List.mem_singleton.mp hmem
  | pushClosed ho =>
      refine ⟨fun m hmem => ?_, fun text hmem => ?_⟩
      · rcases List.mem_append.mp hmem with hmem | hmem
        · rcases h.pushed m hmem with harr | hin | hover
          · exact .inl (harrived m harr)
          · exact .inr (.inl hin)
          · exact .inr (.inr (hafter hover))
        · cases List.mem_singleton.mp hmem
      · exact ho
  | @sent m' _ _ _ =>
      refine ⟨fun m hmem => ?_, fun text hmem => ?_⟩
      · rcases List.mem_append.mp hmem with hmem | hmem
        · rcases h.pushed m hmem with harr | hin | hover
          · exact .inl (harrived m harr)
          · by_cases heq : m = m'
            · subst heq
              have hnew : arrived c (serverEvents tr ++ [.conn c (.sent m)]) =
                  arrived c (serverEvents tr) ++ [m] := Lts.record_snoc_of_some (if_pos rfl)
              rw [hevents, hnew]
              exact .inl List.mem_concat_self
            · exact .inr (.inl ((List.mem_erase_of_ne heq).mpr hin))
          · exact .inr (.inr (hafter hover))
        · cases List.mem_singleton.mp hmem
      · rcases List.mem_append.mp hmem with hmem | hmem
        · exact h.closed text hmem
        · cases List.mem_singleton.mp hmem
  | gone _ =>
      -- the channel is given up only when `connection.run()` is over
      obtain ⟨⟨-, hover⟩, -⟩ := Option.ite_none_right_eq_some.mp hn
      have hended : b.main.afterRun := by
        rcases hover with hlisten | habort
        · exact hok.finished.mp hlisten
        · rw [hok.aborted habort]; rfl
      refine ⟨fun _ _ => .inr (.inr (hafter hended)), fun text hmem => ?_⟩
      rcases List.mem_append.mp hmem with hmem | hmem
      · exact h.closed text hmem
      · cases List.mem_singleton.mp hmem
  | close => exact h.quiet hafter (by simp) (by simp) (fun _ hm => hm) fun _ => rfl
  | _ => exact h.quiet hafter (by simp) (by simp) (fun _ hm => hm) id

theorem new (hno : ∀ e ∈ serverEvents tr, ¬ e.ConcernsConn c) :
    PushedOk c (tr ++ [AxumEvent.server (.create c)]) .new .new := by
  have absent : ∀ ce, AxumEvent.server (.conn c ce) ∉ tr ++ [AxumEvent.server (.create c)] := by
    intro ce hmem
    rcases List.mem_append.mp hmem with hmem | hmem
    · exact hno _ (mem_serverEvents.mpr hmem) rfl
    · cases List.mem_singleton.mp hmem
  exact ⟨fun m hmem => absurd hmem (absent _), fun text hmem => absurd hmem (absent _)⟩

theorem move {e : AxumEvent} (h : PushedOk c tr b k) (hok : HandlerOk b k)
    (hm : Bridge.Move serde a c b k e b' k') : PushedOk c (tr ++ [e]) b' k' := by
  have hafter := hm.afterRun
  cases hm with
  | conn hs hn => exact h.conn hok hs hn hafter
  | runReturned _ _ _ | bridge _ | other _ =>
      exact h.quiet hafter (by simp) (by simp) (fun _ hm => hm) id
  | server he _ hm =>
      refine h.quiet hafter (fun m h => he _ (AxumEvent.server.inj h))
        (fun text h => he _ (AxumEvent.server.inj h)) (fun m hmem => ?_) fun htx => ?_
      · cases hm <;> first | exact hmem | exact absurd rfl (he _)
      · cases hm <;> first | exact htx | rfl | exact absurd rfl (he _)

end PushedOk

theorem pushedOk_of_run (h : AxumRun serde config tr a) (hb : a.bridges c = some b)
    (hk : a.server.conns c = some k) : PushedOk c tr b k := by
  rcases bridge_invariant (c := c) (PushedOk c) (fun hno _ => .new hno)
    (fun hr hb hk ih _ hm => by
      obtain ⟨b₁, hb₁, hok⟩ := handlerOk_of_run hr hk
      cases hb.symm.trans hb₁
      exact ih.move hok hm) h with ⟨hno, -⟩ | ⟨b', k', hb', hk', hok⟩
  · rw [hk] at hno; cases hno
  · cases hb.symm.trans hb'
    cases hk.symm.trans hk'
    exact hok

/-! ### Rest -/

/-- `handle_ws` or its read task goes on with its connection. -/
def ConnEvent.ofHandler : ConnEvent → Bool
  | .onMessage | .run | .gone _ => true
  | _ => false

/-- A step the bridge takes by itself; a send fails by the network. -/
def BridgeEvent.own : BridgeEvent → Bool
  | .sinkErr => false
  | _ => true

/-- A step the server or a handler takes by itself, where the read task receives nothing. -/
def AxumEvent.own : AxumEvent → Bool
  | .server (.conn c e) => (Event.conn c e).own || e.ofHandler
  | .server e => e.own
  | .bridge _ e => e.own

/-- Neither the server nor a handler can take a step. -/
abbrev Axum.Rests (serde : SerdeJson) (a : Axum) : Prop :=
  Lts.Rests (AxumStep serde) (fun e => AxumEvent.own e) a

/-- `handle_ws` is over and its tasks with it; or its connection is open, it is reading, and
nothing is left to be written, or can be. -/
inductive Bridge.AtRest (c : ConnId) (tr : List AxumEvent) (b : Bridge) (k : Connection) :
    Prop where
  | returned {s : Option String} (hp : k.phase = .done s) (hm : b.main = .returned)
      (hw : b.writer = .ended) (hr : b.reader = .ended)
  | reading (hp : k.phase = .auth ∨ ∃ s, k.phase = .relay s) (hopen : k.incomingTx = true)
      (hin : k.incoming = []) (hout : k.outgoing = []) (hm : b.main = .running)
      (hr : b.reader = .receiving)
      (hw : b.writer = .receiving ∧ b.queue = [] ∨ b.writer = .ended ∧ SinkFailed c tr)

/-- The handler of a connection in its relay loop is not over. -/
theorem Bridge.AtRest.not_returned {service : String} (h : b.AtRest c tr k)
    (hrelay : k.phase = .relay service) : b.main ≠ .returned := by
  cases h with
  | returned hp _ _ _ => rw [hrelay] at hp; cases hp
  | reading _ _ _ _ hm _ _ => rw [hm]; simp

namespace Axum.Rests

/-- A bridge at rest takes no step of its own. -/
theorem no_bridge (hr : a.Rests serde) (hb : a.bridges c = some b) {e : BridgeEvent}
    (hn : b.next (a.callbackGone c) e = some b') : e.own = false :=
  Bool.eq_false_iff.mpr (hr _ _ (.bridge hb hn))

/-- Nor with its connection. -/
theorem no_conn (hr : a.Rests serde) (hb : a.bridges c = some b)
    (hk : a.server.conns c = some k) {e : ConnEvent}
    (hs : Connection.Step serde a.server.state.config k e k')
    (hn : b.onConn k.phase.listening e = some b') : (AxumEvent.server (.conn c e)).own = false :=
  Bool.eq_false_iff.mpr (hr _ _ (.conn (.conn hk hs) hk hb hn))

/-- The server is at rest. -/
theorem server (hr : a.Rests serde) (h : AxumRun serde config tr a) : a.server.Rests serde := by
  intro e w' hs he
  cases e with
  | create _ | request _ _ | cancel _ => cases he
  | conn c e =>
      obtain ⟨k, k', hk, hstep, -⟩ := hs.conn_inv
      obtain ⟨b, hb, hok⟩ := handlerOk_of_run h hk
      have step : ∀ {b'}, b.onConn k.phase.listening e = some b' → False := fun hn => by
        have hno := hr.no_conn hb hk hstep hn
        rw [AxumEvent.own, he] at hno
        cases hno
      cases e with
      | onMessage | push _ | pushClosed _ | gone _ | close | run | panic _ => cases he
      | sent m =>
          cases hstep with
          | sent hm _ _ =>
              exact step (if_pos (ReadTask.eq_pushing (hok.pushing ▸ hm)))
      | _ => exact step rfl
  | runReturned c =>
      obtain ⟨k, hk⟩ : ∃ k, a.server.conns c = some k := by
        cases hs with | runReturned hk _ _ => exact ⟨_, hk⟩
      obtain ⟨b, hb, hok⟩ := handlerOk_of_run h hk
      have hm : b.main = .running := by
        obtain ⟨s, hp⟩ : ∃ s, k.phase = .joining s := by
          cases hs with | runReturned hk' hp _ => cases hk.symm.trans hk'; exact ⟨_, hp⟩
        have hcreated := hok.created
        have hover := hok.finished
        rw [hp] at hcreated hover
        cases hmain : b.main with
        | running => rfl
        | flushing | returned => rw [hmain] at hover; cases hover.mpr rfl
        | _ => rw [hmain] at hcreated; cases hcreated.mpr rfl
      exact hr _ _ (.runReturned hs hb hm) he
  | _ => exact hr _ _ (.server rfl hs) he

/-- `handle_ws` has come to `connection.run()`. -/
theorem not_created (hr : a.Rests serde) (hb : a.bridges c = some b)
    (hk : a.server.conns c = some k) (hok : HandlerOk b k) : k.phase ≠ .created := by
  intro hp
  have hm := hok.created.mp hp
  cases hmain : b.main with
  | connected => cases hr.no_conn hb hk .onMessage (if_pos hmain)
  | bridged => cases hr.no_bridge hb (e := .spawnWrite) (if_pos hmain)
  | writing => cases hr.no_bridge hb (e := .spawnRead) (if_pos hmain)
  | ready => cases hr.no_conn hb hk (.run hp) (if_pos hmain)
  | _ => rw [hmain] at hm; cases hm

/-- The write task is over, or its queue is empty and the callback there. -/
theorem writer (hr : a.Rests serde) (hb : a.bridges c = some b) (hw : b.writer ≠ .idle) :
    b.writer = .ended ∨ b.writer = .receiving ∧ b.queue = [] ∧ a.callbackGone c = false := by
  cases hwriter : b.writer with
  | idle => exact absurd hwriter hw
  | ended => exact .inl rfl
  | sending => cases hr.no_bridge hb (e := .sinkOk) (if_pos hwriter)
  | receiving =>
      cases hq : b.queue with
      | cons text rest =>
          have hn : b.next (a.callbackGone c) (.sink text) =
              some { b with writer := .sending, queue := rest } := by
            simp [Bridge.next, hwriter, hq]
          cases hr.no_bridge hb hn
      | nil =>
          refine .inr ⟨rfl, rfl, Bool.eq_false_iff.mpr fun hg => ?_⟩
          cases hr.no_bridge hb (e := .writeEnd) (if_pos ⟨hwriter, hq, hg⟩)

/-- A read task that is aborted is over. -/
theorem reader_aborted (hr : a.Rests serde) (hb : a.bridges c = some b)
    (hk : a.server.conns c = some k) (hok : HandlerOk b k) (ha : b.aborted = true) :
    b.reader = .ended := by
  cases hreader : b.reader with
  | idle =>
      have hm := hok.idle.mp hreader
      rw [hok.aborted ha] at hm
      cases hm
  | receiving => cases hr.no_bridge hb (e := .readCancelled) (if_pos ⟨ha, hreader⟩)
  | pushing m =>
      have hm : m ∈ k.pushing := by simp [hok.pushing, hreader, ReadTask.inHand]
      cases hr.no_conn hb hk (.gone hm) (if_pos ⟨hreader, .inr ha⟩)
  | ended => rfl

end Axum.Rests

/-- **A handler is never stuck**: it is over with its tasks, or its connection is open, all that
was read is received, and all that was enqueued is written unless its socket has failed. -/
theorem bridge_at_rest (h : AxumRun serde config tr a) (hr : a.Rests serde)
    (hk : a.server.conns c = some k) : ∃ b, a.bridges c = some b ∧ b.AtRest c tr k := by
  obtain ⟨b, hb, hok⟩ := handlerOk_of_run h hk
  obtain ⟨k₁, hk₁, htask⟩ := taskOk_of_run h hb
  cases hk.symm.trans hk₁
  obtain ⟨b₁, hb₁, hbridge⟩ := bridgeOk_of_run h hk
  cases hb.symm.trans hb₁
  have hcreated := hr.not_created hb hk hok
  have hidle : b.writer ≠ .idle := fun hw =>
    hcreated (hok.created.mpr (by rcases htask.spawned hw with hm | hm <;> rw [hm] <;> rfl))
  have hwriter := hr.writer hb hidle
  refine ⟨b, hb, ?_⟩
  cases ((hr.server h).atRest (serverRun h)).conn hk with
  | created hp => exact absurd hp hcreated
  | @done service hp =>
      have hafter := hok.finished.mp (by rw [hp]; rfl)
      have hreturned : b.main = .returned := by
        cases hmain : b.main with
        | flushing => cases hr.no_bridge hb (e := .flushed) (if_pos hmain)
        | returned => rfl
        | _ => rw [hmain] at hafter; cases hafter
      refine .returned hp hreturned ?_ (hr.reader_aborted hb hk hok (htask.aborted hreturned))
      rcases hwriter with hw | ⟨-, -, hg⟩
      · exact hw
      · -- the drain task is over, and the callback with it
        rw [Axum.callbackGone, hk, Option.any_some, htask.drained (.inr hreturned)] at hg
        cases hg
  | waiting hp hopen hin hpush hout =>
      have hlisten : k.phase.listening ∧ k.phase.holdsOutgoing := by
        rcases hp with hp | ⟨s, hp⟩ <;> rw [hp] <;> exact ⟨rfl, rfl⟩
      have hmain : b.main = .running := by
        cases hm : b.main with
        | running => rfl
        | flushing | returned =>
            have hno := hok.finished.mpr (by rw [hm]; rfl)
            rw [hlisten.1] at hno
            cases hno
        | _ => exact absurd (hok.created.mpr (by rw [hm]; rfl)) hcreated
      refine .reading hp hopen hin hout hmain ?_ ?_
      · cases hreader : b.reader with
        | idle =>
            have hm := hok.idle.mp hreader
            rw [hmain] at hm
            cases hm
        | receiving => rfl
        | pushing m =>
            have hinHand := hok.pushing
            rw [hpush, hreader] at hinHand
            cases hinHand
        | ended =>
            rcases hok.ended hreader with hclosed | ha
            · rw [hopen] at hclosed; cases hclosed
            · have hm := hok.aborted ha
              rw [hmain] at hm
              cases hm
      · rcases hwriter with hw | ⟨hw, hq, -⟩
        · refine .inr ⟨hw, ((hbridge.written.ended hw).2.resolve_right ?_)⟩
          rintro ⟨-, -, hdrain⟩
          exact hok.drain hlisten.2 hdrain
        · exact .inl ⟨hw, hq⟩

end Outpunch
