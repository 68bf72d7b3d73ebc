import Outpunch.Server.Queues
import Outpunch.Server.Work

/-!
# Server — a server left alone

A server is at rest when none of its tasks can take a step, no timer fires and nobody calls it.
No task is ever stuck on another: what is still there then waits for a call, a message or a timer
(`World.AtRest`, `atRest_of_rests`).  A connection whose `run` has begun has returned, or waits
for a message while its adapter may still push one; a dispatch has returned, or waits for a
response that a connection in its relay loop may still be sent.

A server left alone always comes to rest (`comes_to_rest`), and where the timers fire as well
nothing but open connections is left (`timers_leave_nothing`).
-/

namespace Outpunch

variable {serde : SerdeJson} {config : ServerConfig} {tr : List Event} {w : World}

/-- A timer fires. -/
def Event.timer : Event → Bool
  | .conn _ .authTimeout | .fail _ .timeout => true
  | _ => false

/-- A step a task takes by itself. -/
def Event.own (e : Event) : Bool := e.ofTask && !e.timer

/-! ### What is left -/

/-- `run` of the connection was not called, has returned, or waits for a message with nothing
left to do; the last only as long as the connection is open. -/
inductive Connection.AtRest (k : Connection) : Prop where
  | created (hp : k.phase = .created)
  | done {service : Option String} (hp : k.phase = .done service)
  | waiting (hp : k.phase = .auth ∨ ∃ service, k.phase = .relay service)
      (hopen : k.incomingTx = true) (hin : k.incoming = []) (hpush : k.pushing = [])
      (hout : k.outgoing = [])

/-- What is left of a server whose tasks are all done or waiting. -/
structure World.AtRest (w : World) : Prop where
  conn : ∀ {c k}, w.conns c = some k → k.AtRest
  dispatch : ∀ {q d}, w.dispatches q = some d → d.phase.running → ∃ c k,
    d.phase = .waiting c ∧ d.resp = none ∧ w.state.pending q = some { connId := c, tx := q } ∧
      w.conns c = some k ∧ k.phase = .relay d.req.service

/-- No task can take a step. -/
abbrev World.Rests (serde : SerdeJson) (w : World) : Prop :=
  Lts.Rests (Step serde) (fun e => e.own) w

namespace World.Rests

/-- A connection at rest takes no step of its own. -/
theorem no_step (hr : w.Rests serde) {c : ConnId} {k k' : Connection} {e : ConnEvent}
    (hk : w.conns c = some k) (he : (Event.conn c e).own) :
    ¬ Connection.Step serde w.state.config k e k' :=
  fun hs => hr _ _ (.conn hk hs) he

/-- The drain task keeps up. -/
theorem outgoing (hr : w.Rests serde) (h : ServerRun serde config tr w) {c : ConnId}
    {k : Connection} (hk : w.conns c = some k) (hp : k.phase ≠ .created) : k.outgoing = [] := by
  have hq := queueInv_of_run h hk
  cases hd : k.drain with
  | idle => exact absurd ((drain_idle_iff h hk).mp hd) hp
  | ended =>
      rw [hd] at hq
      exact hq.1
  | running callback =>
      cases ho : k.outgoing with
      | nil => rfl
      | cons text rest =>
          cases callback with
          | true => exact absurd (.deliver hd ho) (hr.no_step hk rfl)
          | false => exact absurd (.discard hd ho) (hr.no_step hk rfl)

/-- A sender finds room, or no receiver. -/
theorem canSend_or_ended (hr : w.Rests serde) (h : ServerRun serde config tr w) {c : ConnId}
    {k : Connection} (hk : w.conns c = some k) (hp : k.phase ≠ .created) :
    k.canSend ∨ k.drain = .ended := by
  by_cases hd : k.drain = .ended
  · exact .inr hd
  · refine .inl ⟨?_, hd⟩
    rw [hr.outgoing h hk hp]
    exact Nat.zero_lt_succ _

/-- A connection that serves is in its relay loop. -/
theorem relay_of_serving (hr : w.Rests serde) {c : ConnId} {k : Connection} {s : String}
    (hk : w.conns c = some k) (hs : k.phase.serving = some s) : k.phase = .relay s := by
  cases hp : k.phase with
  | relay s' =>
      rw [hp] at hs
      cases hs
      rfl
  | registered _ _ => exact absurd (.upgrade hp) (hr.no_step hk rfl)
  | closing _ _ => exact absurd rfl (hr _ _ (.closeReplaced hk hp))
  | respond _ _ _ => exact absurd rfl (hr _ _ (.respond hk hp))
  | cleanup _ => exact absurd rfl (hr _ _ (.cleanup hk hp))
  | _ => rw [hp] at hs; cases hs

/-- A dispatch that runs waits for its response. -/
theorem dispatch (hr : w.Rests serde) (h : ServerRun serde config tr w) {q : RequestId}
    {d : Dispatch} (hd : w.dispatches q = some d) (hrun : d.phase.running) :
    ∃ c k, d.phase = .waiting c ∧ d.resp = none ∧
      w.state.pending q = some { connId := c, tx := q } ∧ w.conns c = some k ∧
      k.phase = .relay d.req.service := by
  have hw := wf_of_run h
  -- the connection it holds a sender of
  have sender : ∀ {tx}, d.phase.outgoingTx = some tx → ∃ k, w.conns tx = some k ∧
      k.phase ≠ .created := fun htx => by
    obtain ⟨k, hk, hreg⟩ := World.observe_eq_some ((hw.dispatch hd).sender _ htx)
    exact ⟨k, hk, fun hp => by rw [hp] at hreg; cases hreg⟩
  cases hp : d.phase with
  | locking =>
      cases hs : w.state.park d.req.service d.req.requestId q with
      | none => exact absurd rfl (hr _ _ (.notConnected hd hp hs))
      | some p => exact absurd rfl (hr _ _ (.assign hd hp hs))
  | sending tx =>
      obtain ⟨k, hk, hnew⟩ := sender (by rw [hp]; rfl)
      rcases hr.canSend_or_ended h hk hnew with hs | hend
      · exact absurd rfl (hr _ _ (.send hd hp hk hs))
      · exact absurd rfl (hr _ _ (.connectionLost hd hp hk hend))
  | failed tx err => exact absurd rfl (hr _ _ (.failed hd hp))
  | returned _ | cancelled => rw [hp] at hrun; cases hrun
  | waiting tx =>
      cases hresp : d.resp with
      | some r => exact absurd rfl (hr _ _ (.answered hd hp hresp))
      | none =>
          by_cases hpark : w.SenderParked q
          · obtain ⟨id, p, hpend, rfl⟩ := hpark
            obtain ⟨rfl, d', hd', -, hph, hserv⟩ := hw.pending hpend
            cases hd.symm.trans hd'
            rw [hp] at hph
            cases hph.resolve_right (by simp)
            obtain ⟨k, hk, hs⟩ := World.observe_eq_some hserv
            exact ⟨_, k, rfl, rfl, hpend, hk, hr.relay_of_serving hk hs⟩
          · exact absurd rfl (hr _ _ (.disconnected hd hp hresp hpark))

/-- Nobody holds a sender of a connection that has dropped its own and been cleaned up. -/
theorem not_holds (hr : w.Rests serde) (h : ServerRun serde config tr w) {c : ConnId}
    {k : Connection} (hk : w.conns c = some k) (hrun : k.phase.holdsOutgoing = false)
    (hserv : k.phase.serving = none) (g : Holder) : ¬ w.Holds c g := by
  have hw := wf_of_run h
  have hno : ∀ {s}, w.serving c ≠ some s := fun hs => by
    obtain ⟨k', hk', hs'⟩ := World.observe_eq_some hs
    cases hk.symm.trans hk'
    rw [hserv] at hs'; cases hs'
  cases g with
  | run =>
      rintro ⟨k', hk', hh⟩
      cases hk.symm.trans hk'
      rw [hrun] at hh; cases hh
  | registry s =>
      rintro ⟨g, hg, rfl⟩
      obtain ⟨⟨hone, -⟩, hs⟩ := hw.service hg
      exact hno (hone ▸ hs)
  | dispatch q =>
      rintro ⟨d, hd, htx⟩
      have hdrun : d.phase.running := by
        cases hp : d.phase <;> rw [hp] at htx <;> first | rfl | cases htx
      obtain ⟨c', k', hp, -, -, hk', hrelay⟩ := hr.dispatch h hd hdrun
      rw [hp] at htx
      cases htx
      exact hno (World.observe_eq _ hk' |>.trans (by rw [hrelay]; rfl))
  | replacing c' =>
      rintro ⟨k', s, g, hk', hp, -⟩
      exact hr.no_step hk' rfl (.upgrade hp)

/-- A connection whose `run` waits for a message is open and has nothing left to do. -/
theorem waiting (hr : w.Rests serde) (h : ServerRun serde config tr w) {c : ConnId}
    {k : Connection} (hk : w.conns c = some k)
    (hp : k.phase = .auth ∨ ∃ service, k.phase = .relay service) : k.AtRest := by
  have hlisten : k.phase.listening := by
    rcases hp with hp | ⟨s, hp⟩ <;> rw [hp] <;> rfl
  have hnew : k.phase ≠ .created := by
    rcases hp with hp | ⟨s, hp⟩ <;> rw [hp] <;> simp
  have hin : k.incoming = [] := by
    cases hi : k.incoming with
    | nil => rfl
    | cons m rest =>
        rcases hp with hp | ⟨s, hp⟩
        · exact absurd (.authRecv hp hi) (hr.no_step hk rfl)
        · exact absurd (.relayRecv hp hi) (hr.no_step hk rfl)
  have hpush : k.pushing = [] := by
    cases hm : k.pushing with
    | nil => rfl
    | cons m rest =>
        have hroom : k.incoming.length < channelCapacity := by
          rw [hin]
          exact Nat.zero_lt_succ _
        exact absurd (.sent (hm ▸ List.mem_cons_self) hlisten hroom) (hr.no_step hk rfl)
  refine .waiting hp ?_ hin hpush (hr.outgoing h hk hnew)
  by_contra hclosed
  have hend : k.incomingEnded := ⟨hin, hpush, Bool.eq_false_iff.mpr hclosed⟩
  rcases hp with hp | ⟨s, hp⟩
  · exact hr.no_step hk rfl (.authClosed hp hend)
  · exact hr.no_step hk rfl (.relayClosed hp hend)

/-- `run` is not stuck. -/
theorem conn (hr : w.Rests serde) (h : ServerRun serde config tr w) {c : ConnId}
    {k : Connection} (hk : w.conns c = some k) : k.AtRest := by
  cases hp : k.phase with
  | created => exact .created hp
  | done service => exact .done hp
  | auth => exact hr.waiting h hk (.inl hp)
  | relay s => exact hr.waiting h hk (.inr ⟨s, hp⟩)
  | check msg => exact absurd (.check hp) (hr.no_step hk rfl)
  | reply text service =>
      rcases hr.canSend_or_ended h hk (by rw [hp]; simp) with hs | hend
      · exact absurd (.reply hp hs) (hr.no_step hk rfl)
      · exact absurd (.replyLost hp hend) (hr.no_step hk rfl)
  | register s => exact absurd rfl (hr _ _ (.register hk hp))
  | registered _ _ | closing _ _ | respond _ _ _ | cleanup _ =>
      have hrelay := hr.relay_of_serving hk (by rw [hp]; rfl)
      rw [hp] at hrelay; cases hrelay
  | leaving service => exact absurd (.dropOutgoing hp) (hr.no_step hk rfl)
  | joining service =>
      have hnew : k.phase ≠ .created := by rw [hp]; simp
      cases hd : k.drain with
      | idle => exact absurd ((drain_idle_iff h hk).mp hd) hnew
      | ended => exact absurd rfl (hr _ _ (.runReturned hk hp hd))
      | running callback =>
          have hhold := hr.not_holds h hk (by rw [hp]; rfl) (by rw [hp]; rfl)
          exact absurd rfl (hr _ _ (.drainEnd hk hd (hr.outgoing h hk hnew) hhold))

theorem atRest (hr : w.Rests serde) (h : ServerRun serde config tr w) : w.AtRest where
  conn := hr.conn h
  dispatch := hr.dispatch h

end World.Rests

/-! ### Coming to rest -/

/-- A step of a task lowers the rank. -/
theorem rank_snoc_lt (h : ServerRun serde config tr w) {e : Event} {w' : World}
    (hs : Step serde w e w') (he : e.ofTask) : w'.rank (tr ++ [e]) < w.rank tr := by
  have hle := rank_snoc_le h hs
  have hnone : e.brings = 0 := by
    cases e with
    | conn c e => cases e <;> first | rfl | cases he
    | create _ | request _ _ => cases he
    | _ => rfl
  rw [if_pos he, hnone] at hle
  exact hle

theorem Event.ofTask_of_own {e : Event} (he : e.own) : e.ofTask :=
  ((Bool.and_eq_true ..).mp he).1

/-- From every state the tasks come to rest. -/
theorem exists_rest (h : ServerRun serde config tr w) :
    ∃ tr' w', Lts.Run (Step serde) w tr' w' ∧ (∀ e ∈ tr', e.own) ∧ w'.Rests serde :=
  h.exists_rest (fun e => Event.own e) (fun tr w => w.rank tr) fun hr hs he =>
    rank_snoc_lt hr hs (Event.ofTask_of_own he)

/-- **A server left alone comes to rest**: what its tasks can still do is bounded, and whenever
they can do no more nothing in it is stuck. -/
theorem comes_to_rest (h : ServerRun serde config tr w) :
    (∀ tr' w', Lts.Run (Step serde) w tr' w' → (∀ e ∈ tr', e.own) →
      tr'.length ≤ w.rank tr ∧ (w'.Rests serde → w'.AtRest)) ∧
    ∃ tr' w', Lts.Run (Step serde) w tr' w' ∧ (∀ e ∈ tr', e.own) ∧ w'.Rests serde := by
  refine ⟨fun tr' w' h' hown => ⟨?_, fun hr => hr.atRest (h.append h')⟩, exists_rest h⟩
  exact (Nat.le_add_left ..).trans (h.length_le_rank (fun e => Event.own e)
    (fun tr w => w.rank tr) (fun hr hs he => rank_snoc_lt hr hs (Event.ofTask_of_own he)) h' hown)

/-- A server whose client has answered and stays connected. -/
theorem comes_to_rest_session : ∃ w, ServerRun compactJson demoConfig (demoSession "q") w ∧
    ∃ tr' w', Lts.Run (Step compactJson) w tr' w' ∧ (∀ e ∈ tr', e.own) ∧
      w'.Rests compactJson := by
  obtain ⟨w, h⟩ := @exists_run compactJson demoConfig (demoSession "q") (by decide +kernel)
  exact ⟨w, h, (comes_to_rest h).2⟩

/-- **Where the timers fire, nothing is left but open connections**: every dispatch is over, and
every connection was not run, has returned, or relays for a client that is still there. -/
theorem timers_leave_nothing (h : ServerRun serde config tr w) :
    ∃ tr' w', Lts.Run (Step serde) w tr' w' ∧ (∀ e ∈ tr', e.ofTask) ∧
      (∀ q d, w'.dispatches q = some d → ¬ d.phase.running) ∧
      ∀ c k, w'.conns c = some k → k.phase = .created ∨ (∃ service, k.phase = .done service) ∨
        ∃ service, k.phase = .relay service ∧ k.incomingTx = true := by
  obtain ⟨tr', w', h', htask, hr⟩ := h.exists_rest (fun e => Event.ofTask e)
    (fun tr w => w.rank tr) fun hr hs he => rank_snoc_lt hr hs he
  have hrest : w'.Rests serde := fun e w'' hs he => hr e w'' hs (Event.ofTask_of_own he)
  have hat := hrest.atRest (h.append h')
  refine ⟨tr', w', h', htask, fun q d hd hrun => ?_, fun c k hk => ?_⟩
  · obtain ⟨c, k, hp, -⟩ := hat.dispatch hd hrun
    exact hr _ _ (.timeout hd (.inr hp)) rfl
  · cases hat.conn hk with
    | created hp => exact .inl hp
    | done hp => exact .inr (.inl ⟨_, hp⟩)
    | waiting hp hopen _ _ _ =>
        rcases hp with hp | ⟨s, hp⟩
        · exact absurd rfl (hr _ _ (.conn hk (.authTimeout hp)))
        · exact .inr (.inr ⟨s, hp, hopen⟩)

/-- A session cut off after its request was handed over. -/
theorem timers_leave_nothing_session : ∃ w,
    ServerRun compactJson demoConfig ((demoSession "q").take 13) w ∧
    ∃ tr' w', Lts.Run (Step compactJson) w tr' w' ∧ (∀ e ∈ tr', e.ofTask) ∧
      ∀ q d, w'.dispatches q = some d → ¬ d.phase.running := by
  obtain ⟨w, h⟩ :=
    @exists_run compactJson demoConfig ((demoSession "q").take 13) (by decide +kernel)
  obtain ⟨tr', w', h', htask, hd, -⟩ := timers_leave_nothing h
  exact ⟨w, h, tr', w', h', htask, hd⟩

end Outpunch
