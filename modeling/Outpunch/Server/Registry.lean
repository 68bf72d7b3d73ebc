import Outpunch.Server.Exec
import Outpunch.Server.History

/-!
# Server — the newest connection wins

`services` is a function of the history: each service maps to the connection that registered for
it last, until that one is cleaned up (`services_eq`).  The connections it displaced are closed:
from its insert on, the newcomer holds the old handle until it has taken the old connection's
incoming sender (`Displacing`), and a connection without its sender takes no new message, so its
relay loop comes to its end.
-/

namespace Outpunch

variable {serde : SerdeJson} {config : ServerConfig} {tr : List Event} {w : World}

/-! ### The registry as the history has it -/

def Event.registers (s : String) : Event → Option ConnId
  | .register c s' => if s' = s then some c else none
  | _ => none

/-- The connection that most recently registered for `s`. -/
def lastRegistered (s : String) (tr : List Event) : Option ConnId :=
  (Lts.record (Event.registers s) tr).getLast?

/-- The handle `run` of `c` inserts. -/
def handleOf (c : ConnId) : ServiceHandle where
  connId := c
  outgoingTx := c
  connection := c

theorem lastRegistered_snoc (s : String) (e : Event) :
    lastRegistered s (tr ++ [e]) = (e.registers s).or (lastRegistered s tr) := by
  rw [lastRegistered, Lts.record_snoc]
  cases h : e.registers s <;> simp [lastRegistered]

theorem Event.registers_eq_some {s : String} {e : Event} {c : ConnId} :
    e.registers s = some c ↔ e = .register c s := by
  cases e with
  | register c' s' => simp [Event.registers, and_comm]
  | _ => simp [Event.registers]

/-- `c` had registered for `s` when another registration for `s` came. -/
def Displaced (c : ConnId) (s : String) (tr : List Event) : Prop :=
  ∃ tr₁ tr₂ c', tr = tr₁ ++ Event.register c' s :: tr₂ ∧ .register c s ∈ tr₁

/-- What has registered is the newest, or was displaced. -/
theorem newest_or_displaced {c : ConnId} {s : String} (h : .register c s ∈ tr) :
    lastRegistered s tr = some c ∨ Displaced c s tr := by
  induction tr using List.reverseRecOn with
  | nil => cases h
  | append_singleton tr e ih =>
      rw [lastRegistered_snoc]
      rcases List.mem_append.mp h with hold | hnew
      · cases he : e.registers s with
        | some c' =>
            cases Event.registers_eq_some.mp he
            exact .inr ⟨tr, [], c', rfl, hold⟩
        | none =>
            refine (ih hold).imp id ?_
            rintro ⟨tr₁, tr₂, c', rfl, hreg⟩
            exact ⟨tr₁, tr₂ ++ [e], c', by simp, hreg⟩
      · rw [← List.mem_singleton.mp hnew, Event.registers, if_pos rfl]
        exact .inl rfl

/-- **The newest connection wins.**  The service is that of the connection that registered for it
last, until that one is cleaned up. -/
theorem services_eq (h : ServerRun serde config tr w) (s : String) :
    w.state.services s =
      (lastRegistered s tr).bind fun c =>
        if .cleanup c s ∈ tr then none else some (handleOf c) := by
  refine h.invariant (fun tr w => w.state.services s = (lastRegistered s tr).bind fun c =>
    if .cleanup c s ∈ tr then none else some (handleOf c)) rfl fun {tr w e w'} hr ih hs => ?_
  rw [hs.services, lastRegistered_snoc]
  -- an event that neither registers for `s` nor cleans `s` up
  have same : e.registers s = none → (∀ c, e ≠ .cleanup c s) →
      w.state.services s = ((e.registers s).or (lastRegistered s tr)).bind fun c =>
        if .cleanup c s ∈ tr ++ [e] then none else some (handleOf c) := by
    intro he hne
    rw [ih, he, Option.none_or]
    congr 1
    funext c
    simp [Ne.symm (hne c)]
  cases e with
  | register c s' =>
      by_cases hss : s' = s
      · subst hss
        have hnot : Event.cleanup c s' ∉ tr ++ [Event.register c s'] := by
          intro hmem
          have hmem : Event.cleanup c s' ∈ tr := by simpa using hmem
          have hreg := (registeredFor_iff hr).mpr (register_of_cleanup hr hmem)
          rw [hs.registeredFor_of_register] at hreg; cases hreg
        rw [Event.registers, if_pos rfl, Option.some_or, Option.bind_some, if_neg hnot]
        exact PartialMap.insert_same ..
      · rw [← same (by rw [Event.registers, if_neg hss]) (by simp)]
        exact PartialMap.insert_other (Ne.symm hss)
  | cleanup c s' =>
      by_cases hss : s = s'
      · subst hss
        rw [show (Event.cleanup c s).registers s = none from rfl, Option.none_or]
        cases hl : lastRegistered s tr with
        | none =>
            rw [hl] at ih
            exact (ServerState.cleanup_services_of_ne fun g hg => by rw [ih] at hg; cases hg).trans
              ih
        | some c₁ =>
            rw [hl, Option.bind_some] at ih
            rw [Option.bind_some]
            by_cases hcc : c₁ = c
            · subst hcc
              rw [if_pos (by simp)]
              refine Option.eq_none_iff_forall_ne_some.mpr fun g hg => ?_
              obtain ⟨hg, hne⟩ := ServerState.cleanup_services_eq_some.mp hg
              rw [ih] at hg
              split at hg
              · cases hg
              · cases hg; exact hne rfl
            · have hmem : Event.cleanup c₁ s ∈ tr ++ [Event.cleanup c s] ↔ .cleanup c₁ s ∈ tr := by
                simp [hcc]
              rw [if_congr hmem rfl rfl]
              refine (ServerState.cleanup_services_of_ne fun g hg => ?_).trans ih
              rw [ih] at hg
              split at hg
              · cases hg
              · cases hg; exact hcc
      · rw [← same rfl fun c' he => hss (by cases he; rfl)]
        exact ServerState.cleanup_services_other hss
  | _ => exact same rfl (by simp)

/-- A cleanup of a connection that is not the newest leaves the service alone. -/
theorem services_of_other_cleanup (h : ServerRun serde config tr w) {w' : World} {c : ConnId}
    {s s' : String} (hs : Step serde w (.cleanup c s') w')
    (hne : lastRegistered s tr ≠ some c) : w'.state.services s = w.state.services s := by
  rw [hs.services]
  by_cases hss : s = s'
  · subst hss
    refine ServerState.cleanup_services_of_ne fun g hg => ?_
    rw [services_eq h] at hg
    obtain ⟨c₁, hc₁, hg⟩ := Option.bind_eq_some_iff.mp hg
    split at hg
    · cases hg
    · cases hg
      exact fun e => hne (hc₁.trans (congrArg some e))
  · exact ServerState.cleanup_services_other hss

/-! ### A displaced connection is closed -/

/-- `c'` has registered for `s` over `c`, and has not yet closed it. -/
def Displacing (w : World) (c' c : ConnId) (s : String) : Prop :=
  ∃ k, w.conns c' = some k ∧
    ((∃ g, k.phase = .registered s (some g) ∧ g.connId = c) ∨ k.phase = .closing s c)

/-- A connection stops displacing another by closing it. -/
theorem Displacing.step {w' : World} {e : Event} (hs : Step serde w e w') (hw : w.Wf)
    {c' c : ConnId} {s : String} (h : Displacing w c' c s) :
    Displacing w' c' c s ∨ e = .closeReplaced c' c := by
  obtain ⟨k, hk, hp⟩ := h
  obtain ⟨k', hk', hm⟩ := hs.move hw.fresh hw.closesOthers hk
  have stay : k'.phase = k.phase → Displacing w' c' c s := fun e => ⟨k', hk', e ▸ hp⟩
  cases hm with
  | own hs =>
      have hn := hs.next
      generalize hq : k'.phase = p' at hn
      rcases hp with ⟨g, hp, hg⟩ | hp
      · rw [hp] at hn
        cases hn with
        | stay _ => exact .inl (stay (hq.trans hp.symm))
        | displace =>
            refine .inl ⟨k', hk', .inr (hq.trans ?_)⟩
            rw [(hw.replaced hk hp).1.2, hg]
      · rw [hp] at hn
        cases hn with
        | stay _ => exact .inl (stay (hq.trans hp.symm))
  | closeReplaced hp' _ =>
      rcases hp with ⟨g, hp, -⟩ | hp
      · rw [hp] at hp'; cases hp'
      · cases hp.symm.trans hp'
        exact .inr rfl
  | register hp' | respond hp' | cleanup hp' | runReturned hp' _ =>
      rcases hp with ⟨g, hp, -⟩ | hp <;> rw [hp] at hp' <;> cases hp'
  | closed _ | drainEnd _ _ _ | send _ | other _ => exact .inl (stay rfl)

/-- A closed connection stays closed. -/
theorem Connection.Move.closed_mono {c : ConnId} {k k' : Connection} {e : Event}
    (hm : Connection.Move serde w c k e k') (h : k.incomingTx = false) : k'.incomingTx = false := by
  cases hm with
  | own hs => cases hs <;> first | exact h | rfl
  | closed _ => rfl
  | _ => exact h

/-- The registration of a connection that serves ends by its cleanup or by another's insert. -/
theorem services_step {w' : World} {e : Event} (hs : Step serde w e w') {c : ConnId}
    {s : String} (hne : ∀ s', e ≠ .cleanup c s')
    (h : w.state.services s = some (handleOf c)) :
    w'.state.services s = some (handleOf c) ∨ ∃ c', Displacing w' c' c s := by
  rw [hs.services]
  cases e with
  | register c' s' =>
      by_cases hss : s = s'
      · subst hss
        refine .inr ⟨c', ?_⟩
        cases hs with
        | register _ _ =>
            exact ⟨_, World.setConn_conns_same, .inl ⟨handleOf c, congrArg _ h, rfl⟩⟩
      · exact .inl ((PartialMap.insert_other hss).trans h)
  | cleanup c' s' =>
      by_cases hss : s = s'
      · subst hss
        refine .inl ((ServerState.cleanup_services_of_ne fun g hg => ?_).trans h)
        cases h.symm.trans hg
        exact fun e => hne s (by rw [← e]; rfl)
      · exact .inl ((ServerState.cleanup_services_other hss).trans h)
  | _ => exact .inl h

/-- A connection that serves a service is the registered one, or closed, or about to be. -/
theorem displaced_of_run (h : ServerRun serde config tr w) {c : ConnId} {k : Connection}
    {s : String} (hk : w.conns c = some k) (hs : k.phase.serving = some s) :
    w.state.services s = some (handleOf c) ∨ k.incomingTx = false ∨
      ∃ c', Displacing w c' c s := by
  refine h.invariant (fun _ w => ∀ k, w.conns c = some k → k.phase.serving = some s →
    w.state.services s = some (handleOf c) ∨ k.incomingTx = false ∨ ∃ c', Displacing w c' c s)
    (fun k hk => by cases hk) (fun {tr w e w'} hr ih hs k' hk' hserv' => ?_) k hk hs
  have hw := wf_of_run hr
  rcases hs.serving_inv hw.fresh ((World.observe_eq _ hk').trans hserv') with rfl | ⟨hserv, hne⟩
  · rw [hs.services]
    exact .inl (PartialMap.insert_same ..)
  · obtain ⟨k, hk, hph⟩ := World.observe_eq_some hserv
    obtain ⟨k₁, hk₁, hm⟩ := hs.move hw.fresh hw.closesOthers hk
    cases hk₁.symm.trans hk'
    rcases ih k hk hph with hreg | hclosed | ⟨c', hd⟩
    · rcases services_step hs hne hreg with hreg | hd
      · exact .inl hreg
      · exact .inr (.inr hd)
    · exact .inr (.inl (hm.closed_mono hclosed))
    · rcases hd.step hs hw with hd | rfl
      · exact .inr (.inr ⟨c', hd⟩)
      · refine .inr (.inl ?_)
        cases hm with
        | closeReplaced _ hne => exact absurd rfl hne
        | closed _ => rfl
        | other hno => exact absurd (.inr rfl) hno

/-! ### The relay loop of a closed connection ends -/

/-- The messages a connection has still to handle. -/
def Connection.backlog (k : Connection) : Nat := k.pushing.length + k.incoming.length

/-- The relay loop of `c` takes a message. -/
def Event.relays (c : ConnId) : Event → Bool
  | .conn c' (.relayRecv _) => c' = c
  | _ => false

/-- What a closed connection takes comes off its backlog, which does not grow. -/
theorem Connection.Move.backlog {c : ConnId} {k k' : Connection} {e : Event}
    (hm : Connection.Move serde w c k e k') (h : k.incomingTx = false) :
    k'.backlog + (if e.relays c then 1 else 0) ≤ k.backlog := by
  cases hm with
  | own hs =>
      cases hs with
      | push _ ho => rw [h] at ho; cases ho
      | sent hm _ _ =>
          have := List.length_erase_of_mem hm
          have := List.length_pos_of_mem hm
          simp only [Connection.backlog, Event.relays, List.length_append, List.length_singleton]
          simp; omega
      | gone hm =>
          have := List.length_erase_of_mem hm
          simp only [Connection.backlog, Event.relays]
          simp; omega
      | authRecv _ hi | relayRecv _ hi => simp [Connection.backlog, Event.relays, hi, Nat.add_assoc]
      | _ => simp [Connection.backlog, Event.relays]
  | other hno =>
      have hfalse : e.relays c = false := by
        cases e with
        | conn c' e =>
            cases e with
            | relayRecv m => exact decide_eq_false hno
            | _ => rfl
        | _ => rfl
      simp [hfalse]
  | _ => simp [Connection.backlog, Event.relays]

/-- A closed connection stays closed, and its relay loop takes no more than its backlog. -/
theorem relays_of_closed (h : ServerRun serde config tr w) {c : ConnId} {k : Connection}
    (hk : w.conns c = some k) (hc : k.incomingTx = false) {tr' : List Event} {w' : World}
    (h' : Lts.Run (Step serde) w tr' w') :
    ∃ k', w'.conns c = some k' ∧ k'.incomingTx = false ∧
      k'.backlog + tr'.countP (Event.relays c) ≤ k.backlog := by
  refine h'.invariant (fun tr' w' => ∃ k', w'.conns c = some k' ∧ k'.incomingTx = false ∧
    k'.backlog + tr'.countP (Event.relays c) ≤ k.backlog) ⟨k, hk, hc, by simp⟩
    fun {tr₁ u e u'} hrun ih hs => ?_
  have hw : u.Wf := wf_of_run (h.append hrun)
  obtain ⟨k₁, hk₁, hc₁, hle⟩ := ih
  obtain ⟨k', hk', hm⟩ := hs.move hw.fresh hw.closesOthers hk₁
  refine ⟨k', hk', hm.closed_mono hc₁, ?_⟩
  have := hm.backlog hc₁
  rw [List.countP_append, List.countP_singleton]
  omega

variable (serde) in
/-- The relay loop handles the message at the head of its queue. -/
theorem exists_handled {s : String} {c : ConnId} {k : Connection} {m : Pushed}
    {rest : List Pushed} (hk : w.conns c = some k) (hp : k.phase = .relay s)
    (hi : k.incoming = m :: rest) :
    ∃ tr' w', Lts.Run (Step serde) w tr' w' ∧ (∀ e ∈ tr', e.ConcernsConn c) ∧
      w'.conns c = some { k with incoming := rest } := by
  have hs : Step serde w _ _ := .conn hk (.relayRecv hp hi)
  rcases @Connection.relayNext_cases serde s m with ⟨r, -, hnext⟩ | ⟨-, hnext⟩
  · refine ⟨_, _, .cons hs (Lts.Run.one (.respond World.setConn_conns_same hnext)),
      by simp [Event.ConcernsConn], ?_⟩
    rw [← hp]
    exact World.setConn_conns_same
  · refine ⟨_, _, Lts.Run.one hs, by simp [Event.ConcernsConn], ?_⟩
    rw [hnext, ← hp]
    exact World.setConn_conns_same

variable (serde) in
/-- The relay loop of a closed connection can handle what it has and end, by steps of its own. -/
theorem exists_relayClosed {s : String} {c : ConnId} (n : Nat) {w : World} {k : Connection}
    (hk : w.conns c = some k) (hp : k.phase = .relay s) (hc : k.incomingTx = false)
    (hn : 2 * k.pushing.length + k.incoming.length = n) :
    ∃ tr' w' k', Lts.Run (Step serde) w tr' w' ∧ (∀ e ∈ tr', e.ConcernsConn c) ∧
      w'.conns c = some k' ∧ k'.phase = .cleanup s := by
  induction n using Nat.strong_induction_on generalizing w k with
  | h n ih =>
  -- a run that leaves less to handle, followed by the one the induction gives
  have chain : ∀ {tr₁ w₁} {k₁ : Connection}, Lts.Run (Step serde) w tr₁ w₁ →
      (∀ e ∈ tr₁, e.ConcernsConn c) → w₁.conns c = some k₁ → k₁.phase = .relay s →
      k₁.incomingTx = false → 2 * k₁.pushing.length + k₁.incoming.length < n →
      ∃ tr' w' k', Lts.Run (Step serde) w tr' w' ∧ (∀ e ∈ tr', e.ConcernsConn c) ∧
        w'.conns c = some k' ∧ k'.phase = .cleanup s := by
    intro tr₁ w₁ k₁ hrun₁ hall₁ hk₁ hp₁ hc₁ hlt
    obtain ⟨tr₂, w₂, k₂, hrun₂, hall₂, hk₂, hp₂⟩ := ih _ hlt hk₁ hp₁ hc₁ rfl
    exact ⟨_, w₂, k₂, hrun₁.append hrun₂,
      fun e he => (List.mem_append.mp he).elim (hall₁ e) (hall₂ e), hk₂, hp₂⟩
  cases hi : k.incoming with
  | cons m rest =>
      obtain ⟨tr₁, w₁, hrun₁, hall₁, hk₁⟩ := exists_handled serde hk hp hi
      refine chain hrun₁ hall₁ hk₁ hp hc ?_
      rw [hi, List.length_cons] at hn
      exact hn ▸ Nat.lt_succ_self _
  | nil =>
      cases hpu : k.pushing with
      | cons m rest =>
          have hm : m ∈ k.pushing := hpu ▸ List.mem_cons_self
          have hs : Step serde w _ _ := .conn hk (.sent hm (by rw [hp]; rfl)
            (by rw [hi]; exact Nat.zero_lt_succ _))
          refine chain (Lts.Run.one hs) (by simp [Event.ConcernsConn]) World.setConn_conns_same hp
            hc ?_
          have hlen := List.length_erase_of_mem hm
          have hpos := List.length_pos_of_mem hm
          simp only [hi, List.nil_append, List.length_singleton, List.length_nil] at hn ⊢
          omega
      | nil =>
          exact ⟨_, _, _, Lts.Run.one (.conn hk (.relayClosed hp ⟨hi, hpu, hc⟩)),
            by simp [Event.ConcernsConn], World.setConn_conns_same, rfl⟩

variable (serde) in
/-- A connection that serves reaches its relay loop, if it has not left it, by steps of its
own. -/
theorem exists_relay (hw : w.Wf) {s : String} {c : ConnId} {k : Connection}
    (hk : w.conns c = some k) (hserv : k.phase.serving = some s) :
    ∃ tr' w' k', Lts.Run (Step serde) w tr' w' ∧ (∀ e ∈ tr', e.ConcernsConn c) ∧
      w'.conns c = some k' ∧ k'.incomingTx = k.incomingTx ∧
      (k'.phase = .relay s ∨ k'.phase = .cleanup s) := by
  -- closing another connection leads into the loop
  have close : ∀ {w : World} {k : Connection} {old : ConnId}, w.conns c = some k → old ≠ c →
      k.phase = .closing s old →
      ∃ w', Step serde w (.closeReplaced c old) w' ∧
        w'.conns c = some { k with phase := .relay s } := fun hk hne hp =>
    ⟨_, .closeReplaced hk hp, (PartialMap.modify_other hne.symm).trans (PartialMap.insert_same ..)⟩
  cases hp : k.phase with
  | registered s' r =>
      obtain rfl : s' = s := by rw [hp] at hserv; exact Option.some.inj hserv
      have hs : Step serde w _ _ := .conn hk (.upgrade hp)
      cases r with
      | none =>
          exact ⟨_, _, _, Lts.Run.one hs, by simp [Event.ConcernsConn], World.setConn_conns_same,
            rfl, .inl rfl⟩
      | some g =>
          obtain ⟨⟨-, hone⟩, hne, -⟩ := hw.replaced hk hp
          have hk₁ : (w.setConn c _).conns c = some { k with phase := .closing s' g.connection } :=
            World.setConn_conns_same
          obtain ⟨w', hs', hk'⟩ := close hk₁ (by rw [hone]; exact hne) rfl
          exact ⟨_, w', _, .cons hs (Lts.Run.one hs'), by simp [Event.ConcernsConn], hk', rfl,
            .inl rfl⟩
  | closing s' old =>
      obtain rfl : s' = s := by rw [hp] at hserv; exact Option.some.inj hserv
      obtain ⟨w', hs', hk'⟩ := close hk (hw.closing hk hp).1 hp
      exact ⟨_, w', _, Lts.Run.one hs', by simp [Event.ConcernsConn], hk', rfl, .inl rfl⟩
  | relay s' =>
      obtain rfl : s' = s := by rw [hp] at hserv; exact Option.some.inj hserv
      exact ⟨[], w, k, .nil, by simp, hk, rfl, .inl hp⟩
  | respond s' m r =>
      obtain rfl : s' = s := by rw [hp] at hserv; exact Option.some.inj hserv
      exact ⟨_, _, _, Lts.Run.one (.respond hk hp), by simp [Event.ConcernsConn],
        World.setConn_conns_same, rfl, .inl rfl⟩
  | cleanup s' =>
      obtain rfl : s' = s := by rw [hp] at hserv; exact Option.some.inj hserv
      exact ⟨[], w, k, .nil, by simp, hk, rfl, .inr hp⟩
  | _ => rw [hp] at hserv; cases hserv

/-- The relay loop of `c` ends: it takes no more than what `c` still carries, in any continuation,
and by steps of its own `c` can come to its cleanup. -/
def LoopEnds (serde : SerdeJson) (w : World) (c : ConnId) (s : String) (k : Connection) : Prop :=
  (∀ tr' w', Lts.Run (Step serde) w tr' w' → tr'.countP (Event.relays c) ≤ k.backlog) ∧
    ∃ tr' w' k', Lts.Run (Step serde) w tr' w' ∧ (∀ e ∈ tr', e.ConcernsConn c) ∧
      w'.conns c = some k' ∧ k'.phase = .cleanup s

theorem loopEnds_of_closed (h : ServerRun serde config tr w) {c : ConnId} {k : Connection}
    {s : String} (hk : w.conns c = some k) (hserv : k.phase.serving = some s)
    (hc : k.incomingTx = false) : LoopEnds serde w c s k := by
  refine ⟨fun tr' w' h' => ?_, ?_⟩
  · obtain ⟨k', -, -, hle⟩ := relays_of_closed h hk hc h'
    exact Nat.le_trans (Nat.le_add_left ..) hle
  · obtain ⟨tr₁, w₁, k₁, hrun₁, hall₁, hk₁, hc₁, hp₁ | hp₁⟩ :=
      exists_relay serde (wf_of_run h) hk hserv
    · obtain ⟨tr₂, w₂, k₂, hrun₂, hall₂, hk₂, hp₂⟩ :=
        exists_relayClosed serde _ hk₁ hp₁ (hc₁.trans hc) rfl
      exact ⟨_, w₂, k₂, hrun₁.append hrun₂,
        fun e he => (List.mem_append.mp he).elim (hall₁ e) (hall₂ e), hk₂, hp₂⟩
    · exact ⟨tr₁, w₁, k₁, hrun₁, hall₁, hk₁, hp₁⟩

/-- **Newest connection wins, and stale disconnects are harmless.**  A service is that of its
newest connection until that one is cleaned up; a cleanup of another connection leaves it alone;
and every older connection not yet cleaned up is closed, so that its relay loop ends, or is about
to be closed by the connection that displaced it. -/
theorem newest_connection_wins (h : ServerRun serde config tr w) (s : String) :
    (w.state.services s = (lastRegistered s tr).bind fun c =>
      if .cleanup c s ∈ tr then none else some (handleOf c)) ∧
    (∀ c s' w', Step serde w (.cleanup c s') w' → lastRegistered s tr ≠ some c →
      w'.state.services s = w.state.services s) ∧
    (∀ c, .register c s ∈ tr → .cleanup c s ∉ tr → lastRegistered s tr ≠ some c →
      ∃ k, w.conns c = some k ∧ (k.incomingTx = false ∧ LoopEnds serde w c s k ∨
        ∃ c', .register c' s ∈ tr ∧ Displacing w c' c s)) := by
  refine ⟨services_eq h s, fun c s' w' => services_of_other_cleanup h, fun c hreg hcl hne => ?_⟩
  obtain ⟨k, hk, hserv⟩ := World.observe_eq_some (serving_of_registered h hreg hcl)
  refine ⟨k, hk, ?_⟩
  rcases displaced_of_run h hk hserv with hs | hc | ⟨c', k', hk', hp⟩
  · rw [services_eq h] at hs
    obtain ⟨c₁, hc₁, hs⟩ := Option.bind_eq_some_iff.mp hs
    split at hs
    · cases hs
    · cases hs
      exact absurd hc₁ hne
  · exact .inl ⟨hc, loopEnds_of_closed h hk hserv hc⟩
  · refine .inr ⟨c', (registeredFor_iff h).mp ?_, k', hk', hp⟩
    refine (World.observe_eq _ hk').trans ?_
    rcases hp with ⟨g, hp, -⟩ | hp <;> rw [hp] <;> rfl

/-- A second client takes the service over, before it has closed the first. -/
theorem newest_connection_wins_takeover :
    ∃ w, ServerRun compactJson demoConfig
      (registration compactJson demoConfig 1 "app" ++ handshake compactJson demoConfig 2 "app" ++
        [.register 2 "app"]) w ∧ w.state.services "app" = some (handleOf 2) := by
  obtain ⟨w, h⟩ := @exists_run compactJson demoConfig
    (registration compactJson demoConfig 1 "app" ++ handshake compactJson demoConfig 2 "app" ++
      [.register 2 "app"]) (by decide +kernel)
  refine ⟨w, h, (newest_connection_wins h "app").1.trans ?_⟩
  decide +kernel

end Outpunch
