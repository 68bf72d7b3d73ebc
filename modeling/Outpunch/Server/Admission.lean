import Outpunch.Server.Exec
import Outpunch.Server.Outgoing

/-!
# Server — admission

`handle_auth` decides on one event: the first message, the timer, or the end of the channel.  The
verdict is a function of that event (`ConnEvent.verdict`), and where `run` stands agrees with it
(`decided_of_run`).  A connection that was not accepted is never registered, so it is sent nothing
and answers nothing; one that was accepted can only go on to its registration, and nothing can
keep it from it.
-/

namespace Outpunch

variable {serde : SerdeJson} {config : ServerConfig} {tr : List Event} {w : World} {c : ConnId}

/-! ### The decision -/

/-- The events `handle_auth` decides on. -/
def ConnEvent.isDecision : ConnEvent → Bool
  | .authRecv _ | .authTimeout | .authClosed => true
  | _ => false

/-- The service a connection is admitted to, by what `handle_auth` decided on. -/
def ConnEvent.verdict (serde : SerdeJson) (config : ServerConfig) : ConnEvent → Option String
  | .authRecv m =>
    match parseMessage serde m.text with
    | .ok (.auth msg) => if Connection.tokenValid config msg.token then some msg.service else none
    | _ => none
  | _ => none

/-- What `handle_auth` has come to. -/
inductive Outcome where
  | undecided
  | checking (msg : AuthMessage)
  | accepted (service : String)
  | rejected

def Phase.outcome : Phase → Outcome
  | .created | .auth => .undecided
  | .check msg => .checking msg
  | .register s | .registered s _ | .closing s _ | .relay s | .respond s _ _ | .cleanup s
  | .reply _ (some s) | .leaving (some s) | .joining (some s) | .done (some s) => .accepted s
  | .reply _ none | .leaving none | .joining none | .done none => .rejected

/-- The events `handle_auth` of `c` decided on. -/
def Event.decides (c : ConnId) : Event → Option ConnEvent
  | .conn c' e => if e.isDecision then if c' = c then some e else none else none
  | _ => none

abbrev decisions (c : ConnId) (tr : List Event) : List ConnEvent :=
  Lts.record (Event.decides c) tr

theorem Event.recordOf_decides : RecordOf c (decides c) where
  other {e} h := by
    cases e with
    | conn c' e => exact (ite_eq_right_iff.mpr fun _ => if_neg h)
    | _ => rfl
  create := rfl

theorem Event.decides_eq_some {e : Event} {d : ConnEvent} :
    e.decides c = some d ↔ e = .conn c d ∧ d.isDecision := by
  cases e with
  | conn c' e =>
      simp only [Event.decides, Option.ite_none_right_eq_some, Option.some.injEq, Event.conn.injEq]
      constructor
      · rintro ⟨hd, rfl, rfl⟩; exact ⟨⟨rfl, rfl⟩, hd⟩
      · rintro ⟨⟨rfl, rfl⟩, hd⟩; exact ⟨hd, rfl, rfl⟩
  | _ => simp [Event.decides]

/-- The decisions an outcome comes from. -/
def Decided (serde : SerdeJson) (config : ServerConfig) (l : List ConnEvent) : Outcome → Prop
  | .undecided => l = []
  | .checking msg => ∃ m, l = [.authRecv m] ∧ parseMessage serde m.text = .ok (.auth msg)
  | .accepted s => ∃ m, l = [.authRecv m] ∧ (ConnEvent.authRecv m).verdict serde config = some s
  | .rejected => ∃ e, l = [e] ∧ e.verdict serde config = none

theorem verdict_of_parse {m : Pushed} {msg : AuthMessage}
    (h : parseMessage serde m.text = .ok (.auth msg)) :
    (ConnEvent.authRecv m).verdict serde config =
      if Connection.tokenValid config msg.token then some msg.service else none := by
  rw [ConnEvent.verdict, h]

theorem verdict_of_not_auth {m : Pushed}
    (h : ∀ msg, parseMessage serde m.text ≠ .ok (.auth msg)) :
    (ConnEvent.authRecv m).verdict serde config = none := by
  rw [ConnEvent.verdict]
  split
  · rename_i msg hparse
    exact absurd hparse (h msg)
  · rfl

/-- Every step of `run` agrees with the decision. -/
theorem Phase.Next.decided {p p' : Phase} {e : ConnEvent} (h : Phase.Next serde config p e p')
    {l : List ConnEvent} (hl : Decided serde config l p.outcome) :
    Decided serde config (l ++ if e.isDecision then [e] else []) p'.outcome := by
  cases h with
  | stay he =>
      have : e.isDecision = false := by cases e <;> first | rfl | cases he
      rwa [this, if_neg Bool.false_ne_true, List.append_nil]
  | run => exact (List.append_nil l).trans hl
  | authTimeout | authClosed =>
      rw [show l = [] from hl]
      exact ⟨_, rfl, rfl⟩
  | authRecv hm =>
      rw [show l = [] from hl]
      exact ⟨_, rfl, hm⟩
  | @authReject m hm =>
      rw [show l = [] from hl]
      exact ⟨_, rfl, verdict_of_not_auth hm⟩
  | accept hv =>
      obtain ⟨m, rfl, hm⟩ := hl
      exact ⟨m, rfl, (verdict_of_parse hm).trans (if_pos hv)⟩
  | refuse hv =>
      obtain ⟨m, rfl, hm⟩ := hl
      exact ⟨_, rfl, (verdict_of_parse hm).trans (if_neg hv)⟩
  | replied he =>
      have : e.isDecision = false := by rcases he with rfl | rfl <;> rfl
      rwa [this, if_neg Bool.false_ne_true, List.append_nil]
  | refused he =>
      have : e.isDecision = false := by rcases he with rfl | rfl <;> rfl
      rwa [this, if_neg Bool.false_ne_true, List.append_nil]
  | @dropOutgoing s => cases s <;> exact (List.append_nil l).symm ▸ hl
  | _ => exact (List.append_nil l).symm ▸ hl

theorem config_of_run (h : ServerRun serde config tr w) : w.state.config = config :=
  h.preserves (P := fun w => w.state.config = config) (fun hc hs => hs.config.trans hc) rfl

theorem decisions_conn (c : ConnId) (tr : List Event) (e : ConnEvent) :
    decisions c (tr ++ [Event.conn c e]) = decisions c tr ++ if e.isDecision then [e] else [] := by
  rw [decisions, Lts.record_snoc, Event.decides]
  cases e.isDecision <;> simp

/-- **Where `run` stands agrees with what `handle_auth` decided on.** -/
theorem decided_of_run (h : ServerRun serde config tr w) {k : Connection}
    (hk : w.conns c = some k) : Decided serde config (decisions c tr) k.phase.outcome := by
  refine conn_invariant (fun tr k => Decided serde config (decisions c tr) k.phase.outcome)
    (fun hno => Event.recordOf_decides.new hno) (fun {tr w k e w' k'} hr _ ih _ hm => ?_) h hk
  have same : e.decides c = none → k'.phase.outcome = k.phase.outcome →
      Decided serde config (decisions c (tr ++ [e])) k'.phase.outcome := by
    intro he ho
    have hd : decisions c (tr ++ [e]) = decisions c tr := Lts.record_snoc_of_none he
    rwa [hd, ho]
  cases hm with
  | own hs =>
      rw [decisions_conn]
      exact (config_of_run hr ▸ hs.next).decided ih
  | register hp | closeReplaced hp _ | respond hp | cleanup hp => exact same rfl (by rw [hp]; rfl)
  | @runReturned s hp _ => exact same rfl (by rw [hp]; cases s <;> rfl)
  | other hno => exact same (Event.recordOf_decides.other hno) rfl
  | _ => exact same rfl rfl

/-! ### The first message -/

/-- The message `handle_auth` decided on is the first `run` took. -/
theorem received_of_decisions (h : ServerRun serde config tr w) {k : Connection}
    (hk : w.conns c = some k) :
    (decisions c tr = [] → received c tr = []) ∧
      ∀ m, decisions c tr = [.authRecv m] → (received c tr).head? = some m := by
  refine conn_invariant (fun tr _ => (decisions c tr = [] → received c tr = []) ∧
    ∀ m, decisions c tr = [.authRecv m] → (received c tr).head? = some m)
    (fun hno => ?_) (fun {tr w k e w' k'} hr hk ih _ hm => ?_) h hk
  · rw [decisions, received, Event.recordOf_decides.new hno, Event.recordOf_receives.new hno]
    exact ⟨fun _ => rfl, fun _ hd => by cases hd⟩
  · have same : e.decides c = none → e.receives c = none →
        (decisions c (tr ++ [e]) = [] → received c (tr ++ [e]) = []) ∧
          ∀ m, decisions c (tr ++ [e]) = [.authRecv m] →
            (received c (tr ++ [e])).head? = some m := by
      intro hd hr
      have hd : decisions c (tr ++ [e]) = decisions c tr := Lts.record_snoc_of_none hd
      have hr : received c (tr ++ [e]) = received c tr := Lts.record_snoc_of_none hr
      rw [hd, hr]
      exact ih
    have hdec := decided_of_run hr hk
    cases hm with
    | own hs =>
        cases hs with
        | @authRecv m _ hp _ =>
            rw [hp] at hdec
            have hd : decisions c (tr ++ [Event.conn c (.authRecv m)]) = [.authRecv m] := by
              rw [decisions_conn, show decisions c tr = [] from hdec]; rfl
            have hr : received c (tr ++ [Event.conn c (.authRecv m)]) = received c tr ++ [m] :=
              Lts.record_snoc_of_some (if_pos rfl)
            rw [hd, hr, ih.1 hdec]
            exact ⟨fun hd => (by cases hd), fun _ hd => (by cases hd; rfl)⟩
        | @relayRecv s m _ hp _ =>
            rw [hp] at hdec
            obtain ⟨m₀, hm₀, -⟩ := hdec
            have hd : decisions c (tr ++ [Event.conn c (.relayRecv m)]) = decisions c tr :=
              Lts.record_snoc_of_none rfl
            have hr : received c (tr ++ [Event.conn c (.relayRecv m)]) = received c tr ++ [m] :=
              Lts.record_snoc_of_some (if_pos rfl)
            rw [hd, hr]
            refine ⟨fun hd => (by rw [hm₀] at hd; cases hd), fun m₁ hm₁ => ?_⟩
            rw [List.head?_append, ih.2 m₁ hm₁]
            rfl
        | authTimeout hp | authClosed hp _ =>
            rw [hp] at hdec
            rw [decisions_conn, show decisions c tr = [] from hdec]
            exact ⟨fun hd => (by cases hd), fun _ hd => (by cases hd)⟩
        | _ => exact same rfl rfl
    | other hno =>
        exact same (Event.recordOf_decides.other hno) (Event.recordOf_receives.other hno)
    | _ => exact same rfl rfl

/-- **The message `handle_auth` decided on is the first that came.** -/
theorem first_message (h : ServerRun serde config tr w) {k : Connection}
    (hk : w.conns c = some k) {m : Pushed} (hd : decisions c tr = [.authRecv m]) :
    (arrived c tr).head? = some m := by
  rw [arrived_eq h hk, List.head?_append, (received_of_decisions h hk).2 m hd]
  rfl

/-- What has registered was admitted, by its first message. -/
theorem admitted_of_register (h : ServerRun serde config tr w) {s : String}
    (hreg : .register c s ∈ tr) :
    ∃ m, decisions c tr = [.authRecv m] ∧ (ConnEvent.authRecv m).verdict serde config = some s := by
  obtain ⟨k, hk, hph⟩ := World.observe_eq_some ((registeredFor_iff h).mpr hreg)
  have hdec := decided_of_run h hk
  cases hp : k.phase with
  | registered _ _ | closing _ _ | relay _ | respond _ _ _ | cleanup _ =>
      rw [hp] at hph hdec
      cases hph
      exact hdec
  | leaving o | joining o | done o =>
      rw [hp] at hph hdec
      cases hph
      exact hdec
  | _ => rw [hp] at hph; cases hph

theorem verdict_eq_some {e : ConnEvent} {s : String} :
    e.verdict serde config = some s ↔ ∃ m msg, e = .authRecv m ∧
      parseMessage serde m.text = .ok (.auth msg) ∧ config.secret ≠ "" ∧
      msg.token = config.secret ∧ msg.service = s := by
  constructor
  · intro h
    cases e with
    | authRecv m =>
        by_cases hm : ∃ msg, parseMessage serde m.text = .ok (.auth msg)
        · obtain ⟨msg, hm⟩ := hm
          rw [verdict_of_parse hm] at h
          obtain ⟨hv, hs⟩ := Option.ite_none_right_eq_some.mp h
          cases hs
          obtain ⟨hsec, htok⟩ := Connection.tokenValid_iff.mp hv
          exact ⟨m, msg, rfl, hm, hsec, htok, rfl⟩
        · rw [verdict_of_not_auth fun msg e => hm ⟨msg, e⟩] at h
          cases h
    | _ => cases h
  · rintro ⟨m, msg, rfl, hm, hsec, htok, rfl⟩
    rw [verdict_of_parse hm]
    exact if_pos (Connection.tokenValid_iff.mpr ⟨hsec, htok⟩)

/-- A step that uses the connection `c`: it is given a request, or it answers one. -/
def Event.Uses (c : ConnId) : Event → Prop
  | .assign _ c' _ => c' = c
  | .send _ tx _ => tx = c
  | .respond c' _ _ tx => c' = c ∧ tx.isSome
  | _ => False

/-- A connection that is used has registered. -/
theorem register_of_uses (h : ServerRun serde config tr w) {e : Event} (he : e ∈ tr)
    (hu : e.Uses c) : ∃ s, .register c s ∈ tr := by
  obtain ⟨tr₁, tr₂, u, u', rfl, hr, hs, -⟩ := h.of_mem he
  have hw := wf_of_run hr
  have before : ∀ {s}, u.registeredFor c = some s → ∃ s, .register c s ∈ tr₁ ++ e :: tr₂ :=
    fun hreg => ⟨_, List.mem_append_left _ ((registeredFor_iff hr).mp hreg)⟩
  cases e with
  | assign q c' tx =>
      cases hu
      obtain ⟨-, d, -, -, hserv⟩ := hs.assign_inv hw
      exact before (World.registeredFor_of_serving hserv)
  | send q tx json =>
      cases hu
      cases hs with
      | send hq hp _ _ => exact before ((hw.dispatch hq).sender c (by rw [hp]; rfl))
  | respond c' m r tx =>
      obtain ⟨rfl, htx⟩ := hu
      obtain ⟨q, rfl⟩ := Option.isSome_iff_exists.mp htx
      obtain ⟨-, hpend, -⟩ := hs.respond_some_inv hw
      obtain ⟨-, d, -, -, -, hserv⟩ := hw.pending hpend
      exact before (World.registeredFor_of_serving hserv)
  | _ => exact hu.elim

end Outpunch
