import Outpunch.Server.Admission
import Outpunch.Server.Exec

/-!
# Server — the authentication gate

A connection registers, is given a request or answers one only after its first message proved the
secret.  A connection whose first message does is three steps of `run` away from its registration,
and nothing else can happen to it before (`Registers`).  A connection that fails is told so at
most once, and changes neither map (`Refused`).
-/

namespace Outpunch

variable {serde : SerdeJson} {config : ServerConfig} {tr : List Event} {w : World} {c : ConnId}

/-! ### A right first message leads to the registration -/

/-- The steps the `run` of `c` takes. -/
def Event.ofRun (c : ConnId) : Event → Bool
  | .conn c' e => c' = c && e.ofRun
  | .register c' _ | .closeReplaced c' _ | .respond c' _ _ _ | .cleanup c' _ | .runReturned c' =>
    c' = c
  | _ => false

/-- How many steps of `run` there are to the registration. -/
def Phase.toRegistration : Phase → Nat
  | .check _ => 3
  | .reply _ (some _) => 2
  | .register _ => 1
  | _ => 0

theorem Phase.Next.toRegistration {p p' : Phase} {e : ConnEvent}
    (h : Phase.Next serde config p e p') (hp : p.toRegistration ≠ 0) :
    p'.toRegistration + (if e.ofRun then 1 else 0) ≤ p.toRegistration := by
  cases h with
  | stay he => rw [he]; exact Nat.le_refl _
  | accept _ | refuse _ => simp [Phase.toRegistration, ConnEvent.ofRun]
  | replied he => rcases he with rfl | rfl <;> simp [Phase.toRegistration, ConnEvent.ofRun]
  | _ => exact absurd rfl hp

/-- A step of `run` takes a connection on its way to the registration nearer to it, and no other
step takes it back. -/
theorem Connection.Move.toRegistration {k k' : Connection} {e : Event}
    (hm : Connection.Move serde w c k e k') (hp : k.phase.toRegistration ≠ 0) :
    k'.phase.toRegistration + (if e.ofRun c then 1 else 0) ≤ k.phase.toRegistration := by
  cases hm with
  | own hs => simpa [Event.ofRun] using hs.next.toRegistration hp
  | register hk => rw [hk]; simp [Phase.toRegistration, Event.ofRun]
  | closeReplaced hk _ | respond hk | cleanup hk | runReturned hk _ =>
      exact absurd (by rw [hk]; rfl) hp
  | closed hne => simp [Event.ofRun, hne]
  | other hno =>
      have : e.ofRun c = false := by
        cases e with
        | conn c' e => exact Bool.and_eq_false_imp.mpr fun h => absurd (of_decide_eq_true h) hno
        | closeReplaced c' old => exact decide_eq_false fun h => hno (.inl h)
        | register _ _ | respond _ _ _ _ | cleanup _ _ | runReturned _ => exact decide_eq_false hno
        | _ => rfl
      rw [this]; exact Nat.le_refl _
  | _ => exact Nat.le_refl _

theorem Decided.length_le {l : List ConnEvent} {o : Outcome} (h : Decided serde config l o) :
    l.length ≤ 1 := by
  cases o with
  | undecided => rw [show l = [] from h]; exact Nat.zero_le _
  | checking _ | accepted _ =>
      obtain ⟨m, rfl, -⟩ := h
      exact Nat.le_refl _
  | rejected =>
      obtain ⟨e, rfl, -⟩ := h
      exact Nat.le_refl _

/-- `handle_auth` decides once. -/
theorem decisions_of_mem (h : ServerRun serde config tr w) {e : ConnEvent} (he : e.isDecision)
    (hmem : .conn c e ∈ tr) :
    decisions c tr = [e] ∧ ∃ k, w.conns c = some k ∧ Decided serde config [e] k.phase.outcome := by
  have hd : e ∈ decisions c tr :=
    Lts.mem_record.mpr ⟨_, hmem, Event.decides_eq_some.mpr ⟨rfl, he⟩⟩
  cases hk : w.conns c with
  | none => exact absurd rfl (not_concerns_of_absent h hk _ hmem)
  | some k =>
      have hdec := decided_of_run h hk
      obtain ⟨e', hone⟩ := List.length_eq_one_iff.mp
        (Nat.le_antisymm hdec.length_le (List.length_pos_of_mem hd))
      rw [hone] at hd hdec
      cases List.mem_singleton.mp hd
      exact ⟨hone, k, rfl, hdec⟩

/-- A connection admitted to `s` has registered for it or is on its way. -/
theorem registered_of_admitted (h : ServerRun serde config tr w) {m : Pushed} {s : String}
    (hm : .conn c (.authRecv m) ∈ tr) (hv : (ConnEvent.authRecv m).verdict serde config = some s) :
    ∃ k, w.conns c = some k ∧ (k.phase.registeredFor = some s ∨
      (∃ msg, k.phase = .check msg ∧ Connection.tokenValid config msg.token ∧ msg.service = s) ∨
      (∃ text, k.phase = .reply text (some s)) ∨ k.phase = .register s) := by
  obtain ⟨-, k, hk, hdec⟩ := decisions_of_mem h rfl hm
  refine ⟨k, hk, ?_⟩
  cases ho : k.phase.outcome with
  | undecided => rw [ho] at hdec; cases hdec
  | rejected =>
      rw [ho] at hdec
      obtain ⟨e, he, hnone⟩ := hdec
      cases he
      rw [hv] at hnone; cases hnone
  | checking msg =>
      rw [ho] at hdec
      obtain ⟨m', he, hparse⟩ := hdec
      cases he
      rw [verdict_of_parse hparse] at hv
      obtain ⟨hv, hs⟩ := Option.ite_none_right_eq_some.mp hv
      refine .inr (.inl ⟨msg, ?_, hv, Option.some.inj hs⟩)
      cases hp : k.phase with
      | check msg' => rw [hp] at ho; cases ho; rfl
      | created | auth => rw [hp] at ho; cases ho
      | reply _ o | leaving o | joining o | done o => rw [hp] at ho; cases o <;> cases ho
      | _ => rw [hp] at ho; cases ho
  | accepted s' =>
      rw [ho] at hdec
      obtain ⟨m', he, hs'⟩ := hdec
      cases he
      cases hv.symm.trans hs'
      cases hp : k.phase with
      | check msg | created | auth => rw [hp] at ho; cases ho
      | reply text o =>
          rw [hp] at ho
          cases o with
          | none => cases ho
          | some _ => cases ho; exact .inr (.inr (.inl ⟨text, rfl⟩))
      | register _ => rw [hp] at ho; cases ho; exact .inr (.inr (.inr rfl))
      | leaving o | joining o | done o =>
          rw [hp] at ho
          cases o with
          | none => cases ho
          | some _ => cases ho; exact .inl rfl
      | _ => rw [hp] at ho; cases ho; exact .inl rfl

/-- `c` is registered for `s`, and was told so first of all. -/
def RegisteredWithReply (serde : SerdeJson) (c : ConnId) (s : String) (tr : List Event) : Prop :=
  .register c s ∈ tr ∧ (enqueued c tr).head? = some (authOkText serde)

theorem registeredWithReply (h : ServerRun serde config tr w) {k : Connection} {s : String}
    (hk : w.conns c = some k) (hp : k.phase.registeredFor = some s) :
    RegisteredWithReply serde c s tr := by
  refine ⟨(registeredFor_iff h).mp ((World.observe_eq _ hk).trans hp), ?_⟩
  rw [(outgoing_of_registeredFor hp).mp (outgoing_of_run h hk).queue]
  rfl

/-- `c` registers for `s`: it has, once its `run` has taken three more steps, whatever else
happens; and it can take these steps. -/
def Registers (serde : SerdeJson) (c : ConnId) (s : String) (tr : List Event) (w : World) : Prop :=
  (∀ tr' w', Lts.Run (Step serde) w tr' w' → 3 ≤ tr'.countP (Event.ofRun c) →
    RegisteredWithReply serde c s (tr ++ tr')) ∧
  ∃ tr' w', Lts.Run (Step serde) w tr' w' ∧ tr'.length ≤ 3 ∧ (∀ e ∈ tr', e.ofRun c) ∧
    RegisteredWithReply serde c s (tr ++ tr')

theorem toRegistration_of_registeredFor {p : Phase} {s : String}
    (h : p.registeredFor = some s) : p.toRegistration = 0 := by
  cases p <;> first | rfl | cases h

/-- Three steps of `run` after its right first message, a connection is registered. -/
theorem registered_of_count (h : ServerRun serde config tr w) {m : Pushed} {s : String}
    (hm : .conn c (.authRecv m) ∈ tr) (hv : (ConnEvent.authRecv m).verdict serde config = some s)
    {tr' : List Event} {w' : World} (h' : Lts.Run (Step serde) w tr' w')
    (hc : 3 ≤ tr'.countP (Event.ofRun c)) : RegisteredWithReply serde c s (tr ++ tr') := by
  have hle : ∀ k, w'.conns c = some k → k.phase.toRegistration = 0 ∨
      k.phase.toRegistration + tr'.countP (Event.ofRun c) ≤ 3 := by
    refine h'.invariant (fun tr' w' => ∀ k, w'.conns c = some k → k.phase.toRegistration = 0 ∨
      k.phase.toRegistration + tr'.countP (Event.ofRun c) ≤ 3)
      (fun k _ => .inr (by cases k.phase <;> simp [Phase.toRegistration]; split <;> simp))
      fun {tr' u e u'} hrun ih hs k' hk' => ?_
    have hrun' := h.append hrun
    have hw := wf_of_run hrun'
    obtain ⟨k, hk, hway⟩ := registered_of_admitted hrun' (List.mem_append_left _ hm) hv
    obtain ⟨k₁, hk₁, hmove⟩ := hs.move hw.fresh hw.closesOthers hk
    cases hk₁.symm.trans hk'
    by_cases hpos : k.phase.toRegistration = 0
    · have hreg : k.phase.registeredFor = some s := hway.resolve_right fun hway => by
        rcases hway with ⟨msg, hp, -⟩ | ⟨text, hp⟩ | hp <;> rw [hp] at hpos <;> cases hpos
      have := hs.registeredFor_mono hw.fresh ((World.observe_eq _ hk).trans hreg)
      exact .inl (toRegistration_of_registeredFor ((World.observe_eq _ hk').symm.trans this))
    · have hstep := hmove.toRegistration hpos
      have := (ih k hk).resolve_left hpos
      refine .inr ?_
      rw [List.countP_append, List.countP_singleton]
      omega
  obtain ⟨k, hk, hway⟩ := registered_of_admitted (h.append h') (List.mem_append_left _ hm) hv
  refine registeredWithReply (h.append h') hk (hway.resolve_right fun hway => ?_)
  have := hle k hk
  rcases hway with ⟨msg, hp, -⟩ | ⟨text, hp⟩ | hp <;> rw [hp] at this <;>
    simp only [Phase.toRegistration] at this <;> omega

/-- The registration is the last step. -/
theorem exists_registered_of_register (h : ServerRun serde config tr w) {k : Connection}
    {s : String} (hk : w.conns c = some k) (hp : k.phase = .register s) :
    ∃ w', Step serde w (.register c s) w' ∧
      RegisteredWithReply serde c s (tr ++ [Event.register c s]) :=
  ⟨_, .register hk hp, registeredWithReply (h.snoc (.register hk hp)) World.setConn_conns_same rfl⟩

/-- Before it, the reply, which finds its queue empty. -/
theorem exists_replied (h : ServerRun serde config tr w) {k : Connection} {s text : String}
    (hk : w.conns c = some k) (hp : k.phase = .reply text (some s)) :
    ∃ w' k', Step serde w (.conn c (.reply text)) w' ∧ w'.conns c = some k' ∧
      k'.phase = .register s := by
  obtain ⟨ho, hd⟩ := outgoing_of_run h hk
  rw [hp] at ho
  obtain ⟨hnil, -⟩ := ho
  have hdrain : k.drain ≠ .ended := by
    intro hend
    rcases hd hend with hne | hno
    · exact hne hnil
    · rw [hp] at hno; cases hno
  have hout : k.outgoing = [] := by
    have hq := queueInv_of_run h hk
    rw [hnil] at hq
    cases hdr : k.drain with
    | idle => rw [hdr] at hq; exact hq.1.symm
    | running _ =>
        rw [hdr] at hq
        obtain ⟨taken, henq, -⟩ := hq
        exact (List.append_eq_nil_iff.mp henq.symm).2
    | ended => exact absurd hdr hdrain
  have hcan : k.canSend := ⟨by rw [hout]; exact Nat.zero_lt_succ _, hdrain⟩
  exact ⟨_, _, .conn hk (.reply hp hcan), World.setConn_conns_same, rfl⟩

variable (serde) in
theorem exists_checked {k : Connection} {msg : AuthMessage} (hk : w.conns c = some k)
    (hp : k.phase = .check msg) (hv : Connection.tokenValid w.state.config msg.token) :
    ∃ e w' k' text, Step serde w (.conn c e) w' ∧ e.ofRun ∧ w'.conns c = some k' ∧
      k'.phase = .reply text (some msg.service) := by
  refine ⟨_, _, _, authOkText serde, .conn hk (.check hp), rfl, World.setConn_conns_same, ?_⟩
  exact if_pos hv

/-- **A right first message leads to the registration.** -/
theorem registers_of_admitted (h : ServerRun serde config tr w) {m : Pushed} {s : String}
    (hm : .conn c (.authRecv m) ∈ tr)
    (hv : (ConnEvent.authRecv m).verdict serde config = some s) : Registers serde c s tr w := by
  refine ⟨fun tr' w' => registered_of_count h hm hv, ?_⟩
  have own : ∀ {e : ConnEvent}, e.ofRun → Event.ofRun c (.conn c e) := by
    intro _ he
    simpa [Event.ofRun] using he
  -- from the registration backwards
  have fromRegister : ∀ {tr w k}, ServerRun serde config tr w → w.conns c = some k →
      k.phase = .register s → ∃ tr' w', Lts.Run (Step serde) w tr' w' ∧ tr'.length ≤ 1 ∧
        (∀ e ∈ tr', e.ofRun c) ∧ RegisteredWithReply serde c s (tr ++ tr') := by
    intro _ _ _ h hk hp
    obtain ⟨w', hs, hreg⟩ := exists_registered_of_register h hk hp
    exact ⟨_, w', .one hs, Nat.le_refl _, by simp [Event.ofRun], hreg⟩
  have fromReply : ∀ {tr w k text}, ServerRun serde config tr w → w.conns c = some k →
      k.phase = .reply text (some s) → ∃ tr' w', Lts.Run (Step serde) w tr' w' ∧ tr'.length ≤ 2 ∧
        (∀ e ∈ tr', e.ofRun c) ∧ RegisteredWithReply serde c s (tr ++ tr') := by
    intro _ _ _ _ h hk hp
    obtain ⟨w₁, k₁, hs, hk₁, hp₁⟩ := exists_replied h hk hp
    obtain ⟨tr', w', hrun, hlen, hall, hreg⟩ := fromRegister (h.snoc hs) hk₁ hp₁
    refine ⟨_, w', .cons hs hrun, Nat.succ_le_succ hlen, ?_, by simpa using hreg⟩
    exact List.forall_mem_cons.mpr ⟨own rfl, hall⟩
  obtain ⟨k, hk, hreg | ⟨msg, hp, htok, rfl⟩ | ⟨text, hp⟩ | hp⟩ := registered_of_admitted h hm hv
  · exact ⟨[], w, .nil, Nat.zero_le _, by simp, by simpa using registeredWithReply h hk hreg⟩
  · obtain ⟨e, w₁, k₁, text, hs, he, hk₁, hp₁⟩ :=
      exists_checked serde hk hp ((config_of_run h).symm ▸ htok)
    obtain ⟨tr', w', hrun, hlen, hall, hreg⟩ := fromReply (h.snoc hs) hk₁ hp₁
    refine ⟨_, w', .cons hs hrun, Nat.succ_le_succ hlen, ?_, by simpa using hreg⟩
    exact List.forall_mem_cons.mpr ⟨own he, hall⟩
  · obtain ⟨tr', w', hrun, hlen, hall, hreg⟩ := fromReply h hk hp
    exact ⟨tr', w', hrun, Nat.le_succ_of_le hlen, hall, hreg⟩
  · obtain ⟨tr', w', hrun, hlen, hall, hreg⟩ := fromRegister h hk hp
    exact ⟨tr', w', hrun, Nat.le_trans hlen (by decide), hall, hreg⟩

/-! ### A connection that fails -/

/-- `c` was refused: it is not registered and not used, it was sent one `auth_error` at most, and
no step that concerned it changed a map. -/
structure Refused (serde : SerdeJson) (config : ServerConfig) (c : ConnId) (tr : List Event) :
    Prop where
  unregistered : ∀ s, .register c s ∉ tr
  unused : ∀ e ∈ tr, ¬ e.Uses c
  reply : enqueued c tr = [] ∨ ∃ message, enqueued c tr = [authErrorText serde message]
  frame : ∀ {tr₁ e tr₂ u u'}, tr = tr₁ ++ e :: tr₂ → ServerRun serde config tr₁ u →
    Step serde u e u' → e.ConcernsConn c →
      u'.state.services = u.state.services ∧ u'.state.pending = u.state.pending

/-- A step of a connection that has not registered leaves both maps as they are. -/
theorem Step.frame_of_unregistered {w' : World} {e : Event} (hs : Step serde w e w') (hw : w.Wf)
    (hc : e.ConcernsConn c) (hreg : w.registeredFor c = none) (he : ∀ s, e ≠ .register c s) :
    w'.state.services = w.state.services ∧ w'.state.pending = w.state.pending := by
  rw [hs.services, hs.pending hw]
  cases e with
  | register c' s => cases hc; exact absurd rfl (he s)
  | cleanup c' s =>
      cases hc
      rw [World.registeredFor_of_serving hs.serving_of_cleanup] at hreg; cases hreg
  | respond c' m r tx =>
      cases hc
      obtain ⟨⟨k, s, hk, hp⟩, -⟩ := hs.respond_inv
      have := (World.observe_eq Phase.registeredFor hk).symm.trans hreg
      rw [hp] at this; cases this
  | assign _ _ _ | ret _ _ => exact hc.elim
  | _ => exact ⟨rfl, rfl⟩

/-- **A connection that fails is refused.** -/
theorem refused_of_run (h : ServerRun serde config tr w) {e : ConnEvent} (he : e.isDecision)
    (hmem : .conn c e ∈ tr) (hv : e.verdict serde config = none) : Refused serde config c tr := by
  obtain ⟨hone, k, hk, hdec⟩ := decisions_of_mem h he hmem
  have hun : ∀ s, .register c s ∉ tr := by
    intro s hreg
    obtain ⟨m, hm, hs⟩ := admitted_of_register h hreg
    cases hone.symm.trans hm
    rw [hv] at hs; cases hs
  refine ⟨hun, fun e he hu => ?_, ?_, fun {tr₁ e tr₂ u u'} htr hr hs hc => ?_⟩
  · obtain ⟨s, hs⟩ := register_of_uses h he hu
    exact hun s hs
  · obtain ⟨ho, -⟩ := outgoing_of_run h hk
    have hno : ∀ s, k.phase.outcome ≠ .accepted s := by
      intro s hout
      rw [hout] at hdec
      obtain ⟨m, hm, hs⟩ := hdec
      cases hm
      rw [hv] at hs; cases hs
    cases hp : k.phase with
    | created | auth | check _ => rw [hp] at ho; exact .inl ho
    | reply _ _ => rw [hp] at ho; exact .inl ho.1
    | leaving o | joining o | done o =>
        cases o with
        | none => rw [hp] at ho; exact ho
        | some s => exact absurd (by rw [hp]; rfl) (hno s)
    | _ => exact absurd (by rw [hp]; rfl) (hno _)
  · subst htr
    refine hs.frame_of_unregistered (wf_of_run hr) hc ?_ fun s hes => hun s (by simp [hes])
    cases hreg : u.registeredFor c with
    | none => rfl
    | some s =>
        exact absurd (List.mem_append_left _ ((registeredFor_iff hr).mp hreg)) (hun s)

/-! ### The gate -/

/-- `m` is an auth message with the server's secret, which is not empty, for the service `s`. -/
def Admits (serde : SerdeJson) (config : ServerConfig) (m : Pushed) (s : String) : Prop :=
  ∃ msg, parseMessage serde m.text = .ok (.auth msg) ∧ config.secret ≠ "" ∧
    msg.token = config.secret ∧ msg.service = s

theorem verdict_authRecv {m : Pushed} {s : String} :
    (ConnEvent.authRecv m).verdict serde config = some s ↔ Admits serde config m s := by
  rw [verdict_eq_some]
  constructor
  · rintro ⟨_, msg, hm, h⟩
    cases hm
    exact ⟨msg, h⟩
  · exact fun ⟨msg, h⟩ => ⟨m, msg, rfl, h⟩

/-- **The authentication gate.**  A connection registers, for the service it named, and is used,
only if `handle_auth` took its first message, and that proved the secret; such a message leads to
the registration; and where `handle_auth` took another one, or none, the connection is refused. -/
theorem authentication_gate (h : ServerRun serde config tr w) (c : ConnId) :
    (∀ s, .register c s ∈ tr → ∃ m, .conn c (.authRecv m) ∈ tr ∧ .conn c .authTimeout ∉ tr ∧
      (arrived c tr).head? = some m ∧ Admits serde config m s) ∧
    (∀ e ∈ tr, e.Uses c → ∃ s, .register c s ∈ tr) ∧
    (∀ m s, .conn c (.authRecv m) ∈ tr → Admits serde config m s → Registers serde c s tr w) ∧
    (∀ m, .conn c (.authRecv m) ∈ tr → (∀ s, ¬ Admits serde config m s) →
      Refused serde config c tr) ∧
    (.conn c .authTimeout ∈ tr ∨ .conn c .authClosed ∈ tr → Refused serde config c tr) := by
  refine ⟨fun s hreg => ?_, fun e he => register_of_uses h he, fun m s hm hv =>
    registers_of_admitted h hm (verdict_authRecv.mpr hv), fun m hm hv => ?_, fun he => ?_⟩
  · obtain ⟨m, hone, hv⟩ := admitted_of_register h hreg
    obtain ⟨k, hk, -⟩ := World.observe_eq_some ((registeredFor_iff h).mpr hreg)
    obtain ⟨e, he, hd⟩ := Lts.mem_record.mp (hone ▸ List.mem_singleton_self _)
    obtain ⟨rfl, -⟩ := Event.decides_eq_some.mp hd
    refine ⟨m, he, fun ht => ?_, first_message h hk hone, verdict_authRecv.mp hv⟩
    cases hone.symm.trans (decisions_of_mem h rfl ht).1
  · refine refused_of_run h rfl hm (Option.eq_none_iff_forall_ne_some.mpr fun s hs => ?_)
    exact hv s (verdict_authRecv.mp hs)
  · rcases he with he | he
    · exact refused_of_run h rfl he rfl
    · exact refused_of_run h rfl he rfl

/-- A client is registered, and its first message was the auth message. -/
theorem authentication_gate_session : ∃ w, ServerRun compactJson demoConfig (demoSession "q") w ∧
    ∃ m, (arrived 1 (demoSession "q")).head? = some m ∧ Admits compactJson demoConfig m "app" := by
  obtain ⟨w, h⟩ := @exists_run compactJson demoConfig (demoSession "q") (by decide +kernel)
  obtain ⟨m, -, -, hm⟩ := (authentication_gate h 1).1 "app" (by simp [demoSession, registration])
  exact ⟨w, h, m, hm⟩

end Outpunch
