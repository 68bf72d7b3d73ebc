import Outpunch.Server.Gate
import Outpunch.Server.Registry

/-!
# Server — `auth_ok` and the registration

`handle_auth` queues `auth_ok`, and `run` registers the connection after that; in between, the
drain task may already hand `auth_ok` over, and a request that comes then finds no connection
(`auth_ok_before_registration`).  Where the drain task hands nothing over between the two steps of
`run` (`HandsRegistered`), a client that was told `auth_ok` is registered.
-/

namespace Outpunch

variable {serde : SerdeJson} {config : ServerConfig} {tr : List Event} {w : World}

/-- `c`, which proved the secret for `s`, was told so. -/
def AuthOkHanded (serde : SerdeJson) (c : ConnId) (s : String) (tr : List Event) : Prop :=
  .conn c (.check (some s)) ∈ tr ∧ authOkText serde ∈ handed c tr

theorem AuthOkHanded.append {c : ConnId} {s : String} (h : AuthOkHanded serde c s tr)
    (tr' : List Event) : AuthOkHanded serde c s (tr ++ tr') := by
  refine ⟨List.mem_append_left _ h.1, ?_⟩
  rw [handed, Lts.record_append]
  exact List.mem_append_left _ h.2

/-- `auth_ok` means registered: what was told `auth_ok` has registered, and a request made after
that finds the service, unless its connection was displaced or cleaned up. -/
structure AuthOkRegistered (serde : SerdeJson) (tr : List Event) : Prop where
  registered : ∀ {c s}, AuthOkHanded serde c s tr → .register c s ∈ tr
  connected : ∀ {c tr₁ tr₂ tr₃ q incoming},
    tr = tr₁ ++ Event.request q incoming :: tr₂ ++ Event.ret q (.error .notConnected) :: tr₃ →
    AuthOkHanded serde c incoming.service tr₁ →
      Displaced c incoming.service (tr₁ ++ Event.request q incoming :: tr₂) ∨
        .cleanup c incoming.service ∈ tr₁ ++ Event.request q incoming :: tr₂

/-- The drain task hands nothing over while `run` is between its reply and the registration. -/
def HandsRegistered (w : World) (e : Event) : Prop :=
  ∀ c text k s, e = .conn c (.deliver text) ∨ e = .conn c (.panic text) → w.conns c = some k →
    k.phase ≠ .register s

section

variable {c : ConnId}

/-- What is handed over was enqueued. -/
theorem enqueued_of_handed (h : ServerRun serde config tr w) {k : Connection}
    (hk : w.conns c = some k) (hne : handed c tr ≠ []) : enqueued c tr ≠ [] := fun hnil =>
  hne (List.prefix_nil.mp (hnil ▸ (queueInv_of_run h hk).handed_isPrefix))

/-- `run` came to a registration by its reply, or was there before. -/
theorem Connection.Move.register_inv {k k' : Connection} {e : Event} {s : String}
    (hm : Connection.Move serde w c k e k') (hp : k'.phase = .register s) :
    k.phase = .register s ∨ ∃ text, k.phase = .reply text (some s) ∧ e.hands c = none := by
  cases hm with
  | own hs =>
      have hn := hs.next
      generalize hq : k.phase = p at hn
      rw [hp] at hn
      cases hn with
      | stay _ => exact .inl rfl
      | replied he => exact .inr ⟨_, rfl, by rcases he with rfl | rfl <;> rfl⟩
  | register _ | closeReplaced _ _ | respond _ | cleanup _ | runReturned _ _ => cases hp
  | closed _ | drainEnd _ _ _ | send _ | other _ => exact .inl hp

/-- Nothing was handed over when `run` is about to register. -/
theorem handed_of_register
    (h : Lts.Run (Lts.guarded (Step serde) HandsRegistered) (World.new config) tr w)
    {k : Connection} {s : String} (hk : w.conns c = some k) (hp : k.phase = .register s) :
    handed c tr = [] := by
  refine h.invariant (fun tr w => ∀ k, w.conns c = some k → k.phase = .register s →
    handed c tr = []) (fun k hk => by cases hk) (fun {tr w e w'} hr ih hs k' hk' hp' => ?_) k hk hp
  have hr' := hr.of_guarded
  have hw := wf_of_run hr'
  obtain ⟨hs, hok⟩ := hs
  rcases hs.move_inv hw.fresh hw.closesOthers hk' with ⟨-, -, rfl⟩ | ⟨k, hk, hm⟩
  · cases hp'
  · have quiet : e.hands c = none → handed c tr = [] → handed c (tr ++ [e]) = [] := by
      intro he hnil
      have he : handed c (tr ++ [e]) = handed c tr := Lts.record_snoc_of_none he
      rw [he, hnil]
    rcases hm.register_inv hp' with hp | ⟨text, hp, he⟩
    · refine quiet (Option.eq_none_iff_forall_ne_some.mpr fun text he => ?_) (ih k hk hp)
      exact hok c text k s (Event.hands_eq_some.mp he) hk hp
    · obtain ⟨ho, -⟩ := outgoing_of_run hr' hk
      rw [hp] at ho
      refine quiet he ?_
      by_contra hne
      exact enqueued_of_handed hr' hk hne ho.1

/-- A connection whose token was right was admitted by its first message. -/
theorem admitted_of_check (h : ServerRun serde config tr w) {s : String}
    (hc : .conn c (.check (some s)) ∈ tr) :
    ∃ m, .conn c (.authRecv m) ∈ tr ∧ (ConnEvent.authRecv m).verdict serde config = some s := by
  obtain ⟨tr₁, tr₂, u, u', rfl, hr, hs, -⟩ := h.of_mem hc
  obtain ⟨k, k', hk, hs, -⟩ := hs.conn_inv
  have hn := hs.next
  have hdec := decided_of_run hr hk
  rw [config_of_run hr] at hn
  generalize k.phase = p, k'.phase = p' at hn hdec
  cases hn with
  | accept hv =>
      obtain ⟨m, hm, hparse⟩ := hdec
      obtain ⟨e, he, hd⟩ := Lts.mem_record.mp (hm ▸ List.mem_singleton_self _)
      obtain ⟨rfl, -⟩ := Event.decides_eq_some.mp hd
      exact ⟨m, List.mem_append_left _ he, (verdict_of_parse hparse).trans (if_pos hv)⟩
  | stay he => cases he
  | replied he | refused he => rcases he with he | he <;> cases he

/-- What proved the secret and was handed a message has registered, or its `run` is about to. -/
theorem register_of_handed (h : ServerRun serde config tr w) {s : String}
    (hc : .conn c (.check (some s)) ∈ tr) (hne : handed c tr ≠ []) :
    .register c s ∈ tr ∨ ∃ k, w.conns c = some k ∧ k.phase = .register s := by
  obtain ⟨m, hm, hv⟩ := admitted_of_check h hc
  obtain ⟨k, hk, hreg | ⟨msg, hp, -⟩ | ⟨text, hp⟩ | hp⟩ := registered_of_admitted h hm hv
  · exact .inl ((registeredFor_iff h).mp ((World.observe_eq _ hk).trans hreg))
  · refine absurd ?_ (enqueued_of_handed h hk hne)
    have := (outgoing_of_run h hk).queue
    rw [hp] at this; exact this
  · refine absurd ?_ (enqueued_of_handed h hk hne)
    have := (outgoing_of_run h hk).queue
    rw [hp] at this; exact this.1
  · exact .inr ⟨k, hk, hp⟩

/-- A dispatch returns `NotConnected` where its service has no connection. -/
theorem Step.notConnected_inv {w' : World} {q : RequestId}
    (hs : Step serde w (.ret q (.error .notConnected)) w')
    (hf : ∀ d tx, w.dispatches q = some d → d.phase ≠ .failed tx .notConnected) :
    ∃ d, w.dispatches q = some d ∧ w.state.services d.req.service = none := by
  cases hs with
  | notConnected hq _ hs => exact ⟨_, hq, ServerState.park_eq_none.mp hs⟩
  | failed hq hp => exact absurd hp (hf _ _ hq)

/-- `NotConnected` is no error of an exchange. -/
theorem failed_ne_notConnected (h : ServerRun serde config tr w) {q : RequestId} {d : Dispatch}
    (hd : w.dispatches q = some d) (tx : OutgoingTx) : d.phase ≠ .failed tx .notConnected := by
  refine dispatch_invariant (fun _ d => d.phase ≠ .failed tx .notConnected)
    (fun hp => by cases hp) (fun {tr w d e w' d'} _ hd ih hs hm => ?_) h hd
  cases hm with
  | fail _ =>
      intro hp
      cases hp
      cases hs
  | respond _ => unfold Dispatch.answer; split <;> exact ih
  | other _ => exact ih
  | _ => simp

/-- A request finds no connection only where the one that was registered was displaced or cleaned
up. -/
theorem displaced_of_notConnected (h : ServerRun serde config tr w) {w' : World} {q : RequestId}
    {incoming : IncomingRequest} (hin : .request q incoming ∈ tr)
    (hreg : .register c incoming.service ∈ tr)
    (hs : Step serde w (.ret q (.error .notConnected)) w') :
    Displaced c incoming.service tr ∨ .cleanup c incoming.service ∈ tr := by
  obtain ⟨d, hd, hnone⟩ := hs.notConnected_inv fun d tx hd => failed_ne_notConnected h hd tx
  obtain ⟨d', hd', hreq, -⟩ := dispatch_of_request h hin
  cases hd.symm.trans hd'
  rw [hreq, services_eq h] at hnone
  rcases newest_or_displaced hreg with hlast | hdis
  · rw [show (buildTunnelRequest q incoming).service = incoming.service from rfl, hlast,
      Option.bind_some] at hnone
    refine .inr (by_contra fun hc => ?_)
    rw [if_neg hc] at hnone; cases hnone
  · exact .inl hdis

end

/-- **`auth_ok` means registered** in a run whose drain tasks hand nothing over between the reply
and the registration; and a client that proved the secret is handed its next message registered
exactly when that step keeps the condition. -/
theorem auth_ok_means_registered
    (h : Lts.Run (Lts.guarded (Step serde) HandsRegistered) (World.new config) tr w) :
    AuthOkRegistered serde tr ∧
      ∀ c s text w', .conn c (.check (some s)) ∈ tr → Step serde w (.conn c (.deliver text)) w' →
        (.register c s ∈ tr ↔ HandsRegistered w (.conn c (.deliver text))) := by
  have registered : ∀ {tr w c s}, Lts.Run (Lts.guarded (Step serde) HandsRegistered)
      (World.new config) tr w → .conn c (.check (some s)) ∈ tr → handed c tr ≠ [] →
        .register c s ∈ tr := fun h hc hne =>
    (register_of_handed h.of_guarded hc hne).resolve_right fun ⟨k, hk, hp⟩ =>
      hne (handed_of_register h hk hp)
  have told : ∀ {tr w c s}, Lts.Run (Lts.guarded (Step serde) HandsRegistered)
      (World.new config) tr w → AuthOkHanded serde c s tr → .register c s ∈ tr := fun h hh =>
    registered h hh.1 (List.ne_nil_of_mem hh.2)
  refine ⟨⟨told h, fun {c tr₁ tr₂ tr₃ q incoming} htr hh => ?_⟩, fun c s text w' hc hs => ?_⟩
  · subst htr
    obtain ⟨u, u', hr, ⟨hs, -⟩, -⟩ := h.around
    obtain ⟨v, hr₁, -⟩ := Lts.Run.split tr₁ _ hr
    exact displaced_of_notConnected hr.of_guarded (by simp)
      (List.mem_append_left _ (told hr₁ hh)) hs
  · constructor
    · rintro hreg c' text' k s' (he | he) hk hp <;> cases he
      have := (World.observe_eq Phase.registeredFor hk).symm.trans
        ((registeredFor_iff h.of_guarded).mpr hreg)
      rw [hp] at this; cases this
    · intro hok
      have hne : handed c (tr ++ [Event.conn c (.deliver text)]) ≠ [] := by
        have : handed c (tr ++ [Event.conn c (.deliver text)]) = handed c tr ++ [text] :=
          Lts.record_snoc_of_some (if_pos rfl)
        simp [this]
      have := registered (h.snoc ⟨hs, hok⟩) (List.mem_append_left _ hc) hne
      simpa using this

/-- A client is told `auth_ok` once it is registered. -/
theorem auth_ok_means_registered_late : ∃ tr w, ServerRun compactJson demoConfig tr w ∧
    AuthOkHanded compactJson 1 "app" tr ∧ .register 1 "app" ∈ tr := by
  obtain ⟨w, h, hw⟩ := @exists_run_to compactJson demoConfig
    (registration compactJson demoConfig 1 "app")
    (fun w => (w.exec compactJson (.conn 1 (.deliver (authOkText compactJson)))).isSome &&
      (w.conns 1).any fun k => k.phase.registeredFor.isSome) (by decide +kernel)
  obtain ⟨hstep, hphase⟩ := (Bool.and_eq_true _ _).mp hw
  obtain ⟨w', hs⟩ := Option.isSome_iff_exists.mp hstep
  have hs := World.exec_sound hs
  have hguard : Lts.Run (Lts.guarded (Step compactJson) HandsRegistered) (World.new demoConfig) _
      w := h.guard fun e he w c text k s hd => by
    rcases hd with rfl | rfl <;> simp [registration, handshake, pushing] at he
  have hok : HandsRegistered w (.conn 1 (.deliver (authOkText compactJson))) := by
    rintro c text k s (he | he) hk hp <;> cases he
    simp [hk, hp, Phase.registeredFor] at hphase
  have hh : AuthOkHanded compactJson 1 "app" (registration compactJson demoConfig 1 "app" ++
      [.conn 1 (.deliver (authOkText compactJson))]) :=
    ⟨by simp [registration, handshake], mem_handed.mpr (.inl (by simp))⟩
  have hrun := hguard.snoc ⟨hs, hok⟩
  exact ⟨_, w', hrun.of_guarded, hh, (auth_ok_means_registered hrun).1.registered hh⟩

/-- **`auth_ok` may come before the registration**: here the client is told, and the request made
then finds no connection. -/
theorem auth_ok_before_registration : ∃ tr w, ServerRun compactJson demoConfig tr w ∧
    (∃ tr₁ q incoming, tr = tr₁ ++ [Event.request q incoming, .ret q (.error .notConnected)] ∧
      AuthOkHanded compactJson 1 incoming.service tr₁) ∧
    (∀ c s, .register c s ∉ tr) ∧ (∀ c s, .cleanup c s ∉ tr) ∧
    ¬ AuthOkRegistered compactJson tr := by
  obtain ⟨w, h⟩ := @exists_run compactJson demoConfig
    (handshake compactJson demoConfig 1 "app" ++
      [Event.conn 1 (.deliver (authOkText compactJson))] ++
      [.request "q" demoRequest, .ret "q" (.error .notConnected)]) (by decide +kernel)
  have hh : AuthOkHanded compactJson 1 demoRequest.service (handshake compactJson demoConfig 1
      "app" ++ [Event.conn 1 (.deliver (authOkText compactJson))]) :=
    ⟨by simp [handshake, demoRequest], mem_handed.mpr (.inl (by simp))⟩
  refine ⟨_, w, h, ⟨_, _, _, rfl, hh⟩, ?_, ?_, fun hno => ?_⟩
  · simp [handshake, pushing]
  · simp [handshake, pushing]
  · have := hno.registered (hh.append _)
    simp [handshake, pushing] at this

end Outpunch
