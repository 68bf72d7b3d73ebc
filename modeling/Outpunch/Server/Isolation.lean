import Outpunch.Server.Scope

/-!
# Server — isolation of services

For a service `s`, `isolated s tr` is what is left of a history when every step of a connection
that never authenticates for `s`, and of a request to another service, is erased, and the
connections that are left are numbered anew.  It is the history of a run, and every request to `s`
returns in it what it returns in the whole run (`isolation`).

The scope of the proof is fixed by the whole history, so it has to fit every state on the way: a
connection is admitted to one service at most, by the check of its token (`checked_of_run`), and a
request is made once.
-/

namespace Outpunch

variable {serde : SerdeJson} {config : ServerConfig} {tr : List Event} {w : World}

/-! ### What is left of a history -/

/-- The request `q` is made, and to the service `s`. -/
def Event.addresses (s : String) (q : RequestId) : Event → Bool
  | .request q' incoming => q' = q && incoming.service = s
  | _ => false

/-- The connections that authenticate for `s` in `tr`, and the requests to it. -/
def scope (s : String) (tr : List Event) : Scope where
  service := s
  conns c := Event.conn c (.check (some s)) ∈ tr
  requests q := tr.any (Event.addresses s q)

/-- What is left of a history when the other services are erased. -/
def isolated (s : String) (tr : List Event) : List Event := Lts.record (scope s tr).keep tr

theorem scope_conns {s : String} {c : ConnId} :
    (scope s tr).conns c ↔ .conn c (.check (some s)) ∈ tr := decide_eq_true_iff

theorem scope_requests {s : String} {q : RequestId} :
    (scope s tr).requests q ↔ ∃ incoming, .request q incoming ∈ tr ∧ incoming.service = s := by
  rw [scope, List.any_eq_true]
  constructor
  · rintro ⟨e, he, hadd⟩
    cases e with
    | request q' incoming =>
        obtain ⟨hq, hs⟩ := Bool.and_eq_true_iff.mp hadd
        exact ⟨incoming, of_decide_eq_true hq ▸ he, of_decide_eq_true hs⟩
    | _ => cases hadd
  · rintro ⟨incoming, hin, hs⟩
    exact ⟨_, hin, Bool.and_eq_true_iff.mpr ⟨decide_eq_true rfl, decide_eq_true hs⟩⟩

/-! ### The scope fits every state of the run -/

/-- `run` has accepted a service when it had, or checks the token now. -/
theorem Phase.Next.accepted {p p' : Phase} {e : ConnEvent} (h : Phase.Next serde config p e p')
    {s : String} : p'.outcome = .accepted s ↔ p.outcome = .accepted s ∨ e = .check (some s) := by
  cases h with
  | stay he => exact (or_iff_left fun h => by rw [h] at he; cases he).symm
  | authRecv _ | authReject _ | refuse _ | response _ | ignore _ => simp [outcome]
  | accept _ => simp [outcome, eq_comm]
  | replied he | refused he => rcases he with rfl | rfl <;> simp [outcome]
  | @dropOutgoing o => cases o <;> simp [outcome]
  | _ => simp [outcome]

/-- **A connection was accepted by the check of its token.** -/
theorem checked_of_run (h : ServerRun serde config tr w) {c : ConnId} {k : Connection}
    (hk : w.conns c = some k) {s : String} :
    k.phase.outcome = .accepted s ↔ .conn c (.check (some s)) ∈ tr := by
  refine conn_invariant (fun tr k => k.phase.outcome = .accepted s ↔
    .conn c (.check (some s)) ∈ tr) (fun hno => ?_) (fun {tr w k e w' k'} hr hk ih hs hm => ?_) h hk
  · refine iff_of_false (fun h => by cases h) fun hin => ?_
    rcases List.mem_append.mp hin with hin | hin
    · exact hno _ hin rfl
    · cases List.mem_singleton.mp hin
  · -- an event that is no check, and leaves the outcome as it was
    have same : e ≠ .conn c (.check (some s)) → k'.phase.outcome = k.phase.outcome →
        (k'.phase.outcome = .accepted s ↔ .conn c (.check (some s)) ∈ tr ++ [e]) := by
      intro he ho
      rw [ho, ih, List.mem_append, List.mem_singleton]
      exact (or_iff_left he.symm).symm
    cases hm with
    | own hs =>
        rw [hs.next.accepted, ih, List.mem_append, List.mem_singleton, Event.conn.injEq]
        exact or_congr_right ⟨fun h => ⟨rfl, h.symm⟩, fun h => h.2.symm⟩
    | register hp | closeReplaced hp _ | respond hp | cleanup hp =>
        exact same (by simp) (by rw [hp]; rfl)
    | @runReturned o hp _ => exact same (by simp) (by rw [hp]; cases o <;> rfl)
    | other hno => exact same (fun e => hno (e ▸ rfl)) rfl
    | _ => exact same (by simp) rfl

/-- A connection is accepted for one service. -/
theorem checked_unique (h : ServerRun serde config tr w) {c : ConnId} {s s' : String}
    (hc : .conn c (.check (some s)) ∈ tr) (hc' : .conn c (.check (some s')) ∈ tr) : s = s' := by
  cases hk : w.conns c with
  | none => exact absurd rfl (not_concerns_of_absent h hk _ hc)
  | some k =>
      have hs := (checked_of_run h hk).mpr hc
      rw [(checked_of_run h hk).mpr hc'] at hs
      exact (Outcome.accepted.inj hs).symm

/-- A request is made once. -/
theorem requested_unique (h : ServerRun serde config tr w) {q : RequestId}
    {incoming incoming' : IncomingRequest} (hq : .request q incoming ∈ tr)
    (hq' : .request q incoming' ∈ tr) : incoming.service = incoming'.service := by
  obtain ⟨d, hd, hreq, -⟩ := dispatch_of_request h hq
  obtain ⟨d', hd', hreq', -⟩ := dispatch_of_request h hq'
  cases hd.symm.trans hd'
  exact congrArg TunnelRequest.service (hreq.symm.trans hreq')

theorem scope_requests_of_mem (h : ServerRun serde config tr w) {s : String} {q : RequestId}
    {incoming : IncomingRequest} (hq : .request q incoming ∈ tr) :
    (scope s tr).requests q ↔ incoming.service = s := by
  rw [scope_requests]
  exact ⟨fun ⟨_, hq', hs⟩ => (requested_unique h hq hq').trans hs, fun hs => ⟨incoming, hq, hs⟩⟩

/-- The scope of a history fits the states the history passes. -/
theorem scope_fits (h : ServerRun serde config tr w) (s : String) {tr₁ tr₂ : List Event}
    {u : World} (htr : tr = tr₁ ++ tr₂) (hu : ServerRun serde config tr₁ u) :
    (scope s tr).Fits u where
  wf := wf_of_run hu
  accepted hk hacc := by
    have hc := htr ▸ List.mem_append_left tr₂ ((checked_of_run hu hk).mp hacc)
    rw [scope_conns]
    exact ⟨fun hs => checked_unique h hc hs, fun hs => by rwa [show _ = s from hs] at hc⟩
  requested hd := by
    obtain ⟨incoming, hq, hreq, -⟩ := requested_of_run hu hd
    rw [hreq]
    exact scope_requests_of_mem h (htr ▸ List.mem_append_left tr₂ hq)

/-- The ids of connections start at one. -/
theorem zero_of_run (h : ServerRun serde config tr w) : 0 < w.nextConnId ∧ w.conns 0 = none := by
  refine h.invariant (fun _ w => 0 < w.nextConnId ∧ w.conns 0 = none) ⟨Nat.one_pos, rfl⟩
    fun {tr w e w'} hr ih hs => ⟨?_, Option.eq_none_iff_forall_ne_some.mpr fun k hk => ?_⟩
  · cases hs with
    | create => exact Nat.succ_pos _
    | _ => exact ih.1
  · have hw := wf_of_run hr
    rcases hs.move_inv hw.fresh hw.closesOthers hk with ⟨-, rfl, -⟩ | ⟨k, hk, -⟩
    · generalize he : Event.create 0 = e at hs
      cases hs with
      | create => exact Nat.lt_irrefl 0 (Event.create.inj he ▸ ih.1)
      | _ => cases he
    · rw [ih.2] at hk; cases hk

/-- What is left of a server just made is one just made. -/
theorem scope_new (h : ServerRun serde config tr w) (s : String) :
    (scope s tr).world (World.new config) = World.new config := by
  have hzero : ¬ (scope s tr).conns 0 := fun hc =>
    not_concerns_of_absent h (zero_of_run h).2 _ (scope_conns.mp hc) rfl
  have hname : (scope s tr).name 1 = 1 := by
    rw [Scope.name_succ (c := 0), if_neg hzero]; rfl
  have hempty : ∀ {κ κ' α β : Type} (f : κ ≃. κ') (g : α → β),
      (PartialMap.empty : PartialMap κ α).transport f g = PartialMap.empty :=
    fun f g => funext fun k => by cases hk : f.symm k <;> simp [PartialMap.transport, hk]
  rw [Scope.world, Scope.state]
  simp only [World.new, ServerState.new, hempty, hname]

/-! ### The theorem -/

theorem mem_isolated_ret {s : String} {q : RequestId} (hq : (scope s tr).requests q)
    {r : Except TunnelError TunnelResponse} : .ret q r ∈ isolated s tr ↔ .ret q r ∈ tr := by
  rw [isolated, Lts.mem_record]
  constructor
  · rintro ⟨e, he, hk⟩
    obtain ⟨-, hk⟩ := Option.ite_none_right_eq_some.mp hk
    cases e with
    | ret q' r' => cases hk; exact he
    | _ => cases hk
  · exact fun he => ⟨_, he, if_pos hq⟩

/-- What is left of a run is a run of what is left of the server. -/
theorem run_isolated (h : ServerRun serde config tr w) (s : String) :
    ServerRun serde config (isolated s tr) ((scope s tr).world w) := by
  suffices hsim : ∃ v, ServerRun serde config (isolated s tr) v ∧ (scope s tr).world w = v by
    obtain ⟨v, hv, rfl⟩ := hsim
    exact hv
  refine h.simulate (scope s tr).keep (fun u v => (scope s tr).world u = v) (scope s tr).Fits
    (scope_fits h s) (fun {u v e u'} hR hI he hs => ?_) (scope_new h s)
  subst hR
  have hsim := Scope.simulates_of_step hs hI fun q incoming heq =>
    scope_requests_of_mem h (heq ▸ he)
  unfold Scope.Simulates at hsim
  cases hk : (scope s tr).keep e with
  | none => rwa [hk] at hsim
  | some e' =>
      rw [hk] at hsim
      exact ⟨_, hsim, rfl⟩

/-- **Isolation between services.**  With every step of the connections that never authenticate
for `s` erased, and every request to another service, the rest is still a run, in which each
request to `s` returns the same and stands where it stood.  The connections that are left have
names of their own. -/
theorem isolation (h : ServerRun serde config tr w) (s : String) :
    ∃ v, ServerRun serde config (isolated s tr) v ∧
      (∀ c c', .conn c (.check (some s)) ∈ tr → .conn c' (.check (some s)) ∈ tr →
        (scope s tr).name c = (scope s tr).name c' → c = c') ∧
      ∀ q incoming, .request q incoming ∈ tr → incoming.service = s →
        (∀ r, .ret q r ∈ isolated s tr ↔ .ret q r ∈ tr) ∧
        v.dispatches q = (w.dispatches q).map (Dispatch.rename (scope s tr).name) := by
  refine ⟨_, run_isolated h s, fun c c' hc hc' => Scope.name_injective (scope_conns.mpr hc)
    (scope_conns.mpr hc'), fun q incoming hq hs => ?_⟩
  have hreq := (scope_requests_of_mem h hq).mpr hs
  exact ⟨fun r => mem_isolated_ret hreq, Scope.world_dispatches hreq⟩

/-- The session of a client, after another client has connected for a service of its own. -/
theorem isolation_neighbour :
    ∃ v, ServerRun compactJson demoConfig (demoSession "q") v ∧
      .ret "q" (.ok (demoResponse "q")) ∈ demoSession "q" := by
  obtain ⟨w, h⟩ := @exists_run compactJson demoConfig
    (registration compactJson demoConfig 1 "web" ++ registration compactJson demoConfig 2 "app" ++
      dispatching compactJson 2 "q" demoRequest ++ answering compactJson 2 1 (demoResponse "q"))
    (by decide +kernel)
  obtain ⟨v, hv, -, hret⟩ := isolation h "app"
  have hiso : isolated "app" (registration compactJson demoConfig 1 "web" ++
      registration compactJson demoConfig 2 "app" ++ dispatching compactJson 2 "q" demoRequest ++
      answering compactJson 2 1 (demoResponse "q")) = demoSession "q" := by decide +kernel
  rw [hiso] at hv hret
  refine ⟨v, hv, ((hret "q" demoRequest ?_ rfl).1 _).mpr ?_⟩
  · decide +kernel
  · decide +kernel

end Outpunch
