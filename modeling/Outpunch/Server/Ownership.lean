import Outpunch.Server.Exec
import Outpunch.Server.History

/-!
# Server — a response belongs to its request

Any client may push any text, responses to other clients' requests included.  Still, what a
dispatch returns was parsed from a message its own connection took, after the request was parked
under that connection (`answered_of_run`); a message answers at most one dispatch and a dispatch
is answered by at most one message (`completions_nodup`, from the numbers of the messages a
connection still carries); and a response nobody waits for from this connection leaves the two
maps as they are.
-/

namespace Outpunch

variable {serde : SerdeJson} {config : ServerConfig} {tr : List Event} {w : World}

/-! ### Where a response comes from -/

/-- In `tr`, `q` was parked under `c`, which later handled the response `r`, taken from `m`, and
answered `q` with it. -/
def AnsweredBy (serde : SerdeJson) (tr : List Event) (q : RequestId) (r : TunnelResponse)
    (c : ConnId) (m : Pushed) : Prop :=
  [.assign q c c, .respond c m r (some q)].Sublist tr ∧
    [.conn c (.relayRecv m), .respond c m r (some q)].Sublist tr ∧
    parseMessage serde m.text = .ok (.response r)

theorem AnsweredBy.mono {q : RequestId} {r : TunnelResponse} {c : ConnId} {m : Pushed}
    (h : AnsweredBy serde tr q r c m) (post : List Event) :
    AnsweredBy serde (tr ++ post) q r c m :=
  ⟨h.1.trans (List.sublist_append_left ..), h.2.1.trans (List.sublist_append_left ..), h.2.2⟩

theorem sublist_pair_snoc {α : Type} {l : List α} {a b : α} (h : a ∈ l) :
    [a, b].Sublist (l ++ [b]) :=
  (List.singleton_sublist.mpr h).append (List.Sublist.refl [b])

/-- What lies in the oneshot channel of a dispatch was sent there by the connection the dispatch
was assigned to. -/
theorem answered_of_run (h : ServerRun serde config tr w) {q : RequestId} {d : Dispatch}
    {r : TunnelResponse} (hd : w.dispatches q = some d) (hr : d.resp = some r) :
    r.requestId = q ∧ ∃ c m, AnsweredBy serde tr q r c m := by
  refine dispatch_invariant (fun tr d => d.resp = some r →
    r.requestId = q ∧ ∃ c m, AnsweredBy serde tr q r c m) (fun hr => by cases hr)
    (fun {tr w d e w' d'} hrun hd ih hs hm hr' => ?_) h hd hr
  have old : d.resp = some r → r.requestId = q ∧ ∃ c m, AnsweredBy serde (tr ++ [e]) q r c m :=
    fun hr => by
      obtain ⟨hq, c, m, ha⟩ := ih hr
      exact ⟨hq, c, m, ha.mono _⟩
  cases hm with
  | @respond c m r' _ =>
      unfold Dispatch.answer at hr'
      split at hr'
      · cases hr'
        obtain ⟨rfl, hpend, -⟩ := hs.respond_some_inv (wf_of_run hrun)
        obtain ⟨k, s, hk, hp⟩ := hs.respond_inv.1
        obtain ⟨hrecv, hparse⟩ := relayRecv_of_respond hrun hk hp
        exact ⟨rfl, c, m, sublist_pair_snoc (assign_of_pending hrun hpend),
          sublist_pair_snoc hrecv, hparse⟩
      · exact old hr'
  | _ => exact old hr'

/-! ### Messages and dispatches complete each other once -/

/-- The message an event completes a dispatch with, by its connection and number, and the
dispatch. -/
def Event.completes : Event → Option ((ConnId × Nat) × RequestId)
  | .respond c m _ (some q) => some ((c, m.n), q)
  | _ => none

def completions (tr : List Event) : List ((ConnId × Nat) × RequestId) :=
  Lts.record Event.completes tr

theorem completions_snoc (e : Event) :
    completions (tr ++ [e]) = completions tr ++ e.completes.toList := Lts.record_snoc

/-- The number of the message the relay loop is handling. -/
def Phase.handling : Phase → List Nat
  | .respond _ m _ => [m.n]
  | _ => []

/-- The numbers of the messages a connection carries: those being pushed, the one its relay loop
is handling, and those queued. -/
def Connection.carried (k : Connection) : List Nat :=
  k.pushing.map Pushed.n ++ k.phase.handling ++ k.incoming.map Pushed.n

theorem Phase.Next.handling {p p' : Phase} {e : ConnEvent} (h : Phase.Next serde config p e p')
    (he : ∀ m, e ≠ .relayRecv m) : p'.handling = p.handling := by
  cases h with
  | response _ | ignore _ => exact absurd rfl (he _)
  | _ => rfl

/-- A connection's own step brings at most the message of a new call into it. -/
theorem Connection.Step.carried {k k' : Connection} {e : ConnEvent}
    (h : Connection.Step serde config k e k') :
    (k'.carried.Subperm k.carried ∧ k'.pushed = k.pushed) ∨
      (k'.carried.Perm (k.pushed :: k.carried) ∧ k'.pushed = k.pushed + 1) := by
  have hh := h.next.handling
  cases h with
  | @push m hn _ =>
      refine .inr ⟨?_, rfl⟩
      simp only [Connection.carried, List.map_append, List.map_cons, List.map_nil, hn,
        List.append_assoc]
      exact List.perm_middle
  | @sent m hm _ _ =>
      refine .inl ⟨List.Perm.subperm ?_, rfl⟩
      have hperm := (List.perm_cons_erase hm).map Pushed.n
      simp only [Connection.carried, List.map_append, List.map_cons, List.map_nil]
      rw [← List.append_assoc]
      refine List.perm_append_comm.trans ?_
      exact (hperm.symm.append_right _).append_right _
  | gone _ =>
      refine .inl ⟨List.Sublist.subperm ?_, rfl⟩
      exact ((List.erase_sublist.map _).append_right _).append_right _
  | authRecv hp hi =>
      refine .inl ⟨List.Sublist.subperm ?_, rfl⟩
      unfold Connection.carried
      rw [hh (by simp), hi]
      exact ((List.sublist_cons_self _ _).map _).append_left _
  | @relayRecv s m rest hp hi =>
      refine .inl ⟨List.Sublist.subperm ?_, rfl⟩
      have hcur : (Connection.relayNext serde s m).handling.Sublist [m.n] := by
        rcases Connection.relayNext_cases s m with ⟨r, -, e⟩ | ⟨-, e⟩ <;> rw [e]
        · exact List.Sublist.refl _
        · exact List.nil_sublist _
      simp only [Connection.carried, hp, hi, Phase.handling, List.append_nil, List.map_cons,
        List.append_assoc]
      exact (hcur.append_right _).append_left _
  | _ =>
      refine .inl ⟨List.Perm.subperm (.of_eq ?_), rfl⟩
      unfold Connection.carried
      rw [hh (by simp)]

/-- The messages that completed a dispatch are spent: none is carried any more, and all were
pushed. -/
structure Spent (tr : List Event) (w : World) : Prop where
  carried : ∀ {c k}, w.conns c = some k → k.carried.Nodup ∧
    ∀ n ∈ k.carried, n < k.pushed ∧ (c, n) ∉ (completions tr).map Prod.fst
  pushed : ∀ {c n}, (c, n) ∈ (completions tr).map Prod.fst → ∃ k, w.conns c = some k ∧ n < k.pushed
  message : ((completions tr).map Prod.fst).Nodup
  answered : ∀ {q}, q ∈ (completions tr).map Prod.snd → w.state.pending q = none ∧
    ∃ d, w.dispatches q = some d ∧ d.phase ≠ .locking
  dispatch : ((completions tr).map Prod.snd).Nodup

/-- A connection's move carries no message on that it has just completed a dispatch with. -/
theorem Connection.Move.carried {c : ConnId} {k k' : Connection} {e : Event}
    (hm : Connection.Move serde w c k e k') :
    (∃ m r tx, e = .respond c m r tx ∧ k.carried.Perm (m.n :: k'.carried) ∧ k'.pushed = k.pushed) ∨
      (∀ m r tx, e ≠ .respond c m r tx) ∧
        ((k'.carried.Subperm k.carried ∧ k'.pushed = k.pushed) ∨
          (k'.carried.Perm (k.pushed :: k.carried) ∧ k'.pushed = k.pushed + 1)) := by
  cases hm with
  | own hs => exact .inr ⟨by simp, hs.carried⟩
  | respond hp =>
      refine .inl ⟨_, _, _, rfl, ?_, rfl⟩
      simp only [Connection.carried, hp, Phase.handling, List.append_nil, List.append_assoc]
      exact List.perm_middle
  | register hp | closeReplaced hp _ | cleanup hp | runReturned hp _ =>
      refine .inr ⟨by simp, .inl ⟨List.Perm.subperm (.of_eq ?_), rfl⟩⟩
      simp only [Connection.carried, hp, Phase.handling]
  | closed hne | drainEnd _ _ _ | send _ =>
      exact .inr ⟨by simp, .inl ⟨List.Subperm.refl _, rfl⟩⟩
  | other h =>
      refine .inr ⟨?_, .inl ⟨List.Subperm.refl _, rfl⟩⟩
      rintro m r tx rfl
      exact h rfl

theorem Event.completes_eq_some {e : Event} {x : (ConnId × Nat) × RequestId} :
    e.completes = some x ↔ ∃ c m r q, e = .respond c m r (some q) ∧ x = ((c, m.n), q) := by
  constructor
  · intro h
    cases e with
    | respond c m r tx =>
        cases tx with
        | none => cases h
        | some q => cases h; exact ⟨c, m, r, q, rfl, rfl⟩
    | _ => cases h
  · rintro ⟨c, m, r, q, rfl, rfl⟩; rfl

theorem mem_completions_snoc {e : Event} {x : (ConnId × Nat) × RequestId} :
    x ∈ completions (tr ++ [e]) ↔ x ∈ completions tr ∨
      ∃ c m r q, e = .respond c m r (some q) ∧ x = ((c, m.n), q) := by
  rw [completions_snoc, List.mem_append, Option.mem_toList, Event.completes_eq_some]

section

variable {w' : World} {e : Event}

/-- A message just handled was carried until then. -/
theorem Step.respond_carried {c : ConnId} {m : Pushed} {r : TunnelResponse}
    {tx : Option ResponseTx} (hs : Step serde w (.respond c m r tx) w') :
    ∃ k, w.conns c = some k ∧ m.n ∈ k.carried := by
  obtain ⟨k, s, hk, hp⟩ := hs.respond_inv.1
  exact ⟨k, hk, by simp [Connection.carried, hp, Phase.handling]⟩

theorem Spent.carried_step (hs : Step serde w e w') (hw : w.Wf) (h : Spent tr w) {c : ConnId}
    {k' : Connection} (hk' : w'.conns c = some k') : k'.carried.Nodup ∧
      ∀ n ∈ k'.carried, n < k'.pushed ∧ (c, n) ∉ (completions (tr ++ [e])).map Prod.fst := by
  have fresh : ∀ {n}, (c, n) ∉ (completions tr).map Prod.fst →
      (∀ m r tx, e = .respond c m r tx → n ≠ m.n) →
      (c, n) ∉ (completions (tr ++ [e])).map Prod.fst := by
    intro n hold hnew hmem
    obtain ⟨x, hx, hxn⟩ := List.mem_map.mp hmem
    rcases mem_completions_snoc.mp hx with hx | ⟨c', m, r, q, rfl, rfl⟩
    · exact hold (List.mem_map.mpr ⟨x, hx, hxn⟩)
    · obtain ⟨rfl, rfl⟩ := Prod.mk.inj hxn
      exact hnew m r _ rfl rfl
  rcases hs.move_inv hw.fresh hw.closesOthers hk' with ⟨-, -, rfl⟩ | ⟨k, hk, hm⟩
  · exact ⟨List.nodup_nil, fun n hn => by cases hn⟩
  · obtain ⟨hnd, hall⟩ := h.carried hk
    rcases hm.carried with ⟨m, r, tx, rfl, hperm, hpu⟩ | ⟨hne, ⟨hsub, hpu⟩ | ⟨hperm, hpu⟩⟩
    · obtain ⟨hnot, hnd'⟩ := List.nodup_cons.mp (hperm.nodup_iff.mp hnd)
      refine ⟨hnd', fun n hn => ?_⟩
      obtain ⟨hlt, hold⟩ := hall n (hperm.symm.subset (List.mem_cons_of_mem _ hn))
      refine ⟨hpu ▸ hlt, fresh hold fun m' r' tx' he hnm => hnot ?_⟩
      cases he
      exact hnm ▸ hn
    · refine ⟨?_, fun n hn => ?_⟩
      · obtain ⟨l, hl, hsl⟩ := hsub
        exact hl.nodup_iff.mp (hsl.nodup hnd)
      · obtain ⟨hlt, hold⟩ := hall n (hsub.subset hn)
        exact ⟨hpu ▸ hlt, fresh hold fun m r tx he => absurd he (hne m r tx)⟩
    · have hnew : k.pushed ∉ k.carried := fun hmem => absurd (hall _ hmem).1 (Nat.lt_irrefl _)
      refine ⟨hperm.nodup_iff.mpr (List.nodup_cons.mpr ⟨hnew, hnd⟩), fun n hn => ?_⟩
      rcases List.mem_cons.mp (hperm.subset hn) with rfl | hn
      · refine ⟨hpu ▸ Nat.lt_succ_self _, fresh (fun hmem => ?_) fun m r tx he =>
          absurd he (hne m r tx)⟩
        obtain ⟨k₁, hk₁, hlt⟩ := h.pushed hmem
        cases hk.symm.trans hk₁
        exact absurd hlt (Nat.lt_irrefl _)
      · obtain ⟨hlt, hold⟩ := hall n hn
        exact ⟨hpu ▸ Nat.lt_succ_of_lt hlt, fresh hold fun m r tx he => absurd he (hne m r tx)⟩

theorem Spent.pushed_step (hs : Step serde w e w') (hw : w.Wf) (h : Spent tr w) {c : ConnId}
    {n : Nat} (hmem : (c, n) ∈ (completions (tr ++ [e])).map Prod.fst) :
    ∃ k', w'.conns c = some k' ∧ n < k'.pushed := by
  have grow : ∀ {k}, w.conns c = some k → n < k.pushed →
      ∃ k', w'.conns c = some k' ∧ n < k'.pushed := by
    intro k hk hlt
    obtain ⟨k', hk', hm⟩ := hs.move hw.fresh hw.closesOthers hk
    refine ⟨k', hk', ?_⟩
    rcases hm.carried with ⟨_, _, _, -, -, hpu⟩ | ⟨-, ⟨-, hpu⟩ | ⟨-, hpu⟩⟩ <;> omega
  obtain ⟨x, hx, hxn⟩ := List.mem_map.mp hmem
  rcases mem_completions_snoc.mp hx with hx | ⟨c', m, r, q, rfl, rfl⟩
  · obtain ⟨k, hk, hlt⟩ := h.pushed (List.mem_map.mpr ⟨x, hx, hxn⟩)
    exact grow hk hlt
  · obtain ⟨rfl, rfl⟩ := Prod.mk.inj hxn
    obtain ⟨k, hk, hn⟩ := hs.respond_carried
    exact grow hk ((h.carried hk).2 _ hn).1

theorem Spent.answered_step (hs : Step serde w e w') (hw : w.Wf) (h : Spent tr w) {q : RequestId}
    (hmem : q ∈ (completions (tr ++ [e])).map Prod.snd) :
    w'.state.pending q = none ∧ ∃ d, w'.dispatches q = some d ∧ d.phase ≠ .locking := by
  have started : ∀ {d}, w.dispatches q = some d → d.phase ≠ .locking →
      ∃ d', w'.dispatches q = some d' ∧ d'.phase ≠ .locking := by
    intro _ hd hp
    obtain ⟨d', hd', hm⟩ := hs.dispatch_move hd
    exact ⟨d', hd', hm.ne_locking hp⟩
  obtain ⟨x, hx, hxq⟩ := List.mem_map.mp hmem
  rcases mem_completions_snoc.mp hx with hx | ⟨c, m, r, q', rfl, rfl⟩
  · obtain ⟨hpend, d, hd, hp⟩ := h.answered (List.mem_map.mpr ⟨x, hx, hxq⟩)
    exact ⟨hs.pending_none hw hd hp hpend, started hd hp⟩
  · cases hxq
    obtain ⟨-, hpend, hnone⟩ := hs.respond_some_inv hw
    obtain ⟨-, d, hd, -, hp, -⟩ := hw.pending hpend
    exact ⟨hnone, started hd (by rintro e; rw [e] at hp; rcases hp with hp | hp <;> cases hp)⟩

theorem Spent.step (hs : Step serde w e w') (hw : w.Wf) (h : Spent tr w) :
    Spent (tr ++ [e]) w' where
  carried := h.carried_step hs hw
  pushed := h.pushed_step hs hw
  answered := h.answered_step hs hw
  message := by
    rw [completions_snoc, List.map_append]
    cases hx : e.completes with
    | none => simpa using h.message
    | some x =>
        obtain ⟨c, m, r, q, rfl, rfl⟩ := Event.completes_eq_some.mp hx
        obtain ⟨k, hk, hn⟩ := hs.respond_carried
        refine List.nodup_append_comm.mp (List.nodup_cons.mpr ⟨?_, h.message⟩)
        exact ((h.carried hk).2 _ hn).2
  dispatch := by
    rw [completions_snoc, List.map_append]
    cases hx : e.completes with
    | none => simpa using h.dispatch
    | some x =>
        obtain ⟨c, m, r, q, rfl, rfl⟩ := Event.completes_eq_some.mp hx
        obtain ⟨-, hpend, -⟩ := hs.respond_some_inv hw
        refine List.nodup_append_comm.mp (List.nodup_cons.mpr ⟨fun hmem => ?_, h.dispatch⟩)
        rw [(h.answered hmem).1] at hpend; cases hpend

end

theorem spent_of_run (h : ServerRun serde config tr w) : Spent tr w :=
  h.invariant Spent
    { carried := fun h => by cases h
      pushed := fun h => by cases h
      message := List.nodup_nil
      answered := fun h => by cases h
      dispatch := List.nodup_nil }
    fun hr h hs => h.step hs (wf_of_run hr)

/-! ### Messages nobody waits for -/

/-- After `tr`, in `w`, no answer to `q` is expected from `c`: `c` has no entry of its own for `q`
(it was never generated, say, or has not looked its service up yet), or `q` was answered, has
returned, or was assigned to another connection. -/
def Stale (tr : List Event) (w : World) (c : ConnId) (q : RequestId) : Prop :=
  (∀ p, w.state.pending q = some p → p.connId ≠ c) ∨ (∃ c' m r, .respond c' m r (some q) ∈ tr) ∨
    (∃ r, .ret q r ∈ tr) ∨ ∃ c' tx, .assign q c' tx ∈ tr ∧ c' ≠ c

/-- A stale id has no entry, or another connection's. -/
theorem Stale.not_ours (h : ServerRun serde config tr w) {c : ConnId} {q : RequestId}
    (hst : Stale tr w c q) {p : PendingRequest} (hp : w.state.pending q = some p) :
    p.connId ≠ c := by
  obtain ⟨-, d, hd, -, hph, -⟩ := (wf_of_run h).pending hp
  rcases hst with hown | ⟨c', m, r, ha⟩ | ⟨r, hr⟩ | ⟨c', tx, ha, hne⟩
  · exact hown p hp
  · have hmem : q ∈ (completions tr).map Prod.snd :=
      List.mem_map.mpr ⟨_, Lts.mem_record.mpr ⟨_, ha, rfl⟩, rfl⟩
    rw [((spent_of_run h).answered hmem).1] at hp; cases hp
  · obtain ⟨d', hd', hp'⟩ := returned_of_run h hr
    cases hd.symm.trans hd'
    rw [hp'] at hph
    rcases hph with hph | hph <;> cases hph
  · exact assigned_unique h ha (assign_of_pending h hp) ▸ hne

/-- Handling a response whose id has no entry, or another connection's, changes neither map. -/
theorem Step.respond_unchanged {w' : World} {c : ConnId} {m : Pushed} {r : TunnelResponse}
    {tx : Option ResponseTx} (hs : Step serde w (.respond c m r tx) w') (hw : w.Wf)
    (hno : ∀ p, w.state.pending r.requestId = some p → p.connId ≠ c) :
    tx = none ∧ w'.state.services = w.state.services ∧ w'.state.pending = w.state.pending := by
  have hcl := ServerState.claim_eq_none hno
  refine ⟨?_, hs.services, ?_⟩
  · rw [hs.respond_inv.2, hcl]
  · rw [hs.pending hw, Event.onPending, hcl]

/-- **Response ownership.**  What a dispatch returns was sent by the connection it was assigned
to, after it was; messages and dispatches complete each other at most once; and whatever is pushed
and taken changes neither map, unless it is a response to a request its connection still owes. -/
theorem response_ownership (h : ServerRun serde config tr w) :
    (∀ pre q r post, tr = pre ++ Event.ret q (.ok r) :: post →
      r.requestId = q ∧ ∃ c m, AnsweredBy serde pre q r c m ∧
        ∀ c' tx, .assign q c' tx ∈ tr → c' = c ∧ tx = c) ∧
    ((completions tr).map Prod.fst).Nodup ∧
    ((completions tr).map Prod.snd).Nodup ∧
    (∀ c e w', Step serde w (.conn c e) w' →
      w'.state.services = w.state.services ∧ w'.state.pending = w.state.pending) ∧
    (∀ c m w', Step serde w (.conn c (.relayRecv m)) w' →
      (∀ r, parseMessage serde m.text ≠ .ok (.response r)) →
      ∃ s k, w'.conns c = some k ∧ k.phase = .relay s) ∧
    (∀ c m r tx w', Step serde w (.respond c m r tx) w' → Stale tr w c r.requestId →
      tx = none ∧ w'.state.services = w.state.services ∧ w'.state.pending = w.state.pending) := by
  refine ⟨?_, (spent_of_run h).message, (spent_of_run h).dispatch, ?_, ?_, ?_⟩
  · rintro pre q r post rfl
    obtain ⟨u, u', hpre, hs, -⟩ := h.around
    obtain ⟨d, tx, hd, -, hr⟩ := hs.ret_ok_inv
    obtain ⟨hq, c, m, ha⟩ := answered_of_run hpre hd hr
    refine ⟨hq, c, m, ha, fun c' tx ha' => ?_⟩
    have hac : Event.assign q c c ∈ pre ++ Event.ret q (.ok r) :: post :=
      List.mem_append_left _ (ha.1.subset (by simp))
    have hcc := assigned_unique h ha' hac
    exact ⟨hcc, (assigned_of_run h ha').1.trans hcc⟩
  · exact fun c e w' hs => ⟨hs.services, hs.pending (wf_of_run h)⟩
  · intro c m w' hs hno
    cases hs with
    | conn _ hs =>
        cases hs with
        | @relayRecv s _ _ _ _ =>
            refine ⟨s, _, World.setConn_conns_same, ?_⟩
            rcases Connection.relayNext_cases s m with ⟨r, hm, -⟩ | ⟨-, e⟩
            · exact absurd hm (hno r)
            · exact e
  · exact fun c m r tx w' hs hst => hs.respond_unchanged (wf_of_run h) fun p => hst.not_ours h

/-- A session in which a client answers the request it was sent. -/
theorem response_ownership_session :
    ∃ c m, AnsweredBy compactJson
      (registration compactJson demoConfig 1 "app" ++ dispatching compactJson 1 "q" demoRequest ++
        (answering compactJson 1 1 (demoResponse "q")).dropLast) "q" (demoResponse "q") c m := by
  obtain ⟨w, h⟩ := @exists_run compactJson demoConfig (demoSession "q") (by decide +kernel)
  obtain ⟨-, c, m, ha, -⟩ := (response_ownership h).1
    (registration compactJson demoConfig 1 "app" ++ dispatching compactJson 1 "q" demoRequest ++
      (answering compactJson 1 1 (demoResponse "q")).dropLast) "q" (demoResponse "q") [] rfl
  exact ⟨c, m, ha⟩

end Outpunch
