import Outpunch.Server.Outgoing

/-!
# Server — a request is enqueued at most once

A dispatch sends its text once, to the connection it was assigned to, and not after it has ended;
it returns a response only after it has sent.  Request ids are distinct, so the texts are: what is
said of the sends of a dispatch holds of its text in the queues (`count_json`).
-/

namespace Outpunch

variable {serde : SerdeJson} {config : ServerConfig} {tr : List Event} {w : World}

/-! ### Sends of a dispatch -/

/-- A dispatch that stands here may still send its text. -/
def DispatchPhase.maySend : DispatchPhase → Bool
  | .locking | .sending _ => true
  | _ => false

/-- The event ends the dispatch `q`, or its exchange. -/
def Event.Ends (q : RequestId) : Event → Prop
  | .fail q' _ | .ret q' _ | .cancel q' => q' = q
  | _ => False

theorem Dispatch.Move.maySend {q : RequestId} {d d' : Dispatch} {e : Event}
    (hm : Dispatch.Move w q d e d') (hp : d.phase.maySend = false) : d'.phase.maySend = false := by
  cases hm with
  | assign hp' _ | send hp' => rw [hp'] at hp; cases hp
  | respond _ => unfold Dispatch.answer; split <;> exact hp
  | other _ => exact hp
  | _ => rfl

/-- A dispatch that has sent, or has ended, sends no more. -/
theorem maySend_of_run (h : ServerRun serde config tr w) {q : RequestId} {e : Event} (he : e ∈ tr)
    (hq : (∃ c json, e = .send q c json) ∨ e.Ends q) :
    ∃ d, w.dispatches q = some d ∧ d.phase.maySend = false := by
  obtain ⟨tr₁, tr₂, u, u', rfl, hr, hs, hrest⟩ := h.of_mem he
  -- it may not after the event itself
  have after : ∃ d, u'.dispatches q = some d ∧ d.phase.maySend = false := by
    rcases hq with ⟨c, json, rfl⟩ | hq
    · cases hs with
      | send _ _ _ _ => exact ⟨_, World.setDispatch_dispatches_same, rfl⟩
    · cases hs with
      | notConnected _ _ _ | answered _ _ _ | failed _ _ | connectionLost _ _ _ _
      | disconnected _ _ _ _ | timeout _ _ | cancel _ _ =>
          cases hq
          exact ⟨_, World.setDispatch_dispatches_same, rfl⟩
      | _ => exact hq.elim
  refine hrest.preserves (P := fun w => ∃ d, w.dispatches q = some d ∧ d.phase.maySend = false)
    (fun ⟨d, hd, hp⟩ hs => ?_) after
  obtain ⟨d', hd', hm⟩ := hs.dispatch_move hd
  exact ⟨d', hd', hm.maySend hp⟩

/-- A dispatch that may not send does not. -/
theorem Step.send_maySend {w' : World} {q : RequestId} {c : ConnId} {json : String}
    (hs : Step serde w (.send q c json) w') {d : Dispatch} (hd : w.dispatches q = some d) :
    d.phase.maySend = true := by
  cases hs with
  | send hq hp _ _ =>
      cases hd.symm.trans hq
      rw [hp]; rfl

/-- The requests sent to a connection are distinct. -/
theorem sentTo_nodup (h : ServerRun serde config tr w) (c : ConnId) :
    ((sentTo c tr).map Prod.fst).Nodup := by
  refine h.invariant (fun tr _ => ((sentTo c tr).map Prod.fst).Nodup) List.nodup_nil
    fun {tr w e w'} hr ih hs => ?_
  cases he : e.sends c with
  | none =>
      have he : sentTo c (tr ++ [e]) = sentTo c tr := Lts.record_snoc_of_none he
      rwa [he]
  | some p =>
      obtain ⟨q, json⟩ := p
      obtain rfl := Event.sends_eq_some.mp he
      have he : sentTo c (tr ++ [Event.send q c json]) = sentTo c tr ++ [(q, json)] :=
        Lts.record_snoc_of_some he
      rw [he, List.map_append]
      refine ih.append (List.nodup_singleton q) (List.disjoint_singleton.mpr fun hq => ?_)
      obtain ⟨⟨q', json'⟩, hmem, rfl⟩ := List.mem_map.mp hq
      obtain ⟨d, hd, hp⟩ := maySend_of_run hr (mem_sentTo.mp hmem) (.inl ⟨c, json', rfl⟩)
      rw [hs.send_maySend hd] at hp; cases hp

/-- A dispatch that ended before it sent does not send. -/
theorem not_sent_of_ended {tr₁ tr₂ : List Event} {q : RequestId} {e : Event}
    (h : ServerRun serde config (tr₁ ++ e :: tr₂) w) (he : e.Ends q)
    (hno : ∀ c json, .send q c json ∉ tr₁) (c : ConnId) (json : String) :
    .send q c json ∉ tr₁ ++ e :: tr₂ := by
  intro hmem
  rcases List.mem_append.mp hmem with hmem | hmem
  · exact hno c json hmem
  · rcases List.mem_cons.mp hmem with rfl | hmem
    · exact he.elim
    · obtain ⟨tr₃, tr₄, rfl⟩ := List.append_of_mem hmem
      rw [show tr₁ ++ e :: (tr₃ ++ Event.send q c json :: tr₄) =
        (tr₁ ++ e :: tr₃) ++ Event.send q c json :: tr₄ by simp] at h
      obtain ⟨u, u', hr, hs, -⟩ := h.around
      obtain ⟨d, hd, hp⟩ := maySend_of_run hr (e := e) (by simp) (.inr he)
      rw [hs.send_maySend hd] at hp; cases hp

/-- A dispatch waits for its response only after it has sent. -/
theorem sent_of_waiting (h : ServerRun serde config tr w) {q : RequestId} {d : Dispatch}
    {tx : OutgoingTx} (hd : w.dispatches q = some d) (hp : d.phase = .waiting tx) :
    ∃ json, .send q tx json ∈ tr := by
  refine dispatch_invariant (fun tr d => ∀ tx, d.phase = .waiting tx →
    ∃ json, .send q tx json ∈ tr) (fun _ hp => by cases hp)
    (fun {tr w d e w' d'} _ _ ih _ hm tx hp => ?_) h hd tx hp
  have old : d.phase = .waiting tx → ∃ json, Event.send q tx json ∈ tr ++ [e] := fun hp =>
    (ih tx hp).imp fun _ hmem => List.mem_append_left _ hmem
  cases hm with
  | send _ => cases hp; exact ⟨d.json, by simp⟩
  | respond _ => exact old (by revert hp; unfold Dispatch.answer; split <;> exact id)
  | other _ => exact old hp
  | _ => cases hp

/-- What returned a response was sent. -/
theorem sent_of_returned (h : ServerRun serde config tr w) {q : RequestId} {r : TunnelResponse}
    (hret : .ret q (.ok r) ∈ tr) : ∃ c json, .send q c json ∈ tr := by
  obtain ⟨tr₁, tr₂, u, u', rfl, hr, hs, -⟩ := h.of_mem hret
  obtain ⟨d, tx, hd, hp, -⟩ := hs.ret_ok_inv
  obtain ⟨json, hmem⟩ := sent_of_waiting hr hd hp
  exact ⟨tx, json, List.mem_append_left _ hmem⟩

/-! ### Their texts -/

section

variable (hserde : serde.RoundTrips)
include hserde

/-- The text of a request tells its id. -/
theorem serializeRequest_requestId {q q' : RequestId} {incoming incoming' : IncomingRequest}
    (h : serializeRequest serde (buildTunnelRequest q incoming) =
      serializeRequest serde (buildTunnelRequest q' incoming')) : q = q' := by
  have := (parseMessage_request (m := buildTunnelRequest q incoming) hserde rfl).symm.trans
    (h ▸ parseMessage_request (m := buildTunnelRequest q' incoming') hserde rfl)
  exact congrArg TunnelRequest.requestId (Message.request.inj (Except.ok.inj this))

theorem serializeRequest_ne_authOk {q : RequestId} {incoming : IncomingRequest} :
    serializeRequest serde (buildTunnelRequest q incoming) ≠ authOkText serde := by
  intro h
  have := (parseMessage_request (m := buildTunnelRequest q incoming) hserde rfl).symm.trans
    (h ▸ parseMessage_authOkText hserde)
  cases this

theorem serializeRequest_ne_authError {q : RequestId} {incoming : IncomingRequest}
    {message : String} : serializeRequest serde (buildTunnelRequest q incoming) ≠
      authErrorText serde message := by
  intro h
  have := (parseMessage_request (m := buildTunnelRequest q incoming) hserde rfl).symm.trans
    (h ▸ parseMessage_authErrorText hserde message)
  cases this

/-- What a connection was sent, it was sent after `auth_ok`. -/
theorem enqueued_of_sent (h : ServerRun serde config tr w) {c : ConnId} (hne : sentTo c tr ≠ []) :
    enqueued c tr = authOkText serde :: (sentTo c tr).map Prod.snd := by
  obtain ⟨⟨q, json⟩, hmem⟩ := List.exists_mem_of_ne_nil _ hne
  have hsend := mem_sentTo.mp hmem
  have hin : json ∈ enqueued c tr := Lts.mem_record.mpr ⟨_, hsend, if_pos rfl⟩
  obtain ⟨-, incoming, -, rfl⟩ := sent_of_run h hsend
  rcases enqueued_shape h c with hnil | ⟨message, herr⟩ | hok
  · rw [hnil] at hin; cases hin
  · rw [herr] at hin
    exact absurd (List.mem_singleton.mp hin) (serializeRequest_ne_authError hserde)
  · exact hok

/-- **The text of a request in a queue** stands for a send of its dispatch. -/
theorem count_json (h : ServerRun serde config tr w) (c : ConnId) {q : RequestId}
    {incoming : IncomingRequest} (hin : .request q incoming ∈ tr) :
    (enqueued c tr).count (serializeRequest serde (buildTunnelRequest q incoming)) =
      ((sentTo c tr).map Prod.fst).count q := by
  by_cases hne : sentTo c tr = []
  · rw [hne]
    refine List.count_eq_zero.mpr fun hmem => ?_
    rcases enqueued_shape h c with hnil | ⟨message, herr⟩ | hok
    · rw [hnil] at hmem; cases hmem
    · rw [herr] at hmem
      exact serializeRequest_ne_authError hserde (List.mem_singleton.mp hmem)
    · rw [hok, hne] at hmem
      exact serializeRequest_ne_authOk hserde (List.mem_singleton.mp hmem)
  · have hok : authOkText serde ≠ serializeRequest serde (buildTunnelRequest q incoming) :=
      (serializeRequest_ne_authOk hserde).symm
    rw [enqueued_of_sent hserde h hne, List.count_cons_of_ne hok, List.count, List.count,
      List.countP_map, List.countP_map]
    refine List.countP_congr fun ⟨q', json⟩ hmem => ?_
    obtain ⟨-, incoming', hin', rfl⟩ := sent_of_run h (mem_sentTo.mp hmem)
    simp only [Function.comp_apply, beq_iff_eq]
    refine ⟨fun he => serializeRequest_requestId hserde he, fun he => ?_⟩
    subst he
    obtain ⟨d, hd, -, hjson⟩ := dispatch_of_request h hin
    obtain ⟨d', hd', -, hjson'⟩ := dispatch_of_request h hin'
    cases hd.symm.trans hd'
    exact hjson'.symm.trans hjson

/-- The text `json` of the dispatch `q` in the queues: in one queue at most, and there once; in
none, where the dispatch ended before it sent; in one, where it returned a response. -/
structure EnqueuedOnce (q : RequestId) (json : String) (tr : List Event) : Prop where
  once : ∀ c, (enqueued c tr).count json ≤ 1
  one : ∀ {c c'}, json ∈ enqueued c tr → json ∈ enqueued c' tr → c = c'
  ended : ∀ {tr₁ tr₂ e}, tr = tr₁ ++ e :: tr₂ → e.Ends q → (∀ c json, .send q c json ∉ tr₁) →
    ∀ c, json ∉ enqueued c tr
  returned : ∀ {r}, .ret q (.ok r) ∈ tr →
    ∃ c, .assign q c c ∈ tr ∧ (enqueued c tr).count json = 1

theorem sent_of_enqueued (h : ServerRun serde config tr w) {c : ConnId} {q : RequestId}
    {incoming : IncomingRequest} (hin : .request q incoming ∈ tr)
    (hmem : serializeRequest serde (buildTunnelRequest q incoming) ∈ enqueued c tr) :
    ∃ json, .send q c json ∈ tr := by
  rw [← List.count_pos_iff, count_json hserde h c hin, List.count_pos_iff] at hmem
  obtain ⟨⟨q', json⟩, hp, rfl⟩ := List.mem_map.mp hmem
  exact ⟨json, mem_sentTo.mp hp⟩

/-- **A request is enqueued at most once.** -/
theorem enqueuedOnce_of_run (h : ServerRun serde config tr w) {q : RequestId}
    {incoming : IncomingRequest} (hin : .request q incoming ∈ tr) :
    EnqueuedOnce q (serializeRequest serde (buildTunnelRequest q incoming)) tr where
  once c := by
    rw [count_json hserde h c hin]
    exact List.nodup_iff_count_le_one.mp (sentTo_nodup h c) q
  one hc hc' := by
    obtain ⟨_, hs⟩ := sent_of_enqueued hserde h hin hc
    obtain ⟨_, hs'⟩ := sent_of_enqueued hserde h hin hc'
    exact assigned_unique h (sent_of_run h hs).1 (sent_of_run h hs').1
  ended := by
    rintro tr₁ tr₂ e rfl he hno c hmem
    obtain ⟨json, hs⟩ := sent_of_enqueued hserde h hin hmem
    exact not_sent_of_ended h he hno c json hs
  returned hret := by
    obtain ⟨c, json, hs⟩ := sent_of_returned h hret
    refine ⟨c, (sent_of_run h hs).1, ?_⟩
    rw [count_json hserde h c hin]
    exact List.count_eq_one_of_mem (sentTo_nodup h c) (List.mem_map.mpr ⟨_, mem_sentTo.mpr hs, rfl⟩)

end

end Outpunch
