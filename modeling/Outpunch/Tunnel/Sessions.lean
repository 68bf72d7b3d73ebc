import Outpunch.Tunnel.Links

/-!
# Tunnel — what a client session has done

The history of one session of the client: the first text it took was the reply to its auth
message, every later one was received by the loop, and the requests among these are the ones it
started to forward (`SessionOk`).  What it sent up is its auth message and responses it got from
`forward_request` for requests it had started.
-/

namespace Outpunch

open Session (authText requestOf)

variable {serde : SerdeJson} {encode : List UInt8 → String} {config : ServerConfig}
  {tr : List TunnelEvent} {t t' : Tunnel} {c : ConnId}

/-! ### Sessions and their connections -/

/-- A session stays. -/
theorem TunnelStep.sessions_mono {e : TunnelEvent} (h : TunnelStep serde encode t e t')
    (hc : t.sessions c ≠ none) : t'.sessions c ≠ none := by
  have insert : ∀ {c' s}, (t.sessions.insert c' s) c ≠ none := by
    intro c' s
    by_cases hcc : c = c'
    · subst hcc
      rw [PartialMap.insert_same]
      simp
    · rwa [PartialMap.insert_other hcc]
  cases h with
  | @accept c' client a' _ =>
      cases client with
      | none => exact hc
      | some client => exact insert
  | client _ _ _ => exact insert
  | axum _ _ _ | foreign _ _ => exact hc

/-- A session begins when its peer connects. -/
theorem TunnelStep.sessions_inv {e : TunnelEvent} (h : TunnelStep serde encode t e t')
    (hc : t'.sessions c ≠ none) : t.sessions c ≠ none ∨ ∃ client, e = .accept c client := by
  cases h with
  | @accept c' client a' _ =>
      by_cases hcc : c = c'
      · subst hcc
        exact .inr ⟨client, rfl⟩
      cases client with
      | none => exact .inl hc
      | some client => exact .inl fun hn => hc ((PartialMap.insert_other hcc).trans hn)
  | @client c' e s s' links' hs _ _ =>
      refine .inl fun hn => hc ?_
      have hcc : c ≠ c' := by
        rintro rfl
        rw [hs] at hn
        cases hn
      exact (PartialMap.insert_other hcc).trans hn
  | axum _ _ _ | foreign _ _ => exact .inl hc

/-- What a client does it does in a session. -/
theorem session_of_client (h : TunnelRun serde encode config tr t) {e : ClientEvent}
    (he : .client c e ∈ tr) : ∃ s, t.sessions c = some s := by
  obtain ⟨tr₁, tr₂, u, u', rfl, -, hs, hrest⟩ := h.of_mem he
  refine Option.ne_none_iff_exists'.mp
    (hrest.preserves (P := fun t => t.sessions c ≠ none) (fun hc hs => hs.sessions_mono hc) ?_)
  cases hs with
  | client _ _ _ => simp

/-- Where every peer is the tunnel client, a WebSocket is that of a session. -/
theorem session_of_link (h : TunnelRun serde encode config tr t)
    (hclients : ∀ c, .accept c none ∉ tr) : t.links c ≠ none → t.sessions c ≠ none := by
  refine h.invariant (fun tr t => (∀ c, .accept c none ∉ tr) → t.links c ≠ none →
    t.sessions c ≠ none) (fun _ hl => absurd rfl hl) (fun {tr t e t'} hr ih hs hclients hl => ?_)
    hclients
  replace ih := ih fun c hc => hclients c (List.mem_append_left _ hc)
  by_cases hlc : t.links c = none
  · rcases hs.links with ⟨c', client, rfl, hlinks⟩ | hlinks
    · by_cases hc : c = c'
      · subst hc
        cases client with
        | none => exact absurd List.mem_concat_self (hclients c)
        | some client =>
            cases hs with
            | accept _ => simp
      · rw [hlinks, PartialMap.insert_other hc] at hl
        exact absurd hlc hl
    · rcases Tunnel.linked_eq_some hlinks with ⟨-, heq⟩ | ⟨c', le, l, l', -, hl', -, heq⟩
      · exact absurd hlc (heq ▸ hl)
      · rw [heq] at hl
        by_cases hc : c = c'
        · subst hc
          rw [hlc] at hl'; cases hl'
        · rw [PartialMap.insert_other hc] at hl
          exact absurd hlc hl
  · exact hs.sessions_mono (ih hlc)

/-! ### Forwards -/

/-- A `forward_request` that starts: its session, and the request it is given. -/
def TunnelEvent.starts (serde : SerdeJson) : TunnelEvent → Option (ConnId × TunnelRequest)
  | .client c e => (e.starts serde).map fun req => (c, req)
  | _ => none

/-- The `forward_request` executions of a run, over all clients and connections. -/
abbrev starts (serde : SerdeJson) (tr : List TunnelEvent) : List (ConnId × TunnelRequest) :=
  Lts.record (TunnelEvent.starts serde) tr

/-- Those of the session `c`. -/
abbrev started (serde : SerdeJson) (c : ConnId) (tr : List TunnelEvent) : List TunnelRequest :=
  Lts.record (fun e => (e.starts serde).bind fun p => if p.1 = c then some p.2 else none) tr

theorem mem_started {req : TunnelRequest} :
    req ∈ started serde c tr ↔ (c, req) ∈ starts serde tr := by
  simp only [started, starts, Lts.mem_record, Option.bind_eq_some_iff,
    Option.ite_none_right_eq_some, Option.some.injEq]
  constructor
  · rintro ⟨e, he, ⟨c', req'⟩, hs, rfl, rfl⟩
    exact ⟨e, he, hs⟩
  · rintro ⟨e, he, hs⟩
    exact ⟨e, he, (c, req), hs, rfl, rfl⟩

/-- `r` is the result of a `forward_request` of the session `c`. -/
def ForwardedBy (encode : List UInt8 → String) (c : ConnId) (tr : List TunnelEvent)
    (r : TunnelResponse) : Prop :=
  ∃ req result, TunnelEvent.client c (.forwarded req result) ∈ tr ∧
    r = forwardResponse encode req result

theorem ForwardedBy.mono {r : TunnelResponse} (h : ForwardedBy encode c tr r)
    (tr' : List TunnelEvent) : ForwardedBy encode c (tr ++ tr') r := by
  obtain ⟨req, result, hmem, hr⟩ := h
  exact ⟨req, result, List.mem_append_left _ hmem, hr⟩

/-! ### Sessions -/

/-- The event is of the peer of `c`. -/
def TunnelEvent.OfPeer (c : ConnId) : TunnelEvent → Prop
  | .client c' _ | .foreign c' _ => c' = c
  | _ => False

/-- **Invariants of one session and its history.** -/
theorem session_invariant {c : ConnId} (P : List TunnelEvent → Session → Prop)
    (hnew : ∀ {tr client}, (∀ e ∈ tr, ¬ e.OfPeer c) →
      P (tr ++ [.accept c (some client)]) (.new client))
    (hmove : ∀ {tr s e s'}, P tr s → Session.Move serde encode s e s' →
      P (tr ++ [.client c e]) s')
    (hother : ∀ {tr s e}, P tr s → ¬ e.OfPeer c → P (tr ++ [e]) s)
    (h : TunnelRun serde encode config tr t) {s : Session} (hs : t.sessions c = some s) :
    P tr s := by
  refine (h.invariant (fun tr t => (t.axum.server.conns c = none → t.sessions c = none ∧
    ∀ e ∈ tr, ¬ e.OfPeer c) ∧ ∀ s, t.sessions c = some s → P tr s)
    ⟨fun _ => ⟨rfl, by simp⟩, fun s hs => by cases hs⟩ fun {tr t e t'} hr ih hstep => ?_).2 s hs
  have hw := wf_of_run (serverRun (axumRun hr))
  obtain ⟨habs, hok⟩ := ih
  -- an event of no peer of `c` that leaves the session of `c` as it is
  have other : ¬ e.OfPeer c → t'.sessions c = t.sessions c →
      (t'.axum.server.conns c = none → t'.sessions c = none ∧ ∀ e' ∈ tr ++ [e], ¬ e'.OfPeer c) ∧
        ∀ s, t'.sessions c = some s → P (tr ++ [e]) s := by
    intro he heq
    rw [heq]
    refine ⟨fun hno => ?_, fun s hs => hother (hok s hs) he⟩
    obtain ⟨hnone, hno⟩ := habs (by_contra fun h => hstep.conns_mono hw h hno)
    refine ⟨hnone, fun e' hmem => ?_⟩
    rcases List.mem_append.mp hmem with hmem | hmem
    · exact hno e' hmem
    · exact List.mem_singleton.mp hmem ▸ he
  cases e with
  | accept c' client =>
      by_cases hc : c' = c
      · subst hc
        obtain ⟨hfresh, hthere⟩ := hstep.accept_inv hw
        obtain ⟨hnone, hno⟩ := habs hfresh
        refine ⟨fun h => absurd h hthere, fun s hs => ?_⟩
        cases hstep with
        | accept _ =>
            cases client with
            | none => exact absurd (hnone.symm.trans hs) (by simp)
            | some client =>
                cases (PartialMap.insert_same ..).symm.trans hs
                exact hnew hno
      · refine other id ?_
        cases hstep with
        | accept _ =>
            cases client with
            | none => rfl
            | some client => exact PartialMap.insert_other (Ne.symm hc)
  | axum e =>
      cases hstep with
      | axum _ _ _ => exact other id rfl
  | client c' e =>
      by_cases hc : c' = c
      · subst hc
        cases hstep with
        | client hs hn _ =>
            refine ⟨fun hno => ?_, fun s' hs' => ?_⟩
            · exact absurd ((habs hno).1.symm.trans hs) (by simp)
            · cases (PartialMap.insert_same ..).symm.trans hs'
              exact hmove (hok _ hs) (Session.move_of_next hn)
      · cases hstep with
        | client _ _ _ => exact other hc (PartialMap.insert_other (Ne.symm hc))
  | foreign c' text =>
      by_cases hc : c' = c
      · subst hc
        cases hstep with
        | foreign hs hl =>
            refine ⟨fun hno => ?_, fun s hs' => absurd (hs.symm.trans hs') (by simp)⟩
            -- its connection has a WebSocket
            obtain ⟨l, hlink, -⟩ := Option.bind_eq_some_iff.mp hl
            rcases linkOk_of_run hr c' with ⟨hnone, -⟩ | ⟨hcon, -⟩
            · exact absurd (hnone.symm.trans hlink) (by simp)
            · exact absurd hno hcon
      · cases hstep with
        | foreign _ _ => exact other hc rfl

/-! ### What a session did -/

/-- The texts the client of `c` took from its WebSocket. -/
abbrev taken (serde : SerdeJson) (c : ConnId) (tr : List TunnelEvent) : List String :=
  linkTexts serde LinkEvent.takesDown c tr

/-- What it sent. -/
abbrev sentUp (serde : SerdeJson) (c : ConnId) (tr : List TunnelEvent) : List String :=
  linkTexts serde LinkEvent.putsUp c tr

/-- The client of `c` took a prefix of what was enqueued on the connection. -/
theorem taken_isPrefix (h : TunnelRun serde encode config tr t) (c : ConnId) :
    (taken serde c tr).IsPrefix (enqueued c (coreEvents tr)) :=
  (takesDown_isPrefix h c).trans (delivered_of_run (axumRun h) c).sunk

/-- Where a session stands says whether it took the reply to its auth message. -/
def Replied (serde : SerdeJson) (texts : List String) : ClientPhase → Prop
  | .connected | .authSending | .authWaiting => texts = []
  | .running | .sending => texts ≠ []
  | .ended (.error .unexpectedMessage) => ∃ text m, texts = [text] ∧
      parseMessage serde text = .ok m ∧ (∀ r, m ≠ .authOk r) ∧ ∀ r, m ≠ .authError r
  | .ended _ => True

structure SessionOk (serde : SerdeJson) (encode : List UInt8 → String) (c : ConnId)
    (tr : List TunnelEvent) (s : Session) : Prop where
  replied : Replied serde (taken serde c tr) s.phase
  /-- The requests it forwards are those it received after the reply to its auth message. -/
  starts : started serde c tr = (taken serde c tr).tail.filterMap (requestOf serde)
  inFlight : ∀ req ∈ s.inFlight, req ∈ started serde c tr
  forwarded : ∀ req result, .client c (.forwarded req result) ∈ tr → req ∈ started serde c tr
  responses : ∀ r ∈ s.responses, ForwardedBy encode c tr r
  sent : ∀ text ∈ sentUp serde c tr, (∃ config, text = authText serde config) ∨
    ∃ r, ForwardedBy encode c tr r ∧ text = serializeResponse serde r

theorem AxumEvent.onLink_eq_some {e : AxumEvent} {le : LinkEvent} (h : e.onLink = some (c, le)) :
    ∃ text, le = .putDown text ∨ le = .takeUp text := by
  cases e with
  | server e =>
      cases e with
      | conn c' ce => cases ce <;> cases h <;> exact ⟨_, .inr rfl⟩
      | _ => cases h
  | bridge c' be => cases be <;> cases h; exact ⟨_, .inl rfl⟩

/-- What is not of the peer of `c` takes nothing down, and puts nothing up. -/
theorem TunnelEvent.linkText_other {e : TunnelEvent} {pick : LinkEvent → Option String}
    (he : ¬ e.OfPeer c) (hd : ∀ text, pick (.putDown text) = none)
    (hu : ∀ text, pick (.takeUp text) = none) : e.linkText serde pick c = none := by
  cases e with
  | accept c' client => rfl
  | axum e =>
      cases hl : e.onLink with
      | none => rw [linkText, onLink, hl]; rfl
      | some p =>
          obtain ⟨c', le⟩ := p
          rw [linkText, onLink, hl]
          refine ite_eq_right_iff.mpr fun hc => ?_
          obtain ⟨text, rfl | rfl⟩ := AxumEvent.onLink_eq_some hl
          · exact hd text
          · exact hu text
  | client c' e =>
      refine TunnelEvent.linkText_of_ne fun le hl => he ?_
      obtain ⟨le', -, hl⟩ := Option.map_eq_some_iff.mp hl
      exact (Prod.mk.inj hl).1
  | foreign c' text =>
      exact TunnelEvent.linkText_of_ne fun le hl => he (Prod.mk.inj (Option.some.inj hl)).1

/-- A session starts to forward what its loop receives. -/
theorem TunnelEvent.startsAt_other {e : TunnelEvent} (he : ¬ e.OfPeer c) :
    ((e.starts serde).bind fun p => if p.1 = c then some p.2 else none) = none := by
  refine Option.eq_none_iff_forall_ne_some.mpr fun req hs => he ?_
  obtain ⟨p, hp, hc⟩ := Option.bind_eq_some_iff.mp hs
  cases e with
  | client c' e =>
      obtain ⟨req', -, rfl⟩ := Option.map_eq_some_iff.mp hp
      exact (Option.ite_none_right_eq_some.mp hc).1
  | _ => cases hp

theorem TunnelEvent.linkText_client (c : ConnId) (e : ClientEvent)
    (pick : LinkEvent → Option String) :
    (TunnelEvent.client c e).linkText serde pick c = (e.onLink serde).bind pick := by
  rw [TunnelEvent.linkText, TunnelEvent.onLink]
  cases e.onLink serde with
  | none => rfl
  | some le => exact if_pos rfl

theorem TunnelEvent.startsAt_client (c : ConnId) (e : ClientEvent) :
    (((TunnelEvent.client c e).starts serde).bind fun p => if p.1 = c then some p.2 else none) =
      e.starts serde := by
  rw [TunnelEvent.starts]
  cases e.starts serde with
  | none => rfl
  | some req => exact if_pos rfl

/-- A step of the session keeps `Replied`. -/
theorem Replied.move {s s' : Session} {e : ClientEvent} (hm : Session.Move serde encode s e s')
    {texts : List String} (h : Replied serde texts s.phase) :
    Replied serde (texts ++ ((e.onLink serde).bind LinkEvent.takesDown).toList) s'.phase := by
  cases hm with
  | authSend hp | authSent hp | respond hp _ | ping hp | sent hp =>
      rw [hp] at h
      exact (List.append_nil texts).symm ▸ h
  | authenticated _ _ => exact List.append_ne_nil_of_right_ne_nil _ (List.cons_ne_nil _ _)
  | @unexpected text m hp hm hok herr =>
      rw [hp] at h
      exact ⟨text, m, by rw [show texts = [] from h]; rfl, hm, hok, herr⟩
  | @authFailed item err _ herr =>
      cases err with
      | unexpectedMessage => exact absurd rfl herr
      | _ => exact trivial
  | requested hp _ | ignored hp _ =>
      rw [hp] at h
      rw [hp]
      exact List.append_ne_nil_of_left_ne_nil h _
  | closed _ _ | authSendFailed _ | sendFailed _ => trivial
  | forwarded _ | joined _ => exact (List.append_nil texts).symm ▸ h

/-- The loop starts to forward what is taken after the reply. -/
theorem starts_of_move {s s' : Session} {e : ClientEvent} (hm : Session.Move serde encode s e s')
    {texts : List String} (h : Replied serde texts s.phase) :
    (texts ++ ((e.onLink serde).bind LinkEvent.takesDown).toList).tail.filterMap (requestOf serde) =
      texts.tail.filterMap (requestOf serde) ++ (e.starts serde).toList := by
  cases e with
  | authRecv item =>
      have hp : s.phase = .authWaiting := by cases hm <;> assumption
      rw [hp] at h
      rw [show texts = [] from h]
      rcases item with _ | _ | _ | _ | _ <;> rfl
  | recv item =>
      have hp : s.phase = .running := by cases hm <;> assumption
      rw [hp] at h
      rw [List.tail_append_of_ne_nil h, List.filterMap_append]
      congr 1
      rcases item with _ | _ | text | _ | _
      case some.ok.text => exact (List.filterMap_cons ..).trans (by
        rw [ClientEvent.starts]; cases requestOf serde text <;> rfl)
      all_goals rfl
  | _ =>
      refine Eq.trans ?_ (List.append_nil _).symm
      exact congrArg (fun l => l.tail.filterMap (requestOf serde)) (List.append_nil texts)

theorem SessionOk.move {s s' : Session} {e : ClientEvent} (h : SessionOk serde encode c tr s)
    (hm : Session.Move serde encode s e s') :
    SessionOk serde encode c (tr ++ [.client c e]) s' := by
  have link : ∀ pick, linkTexts serde pick c (tr ++ [.client c e]) =
      linkTexts serde pick c tr ++ ((e.onLink serde).bind pick).toList := by
    intro pick
    rw [linkTexts, Lts.record_snoc, TunnelEvent.linkText_client]
  have hst : started serde c (tr ++ [.client c e]) =
      started serde c tr ++ (e.starts serde).toList := by
    rw [started, Lts.record_snoc, TunnelEvent.startsAt_client]
  have old : ∀ req ∈ started serde c tr, req ∈ started serde c (tr ++ [.client c e]) :=
    fun req hr => hst ▸ List.mem_append_left _ hr
  refine ⟨?_, ?_, fun req hr => ?_, fun req result hmem => ?_, fun r hr => ?_, fun text ht => ?_⟩
  · rw [taken, link]
    exact h.replied.move hm
  · rw [taken, link, hst, h.starts]
    exact (starts_of_move hm h.replied).symm
  · cases hm with
    | requested _ hreq =>
        rcases List.mem_append.mp hr with hr | hr
        · exact old req (h.inFlight req hr)
        · cases List.mem_singleton.mp hr
          rw [hst]
          refine List.mem_append_right _ ?_
          rw [ClientEvent.starts, hreq]
          exact List.mem_singleton_self _
    | forwarded _ => exact old req (h.inFlight req (List.mem_of_mem_erase hr))
    | unexpected _ _ _ _ | authFailed _ _ | closed _ _ | authSendFailed _ | sendFailed _ => cases hr
    | _ => exact old req (h.inFlight req hr)
  · rcases List.mem_append.mp hmem with hmem | hmem
    · exact old req (h.forwarded req result hmem)
    · cases List.mem_singleton.mp hmem
      cases hm with
      | forwarded hr => exact old req (h.inFlight req hr)
  · cases hm with
    | forwarded _ =>
        rcases List.mem_append.mp hr with hr | hr
        · exact (h.responses r hr).mono _
        · exact ⟨_, _, List.mem_concat_self, List.mem_singleton.mp hr⟩
    | respond _ hq => exact (h.responses r (hq ▸ List.mem_cons_of_mem _ hr)).mono _
    | unexpected _ _ _ _ | authFailed _ _ | closed _ _ | authSendFailed _ | sendFailed _ => cases hr
    | _ => exact (h.responses r hr).mono _
  · rw [sentUp, link] at ht
    rcases List.mem_append.mp ht with ht | ht
    · rcases h.sent text ht with hauth | ⟨r, hr, hs⟩
      · exact .inl hauth
      · exact .inr ⟨r, hr.mono _, hs⟩
    · cases hm with
      | authSend _ => exact .inl ⟨_, List.mem_singleton.mp ht⟩
      | @respond r _ _ hq =>
          refine .inr ⟨r, (h.responses r (hq ▸ List.mem_cons_self)).mono _, ?_⟩
          exact List.mem_singleton.mp ht
      | @authFailed item _ _ _ | @ignored item _ _ | @closed item _ _ =>
          rcases item with _ | _ | _ | _ | _ <;> cases ht
      | _ => cases ht

/-- **What the client of `c` has done.** -/
theorem sessionOk_of_run (h : TunnelRun serde encode config tr t) {s : Session}
    (hs : t.sessions c = some s) : SessionOk serde encode c tr s := by
  refine session_invariant (fun tr s => SessionOk serde encode c tr s) (fun {tr client} hno => ?_)
    (fun {tr s e s'} ih hm => ?_) (fun {tr s e} ih he => ?_) h hs
  · have none : ∀ e ∈ tr ++ [.accept c (some client)], ¬ e.OfPeer c := by
      intro e he
      rcases List.mem_append.mp he with he | he
      · exact hno e he
      · exact List.mem_singleton.mp he ▸ id
    have ht : taken serde c (tr ++ [.accept c (some client)]) = [] :=
      Lts.record_eq_nil.mpr fun e he => e.linkText_other (none e he) (fun _ => rfl) fun _ => rfl
    have hst : started serde c (tr ++ [.accept c (some client)]) = [] :=
      Lts.record_eq_nil.mpr fun e he => e.startsAt_other (none e he)
    have hu : sentUp serde c (tr ++ [.accept c (some client)]) = [] :=
      Lts.record_eq_nil.mpr fun e he => e.linkText_other (none e he) (fun _ => rfl) fun _ => rfl
    refine ⟨ht, by rw [ht, hst]; rfl, by simp [Session.new], fun req result hmem => ?_,
      by simp [Session.new], by simp [hu]⟩
    exact absurd rfl (none _ hmem)
  · exact ih.move hm
  · have ht : taken serde c (tr ++ [e]) = taken serde c tr :=
      Lts.record_snoc_of_none (e.linkText_other he (fun _ => rfl) fun _ => rfl)
    have hst : started serde c (tr ++ [e]) = started serde c tr :=
      Lts.record_snoc_of_none (e.startsAt_other he)
    have hu : sentUp serde c (tr ++ [e]) = sentUp serde c tr :=
      Lts.record_snoc_of_none (e.linkText_other he (fun _ => rfl) fun _ => rfl)
    refine ⟨ht ▸ ih.replied, by rw [ht, hst, ih.starts], hst ▸ ih.inFlight,
      fun req result hmem => ?_, fun r hr => (ih.responses r hr).mono _, fun text htext => ?_⟩
    · rw [hst]
      rcases List.mem_append.mp hmem with hmem | hmem
      · exact ih.forwarded req result hmem
      · exact absurd (List.mem_singleton.mp hmem ▸ rfl) he
    · exact (ih.sent text (hu ▸ htext)).imp_right fun ⟨r, hr, hs⟩ => ⟨r, hr.mono _, hs⟩

/-- Without a session, the client of `c` took and started nothing. -/
theorem absent_of_run (h : TunnelRun serde encode config tr t) (hs : t.sessions c = none) :
    taken serde c tr = [] ∧ started serde c tr = [] := by
  have hno : ∀ {c' e}, .client c' e ∈ tr → c' ≠ c := by
    intro _ _ he hc
    obtain ⟨s, hs'⟩ := session_of_client h (hc ▸ he)
    rw [hs] at hs'; cases hs'
  refine ⟨Lts.record_eq_nil.mpr fun e he => ?_, Lts.record_eq_nil.mpr fun e he => ?_⟩
  · cases e with
    | client c' e => exact TunnelEvent.linkText_other (hno he) (fun _ => rfl) fun _ => rfl
    | foreign c' text => exact ite_self _
    | _ => exact TunnelEvent.linkText_other id (fun _ => rfl) fun _ => rfl
  · cases e with
    | client c' e => exact TunnelEvent.startsAt_other (hno he)
    | _ => rfl

end Outpunch
