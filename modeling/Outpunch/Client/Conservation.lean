import Outpunch.Client.Session
import Outpunch.Library.Runs

/-!
# Client — conservation of requests

A request the loop received is being forwarded, or its response waits in the channel, or its
response was passed to the WebSocket: no order of the events loses one or makes one up
(`client_conservation`).  `Balanced` is the account a live session keeps of its history.
-/

namespace Outpunch

/-- The `forward_request` that is done. -/
def ClientEvent.completes : ClientEvent → Option (TunnelRequest × HttpResult)
  | .forwarded req result => some (req, result)
  | _ => none

/-- The response the loop passes to the WebSocket. -/
def ClientEvent.writes : ClientEvent → Option TunnelResponse
  | .respond response => some response
  | _ => none

/-- A run of `run_connection`. -/
abbrev SessionRun (serde : SerdeJson) (encode : List UInt8 → String) (config : ClientConfig) :
    List ClientEvent → Session → Prop :=
  Lts.Run (fun s e s' => s.next serde encode e = some s') (.new config)

/-- The requests the loop received. -/
abbrev requested (serde : SerdeJson) (tr : List ClientEvent) : List TunnelRequest :=
  Lts.record (ClientEvent.starts serde) tr

/-- The forwards that are done, and their results. -/
abbrev completed (tr : List ClientEvent) : List (TunnelRequest × HttpResult) :=
  Lts.record ClientEvent.completes tr

/-- The responses the loop passed to the WebSocket. -/
abbrev written (tr : List ClientEvent) : List TunnelResponse := Lts.record ClientEvent.writes tr

namespace Session

/-- The loop of `run_connection` is running. -/
def Looping (s : Session) : Prop := s.phase = .running ∨ s.phase = .sending

/-- `run_connection` has not returned. -/
def Live (s : Session) : Prop := ∀ result, s.phase ≠ .ended result

end Session

section

variable {serde : SerdeJson} {encode : List UInt8 → String} {config : ClientConfig}
  {tr : List ClientEvent} {s s' : Session} {e : ClientEvent}

theorem Session.Looping.live (h : s.Looping) : s.Live := by
  intro result he
  rcases h with h | h <;> cases h.symm.trans he

/-- A session that is over stays over. -/
theorem Session.Move.live (hm : Session.Move serde encode s e s') (h : s'.Live) : s.Live := by
  cases hm with
  | unexpected hp _ _ _ | authFailed hp _ | closed hp _ | authSendFailed hp | sendFailed hp =>
      exact absurd rfl (h _)
  | authSend hp | authSent hp | authenticated hp _ | respond hp _ | ping hp | sent hp =>
      exact fun result he => by cases hp.symm.trans he
  | requested _ _ | ignored _ _ | forwarded _ | joined _ => exact h

/-! ### The account -/

/-- Each request that was received is in flight or was forwarded, and each response to a forwarded
one was written or waits, in this order. -/
structure Balanced (serde : SerdeJson) (encode : List UInt8 → String) (tr : List ClientEvent)
    (s : Session) : Prop where
  requests : (requested serde tr).Perm (s.inFlight ++ (completed tr).map Prod.fst)
  responses :
    (completed tr).map (fun p => forwardResponse encode p.1 p.2) = written tr ++ s.responses

theorem Balanced.new (config : ClientConfig) : Balanced serde encode [] (.new config) :=
  ⟨.nil, rfl⟩

theorem Balanced.snoc (hreq : (requested serde tr ++ (e.starts serde).toList).Perm
      (s'.inFlight ++ (completed tr ++ e.completes.toList).map Prod.fst))
    (hresp : (completed tr ++ e.completes.toList).map (fun p => forwardResponse encode p.1 p.2) =
      written tr ++ e.writes.toList ++ s'.responses) :
    Balanced serde encode (tr ++ [e]) s' := by
  constructor
  · rwa [requested, completed, Lts.record_snoc, Lts.record_snoc]
  · rwa [written, completed, Lts.record_snoc, Lts.record_snoc]

/-- An event that no account is kept of. -/
theorem Balanced.quiet (h : Balanced serde encode tr s) (hstarts : e.starts serde = none)
    (hcompletes : e.completes = none) (hwrites : e.writes = none)
    (hflight : s'.inFlight = s.inFlight) (hresponses : s'.responses = s.responses) :
    Balanced serde encode (tr ++ [e]) s' := by
  apply Balanced.snoc
  · simpa [hstarts, hcompletes, hflight] using h.requests
  · simpa [hcompletes, hwrites, hresponses] using h.responses

/-- A request that is received is in flight. -/
theorem Balanced.receive (h : Balanced serde encode tr s) {text : String} {req : TunnelRequest}
    (hr : Session.requestOf serde text = some req) :
    Balanced serde encode (tr ++ [.recv (some (.ok (.text text)))])
      { s with inFlight := s.inFlight ++ [req] } := by
  have hstarts : ClientEvent.starts serde (.recv (some (.ok (.text text)))) = some req := hr
  apply Balanced.snoc
  · rw [hstarts]
    refine (h.requests.append_right [req]).trans ?_
    simp only [ClientEvent.completes, Option.toList_none, List.append_nil, List.append_assoc]
    exact List.perm_append_comm.append_left _
  · exact (List.append_nil _).symm ▸ (List.append_nil _).symm ▸ h.responses

/-- A request that is forwarded leaves a response. -/
theorem Balanced.complete (h : Balanced serde encode tr s) {req : TunnelRequest}
    {result : HttpResult} (hr : req ∈ s.inFlight) (finished : Nat) :
    Balanced serde encode (tr ++ [.forwarded req result])
      { s with
        inFlight := s.inFlight.erase req
        finished
        responses := s.responses ++ [forwardResponse encode req result] } := by
  apply Balanced.snoc
  · rw [show ClientEvent.starts serde (.forwarded req result) = none from rfl,
      show ClientEvent.completes (.forwarded req result) = some (req, result) from rfl]
    refine (List.append_nil _).symm ▸ h.requests.trans ?_
    refine ((List.perm_cons_erase hr).append_right _).trans ?_
    simp only [Option.toList_some, List.map_append, List.map_cons, List.map_nil, List.cons_append,
      ← List.append_assoc]
    exact (List.perm_append_singleton req _).symm
  · rw [show ClientEvent.completes (.forwarded req result) = some (req, result) from rfl,
      show ClientEvent.writes (.forwarded req result) = none from rfl, List.map_append, h.responses]
    simp

/-- **A step keeps the account balanced**, unless it ends the session. -/
theorem Balanced.move (h : Balanced serde encode tr s) (hm : Session.Move serde encode s e s')
    (hlive : s'.Live) : Balanced serde encode (tr ++ [e]) s' := by
  cases hm with
  | unexpected _ _ _ _ | authFailed _ _ | closed _ _ | authSendFailed _ | sendFailed _ =>
      exact absurd rfl (hlive _)
  | authSend _ | authSent _ | authenticated _ _ | joined _ | ping _ | sent _ =>
      exact h.quiet rfl rfl rfl rfl rfl
  | @ignored item _ hr =>
      refine h.quiet ?_ rfl rfl rfl rfl
      unfold ClientEvent.starts
      split
      · rename_i heq
        cases heq
        exact hr _ rfl
      · rfl
  | requested _ hr => exact h.receive hr
  | forwarded hr => exact h.complete hr _
  | @respond r rest _ hr =>
      refine .snoc ?_ ?_
      · exact (List.append_nil _).symm ▸ (List.append_nil _).symm ▸ h.requests
      · rw [show ClientEvent.completes (.respond r) = none from rfl,
          show ClientEvent.writes (.respond r) = some r from rfl, List.append_assoc]
        simpa [hr] using h.responses

/-- **The account of a live session is balanced.** -/
theorem balanced_of_run (h : SessionRun serde encode config tr s) (hlive : s.Live) :
    Balanced serde encode tr s := by
  refine h.invariant (fun tr s => s.Live → Balanced serde encode tr s)
    (fun _ => .new config) (fun _ ih hs hlive => ?_) hlive
  have hm := Session.move_of_next hs
  exact (ih (hm.live hlive)).move hm hlive

/-! ### What is counted -/

/-- A forward that is done was of a request that was received. -/
theorem Balanced.requested_of_completed (h : Balanced serde encode tr s)
    {p : TunnelRequest × HttpResult} (hp : p ∈ completed tr) : p.1 ∈ requested serde tr :=
  h.requests.symm.subset (List.mem_append_right _ (List.mem_map_of_mem hp))

/-- For each id, the account in numbers. -/
theorem Balanced.count (h : Balanced serde encode tr s) (q : String) :
    (requested serde tr).countP (·.requestId = q) =
      s.inFlight.countP (·.requestId = q) + s.responses.countP (·.requestId = q) +
        (written tr).countP (·.requestId = q) := by
  -- a response carries the id of its request
  have hids : ((completed tr).map Prod.fst).countP (·.requestId = q) =
      ((completed tr).map fun p => forwardResponse encode p.1 p.2).countP (·.requestId = q) := by
    rw [List.countP_map, List.countP_map]
    refine List.countP_congr fun p _ => ?_
    rw [Function.comp_apply, Function.comp_apply, (forwardResponse_spec encode p.1 p.2).2]
  rw [h.requests.countP_eq, List.countP_append, hids, h.responses, List.countP_append]
  omega

/-- **What was written is the response to a request that was received**, in every state. -/
theorem written_of_run (h : SessionRun serde encode config tr s) {r : TunnelResponse}
    (hr : r ∈ written tr) : ∃ req result, req ∈ requested serde tr ∧
      ClientEvent.forwarded req result ∈ tr ∧ r = forwardResponse encode req result ∧
      r.requestId = req.requestId := by
  obtain ⟨e, he, hw⟩ := Lts.mem_record.mp hr
  obtain ⟨tr₁, tr₂, u, u', rfl, hrun, hs, -⟩ := h.of_mem he
  obtain rfl : e = .respond r := by cases e <;> cases hw; rfl
  -- the response was the first of those that waited
  have hm := Session.move_of_next hs
  have hlive : u.Live := by
    cases hm with
    | respond hp _ => exact Session.Looping.live (.inl hp)
  have hbal := balanced_of_run hrun hlive
  have hmem : r ∈ (completed tr₁).map fun p => forwardResponse encode p.1 p.2 := by
    rw [hbal.responses]
    cases hm with
    | respond _ hq => exact List.mem_append_right _ (hq ▸ List.mem_cons_self)
  obtain ⟨⟨req, result⟩, hp, rfl⟩ := List.mem_map.mp hmem
  obtain ⟨e, he, heq⟩ := Lts.mem_record.mp hp
  obtain rfl : e = .forwarded req result := by cases e <;> cases heq; rfl
  have hreq := hbal.requested_of_completed hp
  refine ⟨req, result, ?_, List.mem_append_left _ he, rfl,
    (forwardResponse_spec encode req result).2⟩
  rw [requested, Lts.record_append]
  exact List.mem_append_left _ hreq

/-- The stream has ended, has failed or was closed. -/
inductive StreamOver : StreamItem → Prop where
  | ended : StreamOver none
  | failed (err : String) : StreamOver (some (.error err))
  | closed : StreamOver (some (.ok .close))

/-- Whatever else is received, the loop goes on. -/
theorem looping_of_recv {item : StreamItem}
    (hs : s.next serde encode (.recv item) = some s') (hitem : ¬ StreamOver item) : s'.Looping := by
  obtain ⟨hp, h⟩ := Option.ite_none_right_eq_some.mp hs
  cases h
  rcases item with _ | err | text | _ | _
  · exact absurd .ended hitem
  · exact absurd (.failed err) hitem
  · unfold Session.received
    dsimp only
    split <;> exact .inl hp
  · exact absurd .closed hitem
  · exact .inl hp

/-- **Conservation of requests.**  While the loop is running, for every id, the requests received
are as many as the forwards in flight, the responses waiting and the responses written together;
what is written is always the response to a request that was received; and nothing that is received
ends the loop but a close frame, a failure or the end of the stream. -/
theorem client_conservation (h : SessionRun serde encode config tr s) :
    (s.Looping → ∀ q, (requested serde tr).countP (·.requestId = q) =
      s.inFlight.countP (·.requestId = q) + s.responses.countP (·.requestId = q) +
        (written tr).countP (·.requestId = q)) ∧
    (∀ r ∈ written tr, ∃ req result, req ∈ requested serde tr ∧
      ClientEvent.forwarded req result ∈ tr ∧ r = forwardResponse encode req result ∧
      r.requestId = req.requestId) ∧
    (∀ item s', s.next serde encode (.recv item) = some s' → ¬ s'.Looping → StreamOver item) := by
  refine ⟨fun hloop => (balanced_of_run h hloop.live).count, fun r => written_of_run h,
    fun item s' hs hend => ?_⟩
  by_contra hitem
  exact hend (looping_of_recv hs hitem)

end

/-- A request without parameters. -/
def bareRequest (q : String) : TunnelRequest :=
  buildTunnelRequest q ⟨"app", "GET", "", ∅, ∅, none⟩

/-- Two requests arrive; the second is answered first. -/
def overtaking : List ClientEvent :=
  [.authSend (Session.authText compactJson {}), .authSent,
    .authRecv (some (.ok (.text (authOkText compactJson)))),
    .recv (some (.ok (.text (serializeRequest compactJson (bareRequest "a"))))),
    .recv (some (.ok (.text (serializeRequest compactJson (bareRequest "b"))))),
    .recv (some (.ok .other)), .forwarded (bareRequest "b") .timeout,
    .respond (forwardResponse (fun _ => "") (bareRequest "b") .timeout), .sent]

theorem client_conservation_overtaking :
    ∃ s, SessionRun compactJson (fun _ => "") {} overtaking s ∧
      ∀ q, (requested compactJson overtaking).countP (·.requestId = q) =
        s.inFlight.countP (·.requestId = q) + s.responses.countP (·.requestId = q) +
          (written overtaking).countP (·.requestId = q) := by
  obtain ⟨s, hrun, hs⟩ := Lts.exists_run_of_execAll (fun h => h)
    (fun s : Session => decide (s.phase = .running))
    (show (Lts.execAll (fun s e => s.next compactJson (fun _ => "") e) (.new {})
      overtaking).any _ by decide +kernel)
  exact ⟨s, hrun, (client_conservation hrun).1 (.inl (of_decide_eq_true hs))⟩

end Outpunch
