import Outpunch.Server.Admission
import Outpunch.Server.Registry

/-!
# Server — a service can always be had back

Whatever has happened in a server, however many connections were closed, replaced, cut off or left
half open, and however many dispatches failed, were dropped or still wait: a client that has the
secret can connect, and a request to its service that comes then is answered by what the client
sends for it (`service_recovers`).  Nothing but the new connection, the dispatch, and the one
connection that is replaced takes part.
-/

namespace Outpunch

variable {serde : SerdeJson} {config : ServerConfig} {tr : List Event} {w w' : World} {c : ConnId}
  {k k' : Connection}

/-! ### A connection that waits -/

/-- The connection is open, and no message is on its way into it. -/
structure Connection.Attentive (k : Connection) : Prop where
  incomingTx : k.incomingTx = true
  pushing : k.pushing = []
  incoming : k.incoming = []

/-- Steps of one connection are steps of the server, and of nothing else in it. -/
theorem exists_connRun {es : List ConnEvent}
    (h : Lts.Run (Connection.Step serde w.state.config) k es k') (hk : w.conns c = some k) :
    ∃ w', Lts.Run (Step serde) w (es.map (Event.conn c)) w' ∧ w'.conns c = some k' ∧
      w'.state = w.state ∧ w'.dispatches = w.dispatches := by
  induction h with
  | nil => exact ⟨w, .nil, hk, rfl, rfl⟩
  | snoc _ hs ih =>
      obtain ⟨w₁, hrun, hk₁, hstate, hdisp⟩ := ih
      rw [List.map_append]
      rw [← hstate] at hs
      exact ⟨_, hrun.append (Lts.Run.one (.conn hk₁ hs)), World.setConn_conns_same, hstate, hdisp⟩

/-- A message gets into the incoming channel of a connection that waits. -/
theorem Connection.Attentive.push (h : k.Attentive) (hl : k.phase.listening) (text : String) :
    Lts.Run (Connection.Step serde config) k
      [.push { n := k.pushed, text }, .sent { n := k.pushed, text }]
      { k with pushed := k.pushed + 1, pushing := [], incoming := [{ n := k.pushed, text }] } := by
  obtain ⟨_, pushed, _, _, callback, outgoing, drain, phase⟩ := k
  obtain ⟨rfl, rfl, rfl⟩ := h
  have hsent : Connection.Step serde config
      ⟨true, pushed + 1, [{ n := pushed, text }], [], callback, outgoing, drain, phase⟩
      (.sent { n := pushed, text }) _ :=
    .sent (List.mem_singleton_self _) hl (Nat.zero_lt_succ _)
  rw [List.erase_cons_head] at hsent
  exact .cons (.push rfl rfl) (Lts.Run.one hsent)

/-- A new connection with a callback, whose `run` has begun. -/
def Connection.started : Connection where
  incomingTx := true
  pushed := 0
  pushing := []
  incoming := []
  callback := false
  outgoing := []
  drain := .running true
  phase := .auth

/-- One that got its first message, with what it holds of that. -/
def Connection.greeted (incoming : List Pushed) (outgoing : List String) (p : Phase) :
    Connection where
  incomingTx := true
  pushed := 1
  pushing := []
  incoming := incoming
  callback := false
  outgoing := outgoing
  drain := .running true
  phase := p

theorem Connection.attentive_started : started.Attentive := ⟨rfl, rfl, rfl⟩

theorem Connection.attentive_greeted {outgoing : List String} {p : Phase} :
    (greeted [] outgoing p).Attentive := ⟨rfl, rfl, rfl⟩

theorem Connection.canSend_greeted {outgoing : List String} {p : Phase}
    (h : outgoing.length < channelCapacity) : (greeted [] outgoing p).canSend :=
  ⟨h, by simp [greeted]⟩

/-- The message of a client that has the secret. -/
def authMessage (config : ServerConfig) (s : String) : AuthMessage where
  msgType := "auth"
  token := config.secret
  service := s

/-- A new connection whose client sends the secret comes to its registration. -/
theorem exists_registering (hserde : serde.RoundTrips) (hsecret : config.secret ≠ "")
    (s : String) : ∃ es, Lts.Run (Connection.Step serde config) .new es
      (.greeted [] [authOkText serde] (.register s)) := by
  obtain ⟨text, htext⟩ : ∃ text, text = serde.toString (authMessage config s).toValue := ⟨_, rfl⟩
  have hnext : Connection.authNext serde text = .check (authMessage config s) := by
    rw [htext, Connection.authNext, parseMessage_auth hserde rfl]
  have hvalid : Connection.tokenValid config (authMessage config s).token :=
    Connection.tokenValid_iff.mpr ⟨hsecret, rfl⟩
  have hpush : Lts.Run (Connection.Step serde config) .started _
      (.greeted [{ n := 0, text }] [] .auth) := Connection.attentive_started.push rfl text
  have hauth : Connection.Step serde config (.greeted [{ n := 0, text }] [] .auth)
      (.authRecv { n := 0, text })
      (.greeted [] [] (.check (authMessage config s))) := hnext ▸ .authRecv rfl rfl
  have hcheck : Connection.Step serde config (.greeted [] [] (.check (authMessage config s))) _
      { Connection.greeted [] [] (.check (authMessage config s)) with
        phase := Connection.checkNext serde config (authMessage config s) } := .check rfl
  rw [Connection.checkNext, if_pos hvalid, if_pos hvalid] at hcheck
  have hroom : (Connection.greeted [] [] (.reply (authOkText serde) (some s))).canSend :=
    Connection.canSend_greeted (Nat.zero_lt_succ _)
  exact ⟨_, .cons .onMessage (.cons (.run rfl) (hpush.append
    (.cons hauth (.cons hcheck (Lts.Run.one (.reply rfl hroom))))))⟩

/-- A connection that has registered comes to its relay loop; it closes the one it replaced. -/
theorem exists_upgraded (hw : w.Wf) {outgoing : List String} {s : String}
    {replaced : Option ServiceHandle}
    (hk : w.conns c = some (.greeted [] outgoing (.registered s replaced))) :
    ∃ tr' w', Lts.Run (Step serde) w tr' w' ∧ (∀ e ∈ tr', e.ConcernsConn c) ∧
      w'.conns c = some (.greeted [] outgoing (.relay s)) ∧ w'.state = w.state ∧
      w'.dispatches = w.dispatches := by
  have hs : Step serde w (.conn c .upgrade) _ := .conn hk (.upgrade rfl)
  cases replaced with
  | none =>
      exact ⟨_, _, Lts.Run.one hs, by simp [Event.ConcernsConn], World.setConn_conns_same, rfl, rfl⟩
  | some g =>
      obtain ⟨⟨-, hone⟩, hne, -⟩ := hw.replaced hk rfl
      have hk' : (w.setConn c (.greeted [] outgoing (.closing s g.connection))).conns c =
          some (.greeted [] outgoing (.closing s g.connection)) := World.setConn_conns_same
      have hs' : Step serde _ (.closeReplaced c g.connection) _ := .closeReplaced hk' rfl
      refine ⟨_, _, .cons hs (Lts.Run.one hs'), by simp [Event.ConcernsConn], ?_, rfl, rfl⟩
      exact (PartialMap.modify_other (hone ▸ hne.symm)).trans (PartialMap.insert_same ..)

/-- **A client that has the secret gets its service**, in a server in any state. -/
theorem exists_relaying (hserde : serde.RoundTrips) (hsecret : config.secret ≠ "")
    (h : ServerRun serde config tr w) (s : String) : ∃ tr' w', Lts.Run (Step serde) w tr' w' ∧
      (∀ e ∈ tr', e.ConcernsConn w.nextConnId) ∧ .register w.nextConnId s ∈ tr' ∧
      w'.conns w.nextConnId = some (.greeted [] [authOkText serde] (.relay s)) ∧
      w'.state.services s = some (handleOf w.nextConnId) ∧ w'.dispatches = w.dispatches := by
  obtain ⟨es, hes⟩ := exists_registering hserde hsecret s
  obtain ⟨w₁, hrun, hk₁, -, hdisp₁⟩ :=
    exists_connRun (w := { w.setConn w.nextConnId .new with nextConnId := w.nextConnId + 1 })
      ((config_of_run h).symm ▸ hes) World.setConn_conns_same
  have hreg : Step serde w₁ (.register w.nextConnId s) _ := .register hk₁ rfl
  have hrun₂ := (Lts.Run.cons .create hrun).append (Lts.Run.one hreg)
  obtain ⟨tr₃, w₃, hrun₃, hall, hk₃, hstate, hdisp₃⟩ :=
    exists_upgraded (wf_of_run (h.append hrun₂)) World.setConn_conns_same
  refine ⟨_, w₃, hrun₂.append hrun₃, fun e he => ?_, by simp, hk₃, ?_, hdisp₃.trans hdisp₁⟩
  · rcases List.mem_append.mp he with he | he
    · have hold : ∀ e ∈ Event.create w.nextConnId :: es.map (Event.conn w.nextConnId) ++
          [.register w.nextConnId s], e.ConcernsConn w.nextConnId := by
        simp [Event.ConcernsConn, or_imp, forall_and]
      exact hold e he
    · exact hall e he
  · rw [hstate]
    exact PartialMap.insert_same ..

/-- A request is sent to the connection that has its service. -/
theorem exists_waiting (hk : w.conns c = some k) (hroom : k.canSend) {q : RequestId}
    {incoming : IncomingRequest} (hserv : w.state.services incoming.service = some (handleOf c))
    (hq : w.dispatches q = none) :
    ∃ w' d, Lts.Run (Step serde) w [.request q incoming, .assign q c c,
        .send q c (serializeRequest serde (buildTunnelRequest q incoming))] w' ∧
      w'.conns c = some { k with
        outgoing := k.outgoing ++ [serializeRequest serde (buildTunnelRequest q incoming)] } ∧
      w'.dispatches q = some d ∧ d.phase = .waiting c ∧
      w'.state.pending q = some { connId := c, tx := q } := by
  obtain ⟨d, hd⟩ : ∃ d : Dispatch, d =
      { req := buildTunnelRequest q incoming
        json := serializeRequest serde (buildTunnelRequest q incoming)
        resp := none
        phase := .locking } := ⟨_, rfl⟩
  have hrequest : Step serde w (.request q incoming) (w.setDispatch q d) := hd ▸ .request hq
  have hd₁ : (w.setDispatch q d).dispatches q = some d := World.setDispatch_dispatches_same
  have hlocking : d.phase = .locking := by rw [hd]
  have hpark : (w.setDispatch q d).state.park d.req.service d.req.requestId q =
      some (handleOf c, _) := ServerState.park_eq_some.mpr ⟨by rw [hd]; exact hserv, rfl⟩
  obtain ⟨w₂, hassign, hd₂, hk₂, hpend⟩ : ∃ w₂, Step serde (w.setDispatch q d) (.assign q c c) w₂ ∧
      w₂.dispatches q = some { d with phase := .sending c } ∧ w₂.conns c = some k ∧
      w₂.state.pending q = some { connId := c, tx := q } := by
    refine ⟨_, .assign hd₁ hlocking hpark, World.setDispatch_dispatches_same, hk, ?_⟩
    rw [hd]
    exact PartialMap.insert_same ..
  have hsend : Step serde w₂ _ _ := .send hd₂ rfl hk₂ hroom
  have hjson : d.json = serializeRequest serde (buildTunnelRequest q incoming) := by rw [hd]
  dsimp only at hsend
  rw [hjson] at hsend
  exact ⟨_, _, .cons hrequest (.cons hassign (Lts.Run.one hsend)), PartialMap.insert_same ..,
    World.setDispatch_dispatches_same, rfl, hpend⟩

variable (config) in
/-- A connection in its relay loop that is sent a response comes to handle it. -/
theorem exists_responding (hserde : serde.RoundTrips) {s : String} (hwait : k.Attentive)
    (hp : k.phase = .relay s) {r : TunnelResponse} (htype : r.msgType = "response") :
    ∃ es m k', Lts.Run (Connection.Step serde config) k es k' ∧ k'.phase = .respond s m r := by
  have hnext : Connection.relayNext serde s { n := k.pushed, text := serializeResponse serde r } =
      .respond s { n := k.pushed, text := serializeResponse serde r } r := by
    rw [Connection.relayNext, parseMessage_response hserde htype]
  have hpush : Lts.Run (Connection.Step serde config) k _ _ :=
    hwait.push (by rw [hp]; rfl) (serializeResponse serde r)
  exact ⟨_, _, _, hpush.append (Lts.Run.one (.relayRecv hp rfl)), hnext⟩

/-- **A request is answered**, where its service is had by a connection that waits. -/
theorem exists_answered (hserde : serde.RoundTrips) {s : String} (hk : w.conns c = some k)
    (hwait : k.Attentive) (hp : k.phase = .relay s) (hroom : k.canSend)
    (hserv : w.state.services s = some (handleOf c)) {q : RequestId} (hq : w.dispatches q = none)
    {incoming : IncomingRequest} (hin : incoming.service = s) {r : TunnelResponse}
    (htype : r.msgType = "response") (hid : r.requestId = q) :
    ∃ tr' w', Lts.Run (Step serde) w tr' w' ∧ .ret q (.ok r) ∈ tr' ∧
      ∀ e ∈ tr', e.ConcernsConn c ∨ e.ConcernsDispatch q := by
  subst hin
  obtain ⟨w₁, d, hrun₁, hk₁, hd, hwaits, hpend⟩ := exists_waiting hk hroom hserv hq
  obtain ⟨es, m, k', hes, hp'⟩ := exists_responding w₁.state.config hserde
    (k := { k with
      outgoing := k.outgoing ++ [serializeRequest serde (buildTunnelRequest q incoming)] })
    ⟨hwait.incomingTx, hwait.pushing, hwait.incoming⟩ hp htype
  obtain ⟨w₂, hrun₂, hk₂, hstate, hdisp⟩ := exists_connRun hes hk₁
  have hclaim : (w₂.state.claim c r.requestId).1 = some q := by
    rw [hstate, hid]
    simp [ServerState.claim, hpend]
  have hrespond : Step serde w₂ _ _ := .respond hk₂ hp'
  rw [hclaim] at hrespond
  have hd' : (w₂.dispatches.modify q (Dispatch.answer r)) q = some { d with resp := some r } := by
    rw [PartialMap.modify_same, hdisp, hd, Option.map_some, Dispatch.answer,
      if_pos (by rw [hwaits]; rfl)]
  refine ⟨_, _, (hrun₁.append hrun₂).append (.cons hrespond
    (Lts.Run.one (.answered hd' hwaits rfl))), by simp, ?_⟩
  simp [Event.ConcernsConn, Event.ConcernsDispatch, or_imp, forall_and]

/-- **A service can always be had back.**  From any state of any run, a client that has the secret
can connect and be given its service, and whatever it sends for a new request to the service is
what the dispatch returns; no other connection and no other dispatch takes a step. -/
theorem service_recovers (hserde : serde.RoundTrips) (hsecret : config.secret ≠ "")
    (h : ServerRun serde config tr w) {q : RequestId} (hq : w.dispatches q = none)
    (incoming : IncomingRequest) {r : TunnelResponse} (htype : r.msgType = "response")
    (hid : r.requestId = q) :
    ∃ tr' w', Lts.Run (Step serde) w tr' w' ∧ .register w.nextConnId incoming.service ∈ tr' ∧
      .ret q (.ok r) ∈ tr' ∧
      ∀ e ∈ tr', e.ConcernsConn w.nextConnId ∨ e.ConcernsDispatch q := by
  obtain ⟨tr₁, w₁, hrun₁, hall₁, hreg, hk, hserv, hdisp⟩ :=
    exists_relaying hserde hsecret h incoming.service
  obtain ⟨tr₂, w₂, hrun₂, hret, hall₂⟩ := exists_answered hserde hk Connection.attentive_greeted rfl
    (Connection.canSend_greeted (Nat.succ_lt_succ (Nat.zero_lt_succ _))) hserv (hdisp ▸ hq) rfl
    htype hid
  refine ⟨tr₁ ++ tr₂, w₂, hrun₁.append hrun₂, List.mem_append_left _ hreg,
    List.mem_append_right _ hret, fun e he => ?_⟩
  rcases List.mem_append.mp he with he | he
  · exact .inl (hall₁ e he)
  · exact hall₂ e he

/-- A server whose only request has been answered, and whose client has gone silent. -/
theorem service_recovers_session : ∃ w, ServerRun compactJson demoConfig (demoSession "q") w ∧
    ∃ tr' w', Lts.Run (Step compactJson) w tr' w' ∧ .ret "p" (.ok (demoResponse "p")) ∈ tr' := by
  obtain ⟨w, h, hnew⟩ := @exists_run_to compactJson demoConfig (demoSession "q")
    (fun w => (w.dispatches "p").isNone) (by decide +kernel)
  obtain ⟨tr', w', hrun, -, hret, -⟩ := service_recovers compactJson_roundTrips (by decide) h
    (Option.isNone_iff_eq_none.mp hnew) demoRequest (r := demoResponse "p") rfl rfl
  exact ⟨w, h, tr', w', hrun, hret⟩

end Outpunch
