import Outpunch.Protocol.Messages

/-!
# Client — one connection

`run_connection` of the tunnel client, from the connected WebSocket on: `authenticate`, then the
loop that receives requests, forwards each in a task of its own, and writes the responses as they
come.  The steps are a function of what happens (`Session.next`): the frames the WebSocket yields,
the results of the forwarded HTTP requests, and which branch of the loop is taken.  What ends the
call drops the forwarding tasks and the channel their responses come on.

The HTTP client is outside: `HttpResult` is what it gives back, and `encode` is the base64 encoder.
-/

namespace Outpunch

/-- `ClientConfig`, with its `Default`: what one connection reads of it. -/
structure ClientConfig where
  secret : String := ""
  service : String := ""
  forwardTo : String := "http://localhost:8080"
  deriving DecidableEq

/-! ### `forward_request` -/

/-- A response of the local service: its headers with their values, where these are text, and its
body, where it could be read. -/
structure HttpResponse where
  status : UInt16
  headers : List (String × Option String)
  body : Option (List UInt8)
  deriving DecidableEq

/-- What the HTTP client gives back. -/
inductive HttpResult where
  | ok (response : HttpResponse)
  | timeout
  | error (text : String)
  deriving DecidableEq

section

variable (encode : List UInt8 → String)

/-- What `forward_request` makes of the result of its HTTP request. -/
def forwardResponse (req : TunnelRequest) : HttpResult → TunnelResponse
  | .ok response =>
    { msgType := "response"
      requestId := req.requestId
      status := response.status
      headers := .ofList (response.headers.filterMap fun h => h.2.map fun value => (h.1, value))
      body := some (encode (response.body.getD []))
      bodyEncoding := some "base64" }
  | .timeout => errorResponse req.requestId 504 "local service timeout"
  | .error text => errorResponse req.requestId 502 ("local service error: " ++ text)

/-- A forwarded request is answered by a response to it. -/
theorem forwardResponse_spec (req : TunnelRequest) (result : HttpResult) :
    (forwardResponse encode req result).msgType = "response" ∧
      (forwardResponse encode req result).requestId = req.requestId := by
  cases result <;> exact ⟨rfl, rfl⟩

end

/-! ### `run_connection` -/

/-- A frame of the WebSocket. -/
inductive Frame where
  | text (text : String)
  | close
  /-- Binary, ping or pong. -/
  | other
  deriving DecidableEq

/-- What `ws_stream.next()` yields. -/
abbrev StreamItem := Option (Except String Frame)

/-- Why `run_connection` failed. -/
inductive ClientError where
  /-- The WebSocket failed. -/
  | webSocket (text : String)
  | closedBeforeAuth
  | unexpectedType
  | parse (text : String)
  | rejected (message : String)
  | unexpectedMessage
  deriving DecidableEq

/-- Where `run_connection` stands. -/
inductive ClientPhase where
  /-- Connected, before `authenticate` sends. -/
  | connected
  /-- In `authenticate`, at `ws_sink.send(auth)`. -/
  | authSending
  /-- In `authenticate`, at `ws_stream.next()`. -/
  | authWaiting
  /-- In the loop, at `select!`. -/
  | running
  /-- In the loop, at a `ws_sink.send`. -/
  | sending
  /-- Over. -/
  | ended (result : Except ClientError Unit)
  deriving DecidableEq

structure Session where
  config : ClientConfig
  phase : ClientPhase
  /-- The requests whose tasks are in `forward_request`. -/
  inFlight : List TunnelRequest
  /-- How many tasks are over and were not joined. -/
  finished : Nat
  /-- What the response channel holds. -/
  responses : List TunnelResponse
  deriving DecidableEq

inductive ClientEvent where
  /-- `authenticate` passes its message to the WebSocket. -/
  | authSend (text : String)
  | authSent
  | authSendFailed (err : String)
  /-- `authenticate` receives. -/
  | authRecv (item : StreamItem)
  /-- The loop receives. -/
  | recv (item : StreamItem)
  /-- A task is done with `forward_request`, and sends the response to the loop. -/
  | forwarded (req : TunnelRequest) (result : HttpResult)
  | joined
  /-- The loop passes a response to the WebSocket. -/
  | respond (response : TunnelResponse)
  | ping
  /-- A send of the loop completes. -/
  | sent
  | sendFailed (err : String)
  deriving DecidableEq

namespace Session

/-- A `run_connection` that has connected. -/
def new (config : ClientConfig) : Session where
  config := config
  phase := .connected
  inFlight := []
  finished := 0
  responses := []

/-- `run_connection` returns, and drops what it holds. -/
def stop (s : Session) (result : Except ClientError Unit) : Session where
  config := s.config
  phase := .ended result
  inFlight := []
  finished := 0
  responses := []

section

variable (serde : SerdeJson) (encode : List UInt8 → String)

/-- The message `authenticate` sends. -/
def authText (config : ClientConfig) : String :=
  serde.toString (AuthMessage.toValue
    { msgType := "auth", token := config.secret, service := config.service })

/-- What `authenticate` does with what it received. -/
def authReceived (s : Session) : StreamItem → Session
  | none => s.stop (.error .closedBeforeAuth)
  | some (.error err) => s.stop (.error (.webSocket err))
  | some (.ok (.text text)) =>
    match parseMessage serde text with
    | .error err => s.stop (.error (.parse err))
    | .ok (.authOk _) => { s with phase := .running }
    | .ok (.authError e) => s.stop (.error (.rejected e.message))
    | .ok _ => s.stop (.error .unexpectedMessage)
  | some (.ok _) => s.stop (.error .unexpectedType)

/-- The request a text is, if it is one. -/
def requestOf (text : String) : Option TunnelRequest :=
  match parseMessage serde text with
  | .ok (.request req) => some req
  | _ => none

/-- What the loop does with what it received. -/
def received (s : Session) : StreamItem → Session
  | some (.ok (.text text)) =>
    match requestOf serde text with
    | some req => { s with inFlight := s.inFlight ++ [req] }
    | none => s
  | some (.ok .other) => s
  | some (.ok .close) | some (.error _) | none => s.stop (.ok ())

/-- The steps of `run_connection` and its tasks. -/
def next (s : Session) : ClientEvent → Option Session
  | .authSend text =>
    if s.phase = .connected ∧ text = authText serde s.config then
      some { s with phase := .authSending }
    else none
  | .authSent => if s.phase = .authSending then some { s with phase := .authWaiting } else none
  | .authSendFailed err =>
    if s.phase = .authSending then some (s.stop (.error (.webSocket err))) else none
  | .authRecv item => if s.phase = .authWaiting then some (s.authReceived serde item) else none
  | .recv item => if s.phase = .running then some (s.received serde item) else none
  | .forwarded req result =>
    if req ∈ s.inFlight then
      some { s with
        inFlight := s.inFlight.erase req
        finished := s.finished + 1
        responses := s.responses ++ [forwardResponse encode req result] }
    else none
  | .joined =>
    if s.phase = .running ∧ 0 < s.finished then some { s with finished := s.finished - 1 } else none
  | .respond response =>
    match s.phase, s.responses with
    | .running, r :: rest =>
      if response = r then some { s with phase := .sending, responses := rest } else none
    | _, _ => none
  | .ping => if s.phase = .running then some { s with phase := .sending } else none
  | .sent => if s.phase = .sending then some { s with phase := .running } else none
  | .sendFailed err =>
    if s.phase = .sending then some (s.stop (.error (.webSocket err))) else none

end

/-! ### What a step does -/

/-- What an event makes of a session. -/
inductive Move (serde : SerdeJson) (encode : List UInt8 → String) (s : Session) :
    ClientEvent → Session → Prop where
  | authSend (hp : s.phase = .connected) :
      Move serde encode s (.authSend (authText serde s.config)) { s with phase := .authSending }
  | authSent (hp : s.phase = .authSending) :
      Move serde encode s .authSent { s with phase := .authWaiting }
  | authenticated {text : String} {m : AuthOk} (hp : s.phase = .authWaiting)
      (hm : parseMessage serde text = .ok (.authOk m)) :
      Move serde encode s (.authRecv (some (.ok (.text text)))) { s with phase := .running }
  | unexpected {text : String} {m : Message} (hp : s.phase = .authWaiting)
      (hm : parseMessage serde text = .ok m) (hok : ∀ r, m ≠ .authOk r)
      (herr : ∀ r, m ≠ .authError r) :
      Move serde encode s (.authRecv (some (.ok (.text text))))
        (s.stop (.error .unexpectedMessage))
  | authFailed {item : StreamItem} {err : ClientError} (hp : s.phase = .authWaiting)
      (herr : err ≠ .unexpectedMessage) :
      Move serde encode s (.authRecv item) (s.stop (.error err))
  | requested {text : String} {req : TunnelRequest} (hp : s.phase = .running)
      (hr : requestOf serde text = some req) :
      Move serde encode s (.recv (some (.ok (.text text))))
        { s with inFlight := s.inFlight ++ [req] }
  | ignored {item : StreamItem} (hp : s.phase = .running)
      (hr : ∀ text, item = some (.ok (.text text)) → requestOf serde text = none) :
      Move serde encode s (.recv item) s
  | closed {item : StreamItem} (hp : s.phase = .running)
      (hr : ∀ text, item ≠ some (.ok (.text text))) :
      Move serde encode s (.recv item) (s.stop (.ok ()))
  | forwarded {req : TunnelRequest} {result : HttpResult} (hr : req ∈ s.inFlight) :
      Move serde encode s (.forwarded req result)
        { s with
          inFlight := s.inFlight.erase req
          finished := s.finished + 1
          responses := s.responses ++ [forwardResponse encode req result] }
  | joined (hp : s.phase = .running) :
      Move serde encode s .joined { s with finished := s.finished - 1 }
  | respond {r : TunnelResponse} {rest : List TunnelResponse} (hp : s.phase = .running)
      (hr : s.responses = r :: rest) :
      Move serde encode s (.respond r) { s with phase := .sending, responses := rest }
  | ping (hp : s.phase = .running) : Move serde encode s .ping { s with phase := .sending }
  | sent (hp : s.phase = .sending) : Move serde encode s .sent { s with phase := .running }
  | authSendFailed {err : String} (hp : s.phase = .authSending) :
      Move serde encode s (.authSendFailed err) (s.stop (.error (.webSocket err)))
  | sendFailed {err : String} (hp : s.phase = .sending) :
      Move serde encode s (.sendFailed err) (s.stop (.error (.webSocket err)))

variable {serde : SerdeJson} {encode : List UInt8 → String} {s s' : Session} {e : ClientEvent}

theorem move_authReceived {item : StreamItem} (hp : s.phase = .authWaiting) :
    Move serde encode s (.authRecv item) (s.authReceived serde item) := by
  unfold authReceived
  split
  · exact .authFailed hp (by simp)
  · exact .authFailed hp (by simp)
  · split
    · exact .authFailed hp (by simp)
    · rename_i hm
      exact .authenticated hp hm
    · exact .authFailed hp (by simp)
    · rename_i hok herr hm
      exact .unexpected hp hm hok herr
  · exact .authFailed hp (by simp)

theorem move_received {item : StreamItem} (hp : s.phase = .running) :
    Move serde encode s (.recv item) (s.received serde item) := by
  unfold received
  split
  · split
    · rename_i hr
      exact .requested hp hr
    · rename_i hr
      exact .ignored hp (by rintro _ ⟨⟩; exact hr)
  · exact .ignored hp (by simp)
  all_goals exact .closed hp (by simp)

theorem move_of_next (h : s.next serde encode e = some s') : Move serde encode s e s' := by
  cases e with
  | respond response =>
      simp only [next] at h
      split at h
      · rename_i hp hr
        split at h
        · rename_i heq
          cases h
          exact heq ▸ .respond hp hr
        · cases h
      · cases h
  | _ =>
      obtain ⟨hg, h⟩ := Option.ite_none_right_eq_some.mp h
      cases h
      first
        | exact .authSent hg | exact .authSendFailed hg | exact move_authReceived hg
        | exact move_received hg | exact .forwarded hg | exact .joined hg.1 | exact .ping hg
        | exact .sent hg | exact .sendFailed hg | (cases hg.2; exact .authSend hg.1)

end Session

/-- The request the loop starts a `forward_request` for. -/
def ClientEvent.starts (serde : SerdeJson) : ClientEvent → Option TunnelRequest
  | .recv (some (.ok (.text text))) => Session.requestOf serde text
  | _ => none

end Outpunch
