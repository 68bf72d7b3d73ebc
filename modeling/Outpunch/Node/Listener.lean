import Outpunch.Node.Handler

/-!
# Node — what is thrown

`handleRequest` and `handleUpgrade` of the Node adapter whole: `new URL`, which throws on what it
does not parse, and the listener on `end`, which reads the body as a text and writes what the core
returned.  It is an `async` function nobody awaits, so what it throws is a rejection nobody handles.
What `new URL`, `toString` and `writeHead` accept is Node's own, except as far as it is documented
(`NodeRuntime`).
-/

namespace Outpunch

/-- A value `writeHead` takes: a character above those of a byte is refused. -/
def isNodeHeaderValue (s : String) : Bool :=
  s.toList.all fun c => c = '\t' || 32 ≤ c.toNat && c.toNat ≤ 255 && c.toNat ≠ 127

/-- A request as Node hands it to the adapter; its body has come whole, in these chunks. -/
structure IncomingMessage where
  url : String
  method : Option String
  httpVersion : String
  headers : List (String × NodeHeader)
  body : List (List UInt8)
  deriving DecidableEq

/-- The part of Node the adapter calls. -/
structure NodeRuntime where
  /-- `new URL(target, base)`, or `none` where it throws. -/
  parseUrl : String → String → Option NodeUrl
  /-- `Buffer.concat` and `toString` return for a body of these bytes; they throw for one that is
  too long for a buffer or a string. -/
  readsBody : List UInt8 → Bool
  /-- `res.writeHead(status, headers)` returns in the reply to this request; otherwise it throws.
  The request matters: a `Trailer` is refused where the reply is not sent in chunks. -/
  writesHead : IncomingMessage → UInt16 → List (String × String) → Bool
  /-- `Buffer.from(text, 'base64')`. -/
  fromBase64 : String → List UInt8
  parseUrl_slashes : ∀ base, parseUrl "//" base = none
  writesHead_status : ∀ {req status headers}, writesHead req status headers →
    100 ≤ status ∧ status ≤ 999
  writesHead_header : ∀ {req status headers}, writesHead req status headers → ∀ h ∈ headers,
    isToken h.1 ∧ isNodeHeaderValue h.2
  writesHead_plain : ∀ {req status}, 100 ≤ status → status ≤ 999 → writesHead req status []

namespace IncomingMessage

/-- What a template literal makes of `req.headers.host ?? 'localhost'`. -/
def host (req : IncomingMessage) : String :=
  match req.headers.lookup "host" with
  | some (.single value) => value
  | some (.several values) => ",".intercalate values
  | none => "localhost"

/-- The base of the URL of a request. -/
def base (req : IncomingMessage) : String := "http://" ++ req.host

/-- The request, with its URL parsed. -/
def withUrl (req : IncomingMessage) (url : NodeUrl) : NodeRequest where
  url := url
  method := req.method
  headers := req.headers
  body := chunks req.body

end IncomingMessage

/-- How a call of the adapter ends. -/
inductive CallEnd where
  | returned (value : Bool)
  | threw
  deriving DecidableEq

/-- What becomes of a request: how the call ends, the replies that are ended, and whether a
rejected promise is left. -/
structure Handling where
  call : CallEnd
  ended : List HttpReply
  rejected : Bool
  deriving DecidableEq

section

variable (node : NodeRuntime)

/-- The body the listener ends the reply with. -/
def nodeResponseBody (resp : TunnelResponse) : List UInt8 :=
  match resp.body, resp.bodyEncoding with
  | some encoded, some "base64" => node.fromBase64 encoded
  | some plain, _ => bytes plain
  | none, _ => []

/-- The listener on `end`, once the core has returned. -/
def respond (req : IncomingMessage) (resp : TunnelResponse) : Handling :=
  if node.writesHead req resp.status resp.headers.toList then
    { call := .returned true
      ended := [{ status := resp.status, headers := resp.headers.toList
                  body := nodeResponseBody node resp }]
      rejected := false }
  else { call := .returned true, ended := [], rejected := true }

/-- The listener on `end` makes a text of the body, unless it is empty. -/
def bodyRead (req : IncomingMessage) : Bool :=
  req.body.flatten.isEmpty || node.readsBody req.body.flatten

/-- `handleRequest` and its listeners, where the core returns `resp` if it is asked. -/
def handleRequest (options : AdapterOptions) (req : IncomingMessage) (resp : TunnelResponse) :
    Handling :=
  match node.parseUrl req.url req.base with
  | none => { call := .threw, ended := [], rejected := false }
  | some url =>
    match nodeHandleRequest options (req.withUrl url) with
    | .passed => { call := .returned false, ended := [], rejected := false }
    | .replied reply =>
      if node.writesHead req reply.status reply.headers then
        { call := .returned true, ended := [reply], rejected := false }
      else { call := .threw, ended := [], rejected := false }
    | .unfinished => { call := .returned true, ended := [], rejected := false }
    | .handed _ =>
      if bodyRead node req then respond node req resp
      else { call := .returned true, ended := [], rejected := true }

/-- `handleUpgrade`; the callback runs when `ws` has upgraded the socket. -/
def handleUpgrade (wsPath : String) (req : IncomingMessage) : CallEnd :=
  match node.parseUrl req.url req.base with
  | none => .threw
  | some url => .returned (url.pathname = wsPath)

end

/-- Nothing is thrown or rejected, and a request that is taken is answered once. -/
def Handling.Sound (h : Handling) : Prop :=
  h.rejected = false ∧ (h.call = .returned false ∧ h.ended = [] ∨
    h.call = .returned true ∧ h.ended.length = 1)

/-- The URL names a service under the tunnel's prefix. -/
def namesService (options : AdapterOptions) (url : NodeUrl) : Bool :=
  (nodeRoute (options.tunnelPrefix.getD "/tunnel") url.pathname).any fun route => route.1 ≠ ""

section

variable {node : NodeRuntime} {options : AdapterOptions} {req : IncomingMessage}
  {resp : TunnelResponse} {wsPath : String} {url : NodeUrl}

/-! ### The listener -/

theorem respond_sound_iff :
    (respond node req resp).Sound ↔ node.writesHead req resp.status resp.headers.toList := by
  unfold respond
  cases node.writesHead req resp.status resp.headers.toList with
  | true => exact iff_of_true ⟨rfl, .inr ⟨rfl, rfl⟩⟩ rfl
  | false => exact iff_of_false (fun h => Bool.noConfusion h.1) Bool.false_ne_true

/-- A status or a header Node refuses leaves the caller without an answer. -/
theorem not_respond_sound (h : ¬ (100 ≤ resp.status ∧ resp.status ≤ 999) ∨
    ∃ p ∈ resp.headers.toList, ¬ (isToken p.1 ∧ isNodeHeaderValue p.2)) :
    ¬ (respond node req resp).Sound := by
  rw [respond_sound_iff]
  intro hw
  rcases h with h | ⟨p, hp, h⟩
  · exact h (node.writesHead_status hw)
  · exact h (node.writesHead_header hw p hp)

/-! ### The handler -/

/-- A request that names a service is handed to the core. -/
theorem nodeHandleRequest_cases (options : AdapterOptions) (req : IncomingMessage)
    (url : NodeUrl) :
    (namesService options url ∧
      ∃ incoming, nodeHandleRequest options (req.withUrl url) = .handed incoming) ∨
    ¬ namesService options url ∧
      (nodeHandleRequest options (req.withUrl url) = .passed ∨
        ∃ body, nodeHandleRequest options (req.withUrl url) =
          .replied { status := 400, headers := [], body }) := by
  unfold namesService nodeHandleRequest IncomingMessage.withUrl
  dsimp only
  cases nodeRoute (options.tunnelPrefix.getD "/tunnel") url.pathname with
  | none => exact .inr ⟨by simp, .inl rfl⟩
  | some route =>
      obtain ⟨service, path⟩ := route
      by_cases hs : service = ""
      · exact .inr ⟨by simp [hs], .inr ⟨_, if_pos hs⟩⟩
      · dsimp only
        rw [readToEnd_chunks, if_neg hs]
        exact .inl ⟨by simpa using hs, _, rfl⟩

theorem handleRequest_sound_iff (hurl : node.parseUrl req.url req.base = some url) :
    (handleRequest node options req resp).Sound ↔
      (namesService options url → bodyRead node req ∧
        node.writesHead req resp.status resp.headers.toList) := by
  unfold handleRequest
  rw [hurl]
  dsimp only
  rcases nodeHandleRequest_cases options req url with
    ⟨hs, incoming, heq⟩ | ⟨hs, heq | ⟨body, heq⟩⟩
  · rw [heq, ← respond_sound_iff]
    dsimp only
    cases bodyRead node req with
    | true => exact ⟨fun h _ => ⟨rfl, h⟩, fun h => (h hs).2⟩
    | false => exact iff_of_false (fun h => Bool.noConfusion h.1) fun h => Bool.noConfusion (h hs).1
  · rw [heq]
    exact iff_of_true ⟨rfl, .inl ⟨rfl, rfl⟩⟩ fun h => absurd h hs
  · rw [heq]
    have hw : node.writesHead req 400 [] := node.writesHead_plain (by decide) (by decide)
    dsimp only
    rw [if_pos hw]
    exact iff_of_true ⟨rfl, .inr ⟨rfl, rfl⟩⟩ fun h => absurd h hs

/-- The target `//` is no URL, whatever the host is. -/
theorem handleRequest_slashes (h : req.url = "//") :
    (handleRequest node options req resp).call = .threw ∧
      handleUpgrade node wsPath req = .threw := by
  have hurl : node.parseUrl req.url req.base = none := by
    rw [h]
    exact node.parseUrl_slashes req.base
  rw [handleRequest, handleUpgrade, hurl]
  exact ⟨rfl, rfl⟩

/-- **The adapter throws nothing exactly when `new URL` takes what the caller sent, and, for a
request that names a service, its body can be read as a text and `writeHead` takes what the core
returned.** -/
theorem node_never_throws :
    ((handleRequest node options req resp).Sound ∧
        ∃ b, handleUpgrade node wsPath req = .returned b) ↔
      ∃ url, node.parseUrl req.url req.base = some url ∧
        (namesService options url → bodyRead node req ∧
          node.writesHead req resp.status resp.headers.toList) := by
  cases hurl : node.parseUrl req.url req.base with
  | none =>
      refine iff_of_false (fun h => ?_) (by simp)
      obtain ⟨-, b, hb⟩ := h
      rw [handleUpgrade, hurl] at hb
      cases hb
  | some url =>
      have hupgrade : ∃ b, handleUpgrade node wsPath req = .returned b := by
        rw [handleUpgrade, hurl]
        exact ⟨_, rfl⟩
      rw [and_iff_left hupgrade, handleRequest_sound_iff hurl]
      constructor
      · intro h
        exact ⟨url, rfl, h⟩
      · rintro ⟨url', heq, h⟩
        cases heq
        exact h

/-- Node, on targets that are a path. -/
def pathNode : NodeRuntime where
  parseUrl target _ :=
    if "//".toList.isPrefixOf target.toList then none
    else some { pathname := .ofList (target.toList.takeWhile (· ≠ '?')), searchParams := [] }
  readsBody body := body.length ≤ 0x1fffffe8
  writesHead _ status headers :=
    100 ≤ status && status ≤ 999 && headers.all fun h => isToken h.1 && isNodeHeaderValue h.2
  fromBase64 := bytes
  parseUrl_slashes := fun _ => rfl
  writesHead_status := by
    intro _ status headers h
    simp only [Bool.and_eq_true, decide_eq_true_eq] at h
    exact h.1
  writesHead_header := by
    intro _ status headers h
    simp only [Bool.and_eq_true, List.all_eq_true] at h
    exact h.2
  writesHead_plain := by
    intro _ status h₁ h₂
    simp [h₁, h₂]

/-- A target without a host, a status of two digits, and a name with a blank in it. -/
theorem node_throws :
    let get (target : String) : IncomingMessage :=
      { url := target, method := some "GET", httpVersion := "1.1", headers := [], body := [] }
    let reply (status : UInt16) (headers : StringMap) : TunnelResponse :=
      { msgType := "response", requestId := "q", status, headers, body := some "ok"
        bodyEncoding := none }
    let handled (target : String) (resp : TunnelResponse) :=
      handleRequest pathNode {} (get target) resp
    handled "//" (reply 200 ∅) = { call := .threw, ended := [], rejected := false } ∧
      handleUpgrade pathNode "/ws" (get "//") = .threw ∧
      handled "/tunnel/app/x" (reply 99 ∅) =
        { call := .returned true, ended := [], rejected := true } ∧
      handled "/tunnel/app/x" (reply 200 (.ofList [("a b", "c")])) =
        { call := .returned true, ended := [], rejected := true } ∧
      ¬ (handled "//" (reply 200 ∅)).Sound ∧ ¬ (handled "/tunnel/app/x" (reply 99 ∅)).Sound := by
  unfold Handling.Sound
  decide +kernel

end

end Outpunch
