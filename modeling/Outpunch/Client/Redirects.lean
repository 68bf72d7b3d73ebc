import Outpunch.Client.Forward
import Outpunch.Client.Outcome

/-!
# Client — redirects

`run_connection` makes its HTTP client by `reqwest::Client::new()`, which follows redirects, and
`forward_request` sends through it.  `RedirectClient` is that client: where a `Location` leads and
what is asked there are its own, except as far as they are documented.  The local service is a
function from requests to what it does with them.

What `forward_request` returns is the service's own answer exactly when that answer is not one the
client follows (`forward_own_answer`).
-/

namespace Outpunch

/-- A status the HTTP client takes for a redirect. -/
def isRedirect (status : UInt16) : Bool :=
  status = 301 || status = 302 || status = 303 || status = 307 || status = 308

/-- The first `Location` of an answer: its value, where this is text. -/
def location (headers : HeaderMap) : Option (Option String) :=
  (headers.find? fun h => h.1 = "location").map Prod.snd

/-- An HTTP client that follows redirects. -/
structure RedirectClient where
  /-- The text is the URL of an HTTP service. -/
  isHttpUrl : String → Bool
  /-- Where a `Location` with this value leads from a URL, if anywhere. -/
  resolve : String → Option String → Option String
  /-- What is asked of the URL an answer with this status leads to. -/
  redirected : HttpRequest → UInt16 → String → HttpRequest
  /-- The text of the error for a URL the client does not go to. -/
  errorText : String → String
  redirected_url : ∀ r status url, (redirected r status url).url = url
  /-- A POST that is redirected by 301, 302 or 303 becomes a GET. -/
  redirected_post : ∀ r status url, r.method = "POST" →
    status = 301 ∨ status = 302 ∨ status = 303 → (redirected r status url).method = "GET"

namespace RedirectClient

variable (client : RedirectClient) (service : HttpRequest → ServiceBehaviour)

/-- Where an answer to a request for `url` leads: nowhere, if the client does not follow it. -/
def nextUrl (url : String) (status : UInt16) (headers : HeaderMap) : Option String :=
  if isRedirect status then (location headers).bind (client.resolve url) else none

/-- The request an answer makes the client send next. -/
def followUp (r : HttpRequest) : ServiceBehaviour → Option HttpRequest
  | .answered status headers _ _ =>
    (client.nextUrl r.url status headers).map (client.redirected r status)
  | _ => none

/-- `send`, with this many redirects left: the requests the service receives, and the result. -/
def send : Nat → HttpRequest → List HttpRequest × HttpResult
  | hops, r =>
    match client.followUp r (service r) with
    | none => ([r], (service r).result)
    | some next =>
      match hops with
      | 0 => ([r], .error (client.errorText next.url))
      | hops + 1 =>
        if client.isHttpUrl next.url then
          (r :: (send hops next).1, (send hops next).2)
        else ([r], .error (client.errorText next.url))

/-- The redirects the client follows. -/
def maxHops : Nat := 10

/-- The client sends a request: it can be built. -/
def sends (r : HttpRequest) : Bool := r.accepted && client.isHttpUrl r.url

/-- `forward_request`: the requests the service receives, and what is returned. -/
def forwardRequest (encode : List UInt8 → String) (config : ClientConfig) (req : TunnelRequest) :
    List HttpRequest × TunnelResponse :=
  let r := httpRequest config req
  if client.sends r then
    ((client.send service maxHops r).1,
      forwardResponse encode req (client.send service maxHops r).2)
  else ([], forwardResponse encode req (.error (client.errorText r.url)))

/-! ### Chains of redirects -/

/-- The requests of one `send`, in order, with its result. -/
inductive Exchange : List HttpRequest → HttpResult → Prop where
  /-- An answer that is not followed is the result. -/
  | last {r : HttpRequest} (hf : client.followUp r (service r) = none) :
      Exchange [r] (service r).result
  /-- An answer that would be followed is lost: it leads to no HTTP service, or too far. -/
  | refused {r next : HttpRequest} (hf : client.followUp r (service r) = some next) :
      Exchange [r] (.error (client.errorText next.url))
  | hop {r next : HttpRequest} {rest : List HttpRequest} {result : HttpResult}
      (hf : client.followUp r (service r) = some next) (h : Exchange (next :: rest) result) :
      Exchange (r :: next :: rest) result

variable {hops : Nat} {r : HttpRequest}

/-- The service receives the request first. -/
theorem send_head (hops : Nat) (r : HttpRequest) :
    ∃ rest, (client.send service hops r).1 = r :: rest := by
  unfold send
  cases client.followUp r (service r) with
  | none => exact ⟨[], rfl⟩
  | some next =>
      cases hops with
      | zero => exact ⟨[], rfl⟩
      | succ hops =>
          dsimp only
          split
          · exact ⟨_, rfl⟩
          · exact ⟨[], rfl⟩

/-- **Each request after the first is one the answer before it asked for.** -/
theorem send_exchange (hops : Nat) (r : HttpRequest) :
    client.Exchange service (client.send service hops r).1 (client.send service hops r).2 := by
  induction hops generalizing r with
  | zero =>
      unfold send
      cases hf : client.followUp r (service r) with
      | none => exact .last hf
      | some next => exact .refused hf
  | succ hops ih =>
      unfold send
      cases hf : client.followUp r (service r) with
      | none => exact .last hf
      | some next =>
          dsimp only
          split
          · obtain ⟨rest, hrest⟩ := send_head client service hops next
            have h := ih next
            rw [hrest] at h ⊢
            exact .hop hf h
          · exact .refused hf

variable {client service}

theorem send_of_followUp_none (h : client.followUp r (service r) = none) :
    client.send service hops r = ([r], (service r).result) := by
  unfold send
  rw [h]

/-- A chain of redirects is followed to its end, or for the hops there are. -/
theorem length_send_le (hops : Nat) (r : HttpRequest) :
    (client.send service hops r).1.length ≤ hops + 1 := by
  induction hops generalizing r with
  | zero =>
      unfold send
      cases client.followUp r (service r) <;> exact Nat.le_refl 1
  | succ hops ih =>
      unfold send
      cases client.followUp r (service r) with
      | none => exact Nat.succ_le_succ (Nat.zero_le _)
      | some next =>
          dsimp only
          split
          · exact Nat.succ_le_succ (ih next)
          · exact Nat.succ_le_succ (Nat.zero_le _)

/-- A request that becomes another by a redirect is answered with a redirect. -/
theorem isRedirect_of_followUp {b : ServiceBehaviour} {next : HttpRequest}
    (h : client.followUp r b = some next) :
    ∃ status headers pieces ending, b = .answered status headers pieces ending ∧
      isRedirect status ∧ client.nextUrl r.url status headers = some next.url := by
  cases b with
  | timeout | error _ => cases h
  | answered status headers pieces ending =>
      obtain ⟨url, hurl, rfl⟩ := Option.map_eq_some_iff.mp h
      refine ⟨status, headers, pieces, ending, rfl, ?_, ?_⟩
      · by_contra hno
        rw [nextUrl, if_neg hno] at hurl
        cases hurl
      · rw [client.redirected_url, hurl]

/-- What was posted is asked for again by a GET, where the redirect says so. -/
theorem method_of_followUp {status : UInt16} {headers : HeaderMap} {pieces : List (List UInt8)}
    {ending : BodyEnd} {next : HttpRequest}
    (h : client.followUp r (.answered status headers pieces ending) = some next)
    (hpost : r.method = "POST") (hstatus : status = 301 ∨ status = 302 ∨ status = 303) :
    next.method = "GET" := by
  obtain ⟨url, -, rfl⟩ := Option.map_eq_some_iff.mp h
  exact client.redirected_post r status url hpost hstatus

/-- No redirect has the status of an error of the client. -/
theorem ne_of_isRedirect {status : UInt16} (h : isRedirect status) : status ≠ 502 := by
  rintro rfl
  revert h
  decide

/-! ### The service's own answer -/

/-- The service received one request, and its answer to that is what is returned. -/
def OwnAnswer (status : UInt16) (out : List HttpRequest × TunnelResponse) : Prop :=
  out.1.length = 1 ∧ out.2.status = status

variable {encode : List UInt8 → String} {config : ClientConfig} {req : TunnelRequest}

theorem forwardRequest_of_sends (h : client.sends (httpRequest config req)) :
    client.forwardRequest service encode config req =
      ((client.send service maxHops (httpRequest config req)).1,
        forwardResponse encode req (client.send service maxHops (httpRequest config req)).2) := by
  unfold forwardRequest
  rw [if_pos h]

/-- An answer that leads nowhere is returned as it is, its `Location` included. -/
theorem forwardRequest_of_nextUrl_none {status : UInt16} {headers : HeaderMap}
    {pieces : List (List UInt8)} (hsends : client.sends (httpRequest config req))
    (hanswer : service (httpRequest config req) = .answered status headers pieces .complete)
    (hnext : client.nextUrl (httpRequest config req).url status headers = none) :
    client.forwardRequest service encode config req =
      ([httpRequest config req],
        forwardResponse encode req (.ok { status, headers, body := some pieces.flatten })) := by
  have hf : client.followUp (httpRequest config req) (service (httpRequest config req)) = none := by
    rw [hanswer, followUp, hnext]
    rfl
  rw [forwardRequest_of_sends hsends, send_of_followUp_none hf, hanswer]
  rfl

/-- An answer that is followed is not returned: the service receives another request, or the
client reports an error. -/
theorem not_ownAnswer_of_followUp {status : UInt16} {headers : HeaderMap}
    {pieces : List (List UInt8)} {next : HttpRequest}
    (hsends : client.sends (httpRequest config req))
    (hanswer : service (httpRequest config req) = .answered status headers pieces .complete)
    (hnext : client.followUp (httpRequest config req) (service (httpRequest config req)) =
      some next) :
    ¬ OwnAnswer status (client.forwardRequest service encode config req) := by
  rw [forwardRequest_of_sends hsends]
  obtain ⟨rest, hrest⟩ := send_head client service maxHops
    (httpRequest config req)
  have h := send_exchange client service maxHops (httpRequest config req)
  rw [hrest] at h ⊢
  generalize (client.send service maxHops (httpRequest config req)).2 = result at h
  rintro ⟨hlen, hstatus⟩
  cases h with
  | last hf =>
      rw [hf] at hnext
      cases hnext
  | refused hf =>
      obtain ⟨_, _, _, _, heq, hred, -⟩ := isRedirect_of_followUp hnext
      cases hanswer.symm.trans heq
      exact ne_of_isRedirect hred hstatus.symm
  | hop hf h => cases hlen

/-- **The service's own answer reaches the caller exactly when the HTTP client does not follow
it.** -/
theorem forward_own_answer {status : UInt16} {headers : HeaderMap} {pieces : List (List UInt8)}
    (hsends : client.sends (httpRequest config req))
    (hanswer : service (httpRequest config req) = .answered status headers pieces .complete) :
    OwnAnswer status (client.forwardRequest service encode config req) ↔
      client.nextUrl (httpRequest config req).url status headers = none := by
  constructor
  · intro h
    cases hnext : client.nextUrl (httpRequest config req).url status headers with
    | none => rfl
    | some url =>
        have hf : client.followUp (httpRequest config req) (service (httpRequest config req)) =
            some (client.redirected (httpRequest config req) status url) := by
          rw [hanswer, followUp, hnext]
          rfl
        exact absurd h (not_ownAnswer_of_followUp hsends hanswer hf)
  · intro h
    rw [forwardRequest_of_nextUrl_none hsends hanswer h]
    exact ⟨rfl, rfl⟩

/-- One request of the tunnel makes the client send at most eleven. -/
theorem length_forwardRequest_le :
    (client.forwardRequest service encode config req).1.length ≤ maxHops + 1 := by
  unfold forwardRequest
  dsimp only
  split
  · exact length_send_le maxHops _
  · exact Nat.zero_le _

/-- A client that goes where an absolute `Location` leads. -/
def absolute : RedirectClient where
  isHttpUrl url := "http://".toList.isPrefixOf url.toList
  resolve _ value := value.filter fun url => "http://".toList.isPrefixOf url.toList
  redirected r status url :=
    if status = 303 ∨ (status = 301 ∨ status = 302) ∧ r.method = "POST" then
      { r with url, method := if r.method = "HEAD" then "HEAD" else "GET", body := none }
    else { r with url }
  errorText url := "error following redirect for url (" ++ url ++ ")"
  redirected_url := by
    intro r status url
    split <;> rfl
  redirected_post := by
    intro r status url hpost hstatus
    have h : status = 303 ∨ (status = 301 ∨ status = 302) ∧ r.method = "POST" := by tauto
    rw [if_pos h, hpost]
    rfl

/-- A redirect to nowhere is an answer. -/
theorem forward_own_answer_no_location :
    let req := buildTunnelRequest "q" ⟨"app", "GET", "login", ∅, ∅, none⟩
    OwnAnswer 302 (absolute.forwardRequest (fun _ => .answered 302 [] [] .complete)
        (fun body => toString body.length) {} req) ↔
      absolute.nextUrl (httpRequest {} req).url 302 [] = none :=
  forward_own_answer (by decide +kernel) rfl

/-- The client goes where the service sends its caller, and returns what it finds there. -/
theorem forward_follows_redirect :
    let req := buildTunnelRequest "q" ⟨"app", "GET", "login", ∅, ∅, none⟩
    let answer : ServiceBehaviour :=
      .answered 302 [("location", some "http://localhost:8080/admin")] [] .complete
    let service : HttpRequest → ServiceBehaviour := fun r =>
      if r.url = "http://localhost:8080/login" then answer else .answered 200 [] [] .complete
    let out := absolute.forwardRequest service (fun body => toString body.length) {} req
    absolute.sends (httpRequest {} req) ∧ service (httpRequest {} req) = answer ∧
      out.1.map HttpRequest.url = ["http://localhost:8080/login", "http://localhost:8080/admin"] ∧
      out.2.status = 200 ∧ ¬ OwnAnswer 302 out := by
  unfold OwnAnswer
  decide +kernel

end RedirectClient

end Outpunch
