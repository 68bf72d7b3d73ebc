import Outpunch.Client.Session
import Outpunch.Library.Base64

/-!
# Client — what becomes of a forwarded request

The local service may fail before its response begins and at any point of the body.
`ServiceBehaviour` is what it does, `result` what the HTTP client makes of that, and
`forward_request` answers for the service.  It tells a failure before the response from a success;
a failure inside the body it takes for an empty one (`no_false_success`).
-/

namespace Outpunch

/-- How the body of a response ends. -/
inductive BodyEnd where
  | complete
  | timeout
  | error (text : String)
  deriving DecidableEq

/-- What the local service does with a request. -/
inductive ServiceBehaviour where
  /-- No response begins in time. -/
  | timeout
  /-- No response begins. -/
  | error (text : String)
  /-- A response begins, and these pieces of its body come. -/
  | answered (status : UInt16) (headers : List (String × Option String))
      (pieces : List (List UInt8)) (ending : BodyEnd)
  deriving DecidableEq

namespace ServiceBehaviour

/-- What the HTTP client gives back: the response when its head is there, and the body when it is
complete. -/
def result : ServiceBehaviour → HttpResult
  | timeout => .timeout
  | error text => .error text
  | answered status headers pieces .complete => .ok { status, headers, body := some pieces.flatten }
  | answered status headers _ _ => .ok { status, headers, body := none }

/-- The service answered, with this status and this body. -/
inductive Succeeds : ServiceBehaviour → UInt16 → List UInt8 → Prop where
  | answered {status : UInt16} {headers : List (String × Option String)}
      {pieces : List (List UInt8)} : Succeeds (.answered status headers pieces .complete) status
        pieces.flatten

/-- The service took too long, for its response or for the body of it. -/
inductive TimesOut : ServiceBehaviour → Prop where
  | head : TimesOut .timeout
  | body {status : UInt16} {headers : List (String × Option String)}
      {pieces : List (List UInt8)} : TimesOut (.answered status headers pieces .timeout)

/-- The service failed, before its response or in the body of it. -/
inductive Fails : ServiceBehaviour → Prop where
  | head {text : String} : Fails (.error text)
  | body {status : UInt16} {headers : List (String × Option String)}
      {pieces : List (List UInt8)} {text : String} :
      Fails (.answered status headers pieces (.error text))

/-- A response that began was completed. -/
def Uncut : ServiceBehaviour → Prop
  | answered _ _ _ ending => ending = .complete
  | _ => True

end ServiceBehaviour

/-- A response that says what the service did: its status and its complete body if it succeeded, a
504 if it took too long, and a 502 if it failed. -/
inductive Truthful (encode : List UInt8 → String) (requestId : String) (b : ServiceBehaviour) :
    TunnelResponse → Prop where
  | answer {headers : StringMap} {status : UInt16} {body : List UInt8}
      (h : b.Succeeds status body) :
      Truthful encode requestId b
        { msgType := "response", requestId, status, headers, body := some (encode body),
          bodyEncoding := some "base64" }
  | timeout (text : String) (h : b.TimesOut) :
      Truthful encode requestId b (errorResponse requestId 504 text)
  | error (text : String) (h : b.Fails) :
      Truthful encode requestId b (errorResponse requestId 502 text)

/-- What `forward_request` makes of a success is truthful. -/
theorem truthful_of_complete (encode : List UInt8 → String) (req : TunnelRequest) {status : UInt16}
    {headers : List (String × Option String)} {pieces : List (List UInt8)} :
    Truthful encode req.requestId (.answered status headers pieces .complete)
      (forwardResponse encode req
        (ServiceBehaviour.answered status headers pieces .complete).result) :=
  .answer .answered

/-- A body that is missing is not reported. -/
theorem not_truthful_of_cut (encode : List UInt8 → String) (req : TunnelRequest) {status : UInt16}
    {headers : List (String × Option String)} {pieces : List (List UInt8)} {ending : BodyEnd}
    (hcut : ending ≠ .complete) :
    ¬ Truthful encode req.requestId (.answered status headers pieces ending)
      (forwardResponse encode req
        (ServiceBehaviour.answered status headers pieces ending).result) := by
  have hresult : (ServiceBehaviour.answered status headers pieces ending).result =
      .ok { status, headers, body := none } := by
    cases ending with
    | complete => exact absurd rfl hcut
    | timeout | error _ => rfl
  rw [hresult]
  generalize hresp : forwardResponse encode req (.ok { status, headers, body := none }) = resp
  intro h
  cases h with
  | answer h =>
      cases h
      exact hcut rfl
  | timeout | error =>
      -- an error response is not encoded
      exact absurd (congrArg TunnelResponse.bodyEncoding hresp) (Option.some_ne_none _)

/-- **No false success, as long as no response is cut short**: what `forward_request` returns says
what the service did exactly when the service did not fail after its response began. -/
theorem no_false_success (encode : List UInt8 → String) (req : TunnelRequest)
    (b : ServiceBehaviour) :
    Truthful encode req.requestId b (forwardResponse encode req b.result) ↔ b.Uncut := by
  cases b with
  | timeout => exact iff_of_true (.timeout _ .head) trivial
  | error text => exact iff_of_true (.error _ .head) trivial
  | answered status headers pieces ending =>
      by_cases hend : ending = .complete
      · rw [hend]
        exact iff_of_true (truthful_of_complete encode req) rfl
      · exact iff_of_false (not_truthful_of_cut encode req hend) hend

/-- A connection reset after the first piece of a body is reported as an empty page. -/
theorem reset_reported_as_success :
    let req : TunnelRequest := buildTunnelRequest "q" ⟨"app", "GET", "", ∅, ∅, none⟩
    let b := ServiceBehaviour.answered 200 [] [[0x68, 0x69]] (.error "connection reset")
    let resp := forwardResponse Base64.encode req b.result
    resp.status = 200 ∧ resp.body = some "" ∧ ¬ Truthful Base64.encode "q" b resp := by
  intro req b resp
  have hend : BodyEnd.error "connection reset" ≠ .complete := by decide
  exact ⟨rfl, by decide +kernel, not_truthful_of_cut _ req hend⟩

end Outpunch
