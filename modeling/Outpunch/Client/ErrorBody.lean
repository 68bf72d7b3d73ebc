import Outpunch.Client.Session
import Outpunch.Library.JsonSplice

/-!
# Client — the bodies of error responses

`error_response` writes its message between quotes as it is, and labels the body JSON.  The texts
the server gives it need no escape (`tunnelError_isJsonError`); `forward_request` gives it the text
of an error of the HTTP client, with the URL in it.
-/

namespace Outpunch

/-- The response is labelled JSON, and is an object with the message for its one member. -/
def IsJsonError (message : String) (resp : TunnelResponse) : Prop :=
  resp.headers["Content-Type"]? = some "application/json" ∧
    resp.body.bind Json.parse = some (.object [("error", .str message)])

section

variable (requestId : String) (status : UInt16)

theorem contentType_errorResponse (message : String) :
    (errorResponse requestId status message).headers["Content-Type"]? =
      some "application/json" := by
  simp [errorResponse]

theorem body_errorResponse (message : String) :
    (errorResponse requestId status message).body = some (Json.splice "error" message) := by
  rw [errorResponse, Option.some_inj, ← String.toList_inj, Json.splice]
  simp only [String.toList_append, String.toList_ofList, Json.renderString]
  simp [Json.escape]

/-- **The body of an error response says its message exactly when the message needs no escape.** -/
theorem error_response_json (message : String) :
    IsJsonError message (errorResponse requestId status message) ↔ Json.isPlainText message := by
  rw [IsJsonError, body_errorResponse, Option.bind_some, Json.parse_splice_iff]
  exact and_iff_right (contentType_errorResponse requestId status message)

/-- The text of a URL may hold a backslash. -/
theorem forward_error_not_json :
    let req : TunnelRequest := buildTunnelRequest "q"
      ⟨"app", "GET", "search", .ofList [("q", "\\d")], ∅, none⟩
    let text := "error sending request for url (http://localhost:8080/search?q=\\d)"
    let resp := forwardResponse (fun body => toString body.length) req (.error text)
    resp.status = 502 ∧ resp.headers["Content-Type"]? = some "application/json" ∧
      ¬ IsJsonError ("local service error: " ++ text) resp := by
  intro req text resp
  have hparse : (resp.body.bind Json.parse).isNone := by decide +kernel
  refine ⟨rfl, contentType_errorResponse "q" 502 _, fun h => ?_⟩
  rw [h.2] at hparse
  cases hparse

/-- The errors of the server say what they are. -/
theorem tunnelError_isJsonError (err : TunnelError) :
    IsJsonError err.text (handleRequestResult requestId (.error err)) := by
  refine ⟨contentType_errorResponse requestId err.status err.text, ?_⟩
  rw [handleRequestResult, body_errorResponse, Option.bind_some, Json.parse_splice_iff]
  cases err <;> decide +kernel

/-- An error of the HTTP client is passed on as JSON exactly when its text needs no escape. -/
theorem forwardResponse_isJsonError (encode : List UInt8 → String) (req : TunnelRequest)
    (text : String) :
    IsJsonError ("local service error: " ++ text) (forwardResponse encode req (.error text)) ↔
      Json.isPlainText text := by
  have hstart : Json.isPlainText "local service error: " := by decide +kernel
  rw [IsJsonError, forwardResponse, body_errorResponse, Option.bind_some, Json.parse_splice_iff,
    and_iff_right (contentType_errorResponse req.requestId 502 _)]
  simp only [Json.isPlainText, String.toList_append, List.all_append, Bool.and_eq_true] at hstart ⊢
  exact and_iff_right hstart

end

end Outpunch
