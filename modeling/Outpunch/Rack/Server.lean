import Outpunch.Library.Base64
import Outpunch.Protocol.Http
import Outpunch.Protocol.Messages
import Outpunch.Server.State

/-!
# Rack — the wrapper of the core

What `Outpunch::Rack::Server` makes of a Rack env and of a tunnel response.  The env is the part of
it whose values are strings; a body is the bytes of a Ruby string.
-/

namespace Outpunch

/-- `HOP_BY_HOP`. -/
def hopByHop : List String := ["HOST", "CONNECTION", "UPGRADE"]

/-- `k.start_with?("HTTP_")`. -/
def isHttpKey (key : String) : Bool := ['H', 'T', 'T', 'P', '_'].isPrefixOf key.toList

/-- `k.sub("HTTP_", "").tr("_", "-")`, of a key that starts with `HTTP_`. -/
def proxyName (key : String) : String :=
  .ofList ((key.toList.drop 5).map fun c => if c = '_' then '-' else c)

/-- `extract_proxy_headers`. -/
def extractProxyHeaders (env : StringMap) : StringMap :=
  let selected := env.toList.filter fun h => isHttpKey h.1
  let renamed := selected.map fun h => (proxyName h.1, h.2)
  .ofList (renamed.filter fun h => !hopByHop.contains h.1)

/-- What `success_response` gives the controller. -/
structure TunnelResult where
  status : UInt16
  body : Option (List UInt8)
  headers : StringMap
  bodyEncoding : Option String
  deriving DecidableEq

/-- The body of a result: `Base64.decode64` of one that is encoded and not empty. -/
def resultBody (bodyEncoding : Option String) (body : String) : List UInt8 :=
  if bodyEncoding = some "base64" ∧ body ≠ "" then Base64.decodeLenient body else bytes body

/-- `success_response`, with `String#downcase`, where the hash of the headers yields them in this
order; of names that differ only in case the last one counts. -/
def successResponse (downcase : String → String) (data : TunnelResponse)
    (order : List (String × String)) : TunnelResult where
  status := data.status
  body := data.body.map (resultBody data.bodyEncoding)
  headers := .ofList (order.map fun h => (downcase h.1, h.2))
  bodyEncoding := data.bodyEncoding

end Outpunch
