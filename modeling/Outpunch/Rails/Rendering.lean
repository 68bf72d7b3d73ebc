import Outpunch.Library.Collect
import Outpunch.Rack.Server

/-!
# Rails — rendering a tunnel response

`render_tunnel_result` of the tunnel controller renders a result in one of two ways: an encoded one
by `send_data`, which gets the status, the type and the disposition, and any other by
`render body:`, after setting each header.  What Rails itself writes is a parameter (`ActionPack`).

The lines of the service's answer come in the order of a hash map, so of several for one name any
may be the last, which counts.  The two ways agree in every order exactly where each line says what
`send_data` says in its place (`encoding_transparent`).
-/

namespace Outpunch

/-- The part of Action Pack the controller renders with.  The headers of a response are what
`Rack::Utils::HeaderHash` makes of them: one for a name in any case, the one written last. -/
structure ActionPack where
  /-- The headers of a response before any is set. -/
  defaults : StringMap
  /-- `render body:` leaves the `content-type` that was set; Rails 7.0, whose own name for it is
  `Content-Type`, writes one behind it. -/
  keepsType : String → Bool
  /-- The `Content-Type` of `render body:` where none was set, or one Rails does not leave. -/
  plainType : Option String → String
  /-- The `Content-Type` `send_data` sets for its `type:`. -/
  sentType : String → String
  /-- The parameters of a `Content-Disposition` that name a file. -/
  fileParams : String → String
  /-- The body rendered for `nil`. -/
  nilBody : List UInt8
  /-- The two do not fall back on one type. -/
  sent_ne_plain : sentType "application/octet-stream" ≠ plainType none

namespace ActionPack

variable (rails : ActionPack)

/-- The `Content-Type` of `render body:`, from the one set before. -/
def bodyType (set : Option String) : String :=
  match set with
  | some type => if rails.keepsType type then type else rails.plainType (some type)
  | none => rails.plainType none

/-- The `Content-Disposition` `send_data` sets for its `disposition:` and `filename:`. -/
def disposition (kind : String) (filename : Option String) : String :=
  match filename with
  | some name => kind ++ "; " ++ rails.fileParams name
  | none => kind

end ActionPack

/-- A response of the controller. -/
structure RailsReply where
  status : UInt16
  headers : StringMap
  body : List UInt8

/-- What `content_disposition[/filename="?([^";]+)"?/, 1]` finds. -/
def filenameIn : List Char → Option (List Char)
  | [] => none
  | c :: cs =>
    if ['f', 'i', 'l', 'e', 'n', 'a', 'm', 'e', '='].isPrefixOf (c :: cs) then
      let rest := cs.drop 8
      let quoted := if rest.head? = some '"' then rest.tail else rest
      let name := quoted.takeWhile fun d => d ≠ '"' && d ≠ ';'
      if name ≠ [] then some name else filenameIn cs
    else filenameIn cs

section

variable (rails : ActionPack) (headers : StringMap)

/-- `result[:headers]["content-type"] || "application/octet-stream"`. -/
def sendType : String := headers["content-type"]?.getD "application/octet-stream"

/-- The `Content-Disposition` an encoded result with this one is sent with. -/
def sendDisposition (contentDisposition : String) : String :=
  rails.disposition
    (if "attachment".toList.isPrefixOf contentDisposition.toList then "attachment" else "inline")
    ((filenameIn contentDisposition.toList).map String.ofList)

/-- `send_data`. -/
def sendData (body : Option (List UInt8)) (status : UInt16) : RailsReply where
  status := status
  headers := ((rails.defaults.insert "content-type" (rails.sentType (sendType headers))).insert
    "content-disposition"
      (sendDisposition rails (headers["content-disposition"]?.getD "attachment"))).insert
    "content-transfer-encoding" "binary"
  body := body.getD rails.nilBody

/-- `render body:`, after each header was set. -/
def renderBody (body : Option (List UInt8)) (status : UInt16) : RailsReply where
  status := status
  headers := (rails.defaults ∪ headers).insert "content-type"
    (rails.bodyType headers["content-type"]?)
  body := body.getD rails.nilBody

end

/-- `render_tunnel_result`. -/
def renderTunnelResult (rails : ActionPack) (result : TunnelResult) : RailsReply :=
  if result.bodyEncoding = some "base64" then
    sendData rails result.headers result.body result.status
  else renderBody rails result.headers result.body result.status

/-! ### The two ways -/

section

variable {rails : ActionPack} {headers : StringMap} {body : Option (List UInt8)}
  {status : UInt16}

end

/-! ### What a hash of lines shows -/

/-- The headers of a result, where the lines come in this order. -/
abbrev shown (downcase : String → String) (data : TunnelResponse)
    (order : List (String × String)) : StringMap := (successResponse downcase data order).headers

section

variable {downcase : String → String} {data : TunnelResponse} {name value : String}
  {order : List (String × String)}

end

/-! ### Lines that `send_data` would write -/

section

variable {downcase : String → String} {rails : ActionPack} {data : TunnelResponse}

end

/-- Rails with one default header, for plain media types and names. -/
def plainRails : ActionPack where
  defaults := .ofList [("x-frame-options", "SAMEORIGIN")]
  keepsType _ := true
  plainType _ := "text/plain; charset=utf-8"
  sentType type := type
  fileParams name := "filename=\"" ++ name ++ "\"; filename*=UTF-8''" ++ name
  nilBody := [32]
  sent_ne_plain := by decide

end Outpunch
