import Outpunch.Axum.Handler

/-!
# Axum — the router

The two tunnel routes of `router`, with `tunnel_handler` and `tunnel_handler_no_path` behind them.
The router matches the path as it came; `Path` decodes what a route captured, and rejects the
request where that is no text.  The query is handed on as it came (`RawQuery`).
-/

namespace Outpunch

/-- A request, as it comes to the router. -/
structure RoutedRequest where
  path : String
  rawQuery : Option String
  method : String
  headers : HeaderMap
  body : List BodyFrame
  deriving DecidableEq

inductive AxumOutcome where
  /-- No route of the tunnel matches. -/
  | notFound
  /-- A capture is no text. -/
  | rejected
  | replied (reply : HttpReply)
  | handed (incoming : IncomingRequest)
  deriving DecidableEq

/-- What `/tunnel/{service}/{*path}` or `/tunnel/{service}` captures: `{service}` is one segment,
and the capture at the end of the path is not empty. -/
def matchTunnel (path : String) : Option (List Char × Option (List Char)) :=
  let start := "/tunnel/".toList
  if start.isPrefixOf path.toList then
    let remaining := path.toList.drop start.length
    match Url.splitOnce '/' remaining with
    | none => if remaining = [] then none else some (remaining, none)
    | some (service, rest) => if rest = [] then none else some (service, some rest)
  else none

/-- A capture, as `Path` gives it. -/
def decodeCapture (capture : List Char) : Option String :=
  (Utf8.decode (Url.percentDecode capture)).map .ofList

/-- The path `tunnel_handler` or `tunnel_handler_no_path` calls `handle_tunnel` with. -/
def decodePath : Option (List Char) → Option String
  | none => some ""
  | some capture => decodeCapture capture

/-- What the handler is called with. -/
def RoutedRequest.captured (req : RoutedRequest) (service path : String) : AxumRequest :=
  { service, path
    method := req.method
    rawQuery := req.rawQuery
    headers := req.headers
    body := req.body }

/-- A request to the router. -/
def axumHandleRequest (config : ServerConfig) (req : RoutedRequest) : AxumOutcome :=
  match matchTunnel req.path with
  | none => .notFound
  | some (capture, rest) =>
    match decodeCapture capture, decodePath rest with
    | some service, some path =>
      match handleTunnel config (req.captured service path) with
      | .error reply => .replied reply
      | .ok incoming => .handed incoming
    | _, _ => .rejected

theorem matchTunnel_under (remaining : List Char) :
    matchTunnel (.ofList ("/tunnel/".toList ++ remaining)) =
      match Url.splitOnce '/' remaining with
      | none => if remaining = [] then none else some (remaining, none)
      | some (service, rest) => if rest = [] then none else some (service, some rest) := by
  simp only [matchTunnel, String.toList_ofList]
  rfl

theorem decodeCapture_eq_some {capture : List Char} {s : String} :
    decodeCapture capture = some s ↔ Utf8.encode s.toList = Url.percentDecode capture := by
  rw [decodeCapture, Option.map_eq_some_iff]
  constructor
  · rintro ⟨t, ht, rfl⟩
    rw [String.toList_ofList]
    exact Utf8.decode_eq_some.mp ht
  · exact fun h => ⟨s.toList, Utf8.decode_eq_some.mpr h, String.ofList_toList⟩

/-- What the router hands over of a request it matches. -/
theorem axumHandleRequest_eq_handed {config : ServerConfig} {req : RoutedRequest}
    {capture : List Char} {rest : Option (List Char)} {incoming : IncomingRequest}
    (h : matchTunnel req.path = some (capture, rest)) :
    axumHandleRequest config req = .handed incoming ↔
      ∃ service path, decodeCapture capture = some service ∧ decodePath rest = some path ∧
        handleTunnel config (req.captured service path) = .ok incoming := by
  rw [axumHandleRequest, h]
  dsimp only
  cases hs : decodeCapture capture with
  | none => simp
  | some service =>
      cases hp : decodePath rest with
      | none => simp
      | some path =>
          dsimp only
          constructor
          · intro heq
            split at heq
            · cases heq
            · rename_i hok
              cases heq
              exact ⟨service, path, rfl, rfl, hok⟩
          · rintro ⟨_, _, ⟨⟩, ⟨⟩, hok⟩
            rw [hok]

end Outpunch
