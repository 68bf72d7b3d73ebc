import Outpunch.Axum.Handler

/-!
# Node — the tunnel handler

`handleRequest` of the Node adapter up to the core: it takes the service and the path off the
pathname, collects the query and the headers, reads the body to its end and hands the request over.
What `new URL` makes of the request is part of the request (`NodeUrl`).
-/

namespace Outpunch

/-- `OutpunchAdapterOptions`, without its timeout. -/
structure AdapterOptions where
  secret : String := ""
  maxBodySize : Option UInt32 := none
  tunnelPrefix : Option String := none

/-- The configuration `new OutpunchServer` makes of the options. -/
def AdapterOptions.serverConfig (options : AdapterOptions) : ServerConfig where
  secret := options.secret
  maxBodySize := (options.maxBodySize.getD (10 * 1024 * 1024)).toNat

/-- A value of `req.headers`. -/
inductive NodeHeader where
  | single (value : String)
  | several (values : List String)
  deriving DecidableEq

/-- The parts of a `URL`: its pathname, and what `searchParams` iterates over. -/
structure NodeUrl where
  pathname : String
  searchParams : List (String × String)
  deriving DecidableEq

structure NodeRequest where
  url : NodeUrl
  method : Option String
  headers : List (String × NodeHeader)
  body : List BodyFrame
  deriving DecidableEq

inductive NodeOutcome where
  /-- `handleRequest` returns `false`. -/
  | passed
  | replied (reply : HttpReply)
  /-- The body has no end. -/
  | unfinished
  | handed (incoming : IncomingRequest)
  deriving DecidableEq

/-- The service and the path of a pathname under the tunnel's. -/
def nodeRoute (tunnelPrefix pathname : String) : Option (String × String) :=
  let start := (tunnelPrefix ++ "/").toList
  if start.isPrefixOf pathname.toList then
    let remaining := pathname.toList.drop start.length
    match Url.splitOnce '/' remaining with
    | none => some (.ofList remaining, "")
    | some p => some (stringPair p)
  else none

/-- The default prefix. -/
theorem nodeRoute_under (remaining : List Char) :
    nodeRoute "/tunnel" (.ofList ("/tunnel/".toList ++ remaining)) =
      match Url.splitOnce '/' remaining with
      | none => some (.ofList remaining, "")
      | some p => some (stringPair p) := by
  simp only [nodeRoute, String.toList_ofList]
  rfl

theorem isPrefix_of_nodeRoute {pathname : List Char} {route : String × String}
    (h : nodeRoute "/tunnel" (.ofList pathname) = some route) :
    "/tunnel/".toList <+: pathname := by
  simp only [nodeRoute, String.toList_ofList] at h
  split at h
  · rename_i hstart
    exact List.isPrefixOf_iff_prefix.mp hstart
  · cases h

/-- `query[k] = v`: assigning a string to `__proto__` does nothing. -/
def nodeQuery (searchParams : List (String × String)) : StringMap :=
  .ofList (searchParams.filter fun p => p.1 ≠ "__proto__")

/-- The headers that are strings, less those left out. -/
def nodeHeaders (headers : List (String × NodeHeader)) : StringMap :=
  .ofList (headers.filterMap fun h =>
    match h.2 with
    | .single value => if skippedHeaders.contains h.1 then none else some (h.1, value)
    | .several _ => none)

/-- What is there of the body when `end` comes. -/
def readToEnd : List BodyFrame → Option (List UInt8)
  | [] => some []
  | .data bytes :: rest => (readToEnd rest).map (bytes ++ ·)
  | .error :: _ => none

/-- `handleRequest`, of a body that a string can hold. -/
def nodeHandleRequest (options : AdapterOptions) (req : NodeRequest) : NodeOutcome :=
  match nodeRoute (options.tunnelPrefix.getD "/tunnel") req.url.pathname with
  | none => .passed
  | some (service, path) =>
    if service = "" then
      .replied { status := 400, headers := [], body := bytes "missing service name" }
    else
      match readToEnd req.body with
      | none => .unfinished
      | some body => .handed
        { service, path
          method := req.method.getD "GET"
          query := nodeQuery req.url.searchParams
          headers := nodeHeaders req.headers
          body := if body.isEmpty then none else some (fromUtf8Lossy body) }

/-- What `handleRequest` hands over, when it does. -/
theorem nodeHandleRequest_eq_handed {options : AdapterOptions} {req : NodeRequest}
    {incoming : IncomingRequest} : nodeHandleRequest options req = .handed incoming ↔
      ∃ service path body,
        nodeRoute (options.tunnelPrefix.getD "/tunnel") req.url.pathname = some (service, path) ∧
        service ≠ "" ∧ readToEnd req.body = some body ∧ incoming =
          { service, path
            method := req.method.getD "GET"
            query := nodeQuery req.url.searchParams
            headers := nodeHeaders req.headers
            body := if body.isEmpty then none else some (fromUtf8Lossy body) } := by
  unfold nodeHandleRequest
  constructor
  · intro h
    split at h
    · cases h
    · rename_i service path hroute
      split at h
      · cases h
      · rename_i hservice
        split at h
        · cases h
        · rename_i body hbody
          cases h
          exact ⟨service, path, body, hroute, hservice, hbody, rfl⟩
  · rintro ⟨service, path, body, hroute, hservice, hbody, rfl⟩
    rw [hroute]
    dsimp only
    rw [if_neg hservice, hbody]

/-- A body is read to its end, however large it is. -/
theorem readToEnd_chunks (l : List (List UInt8)) : readToEnd (chunks l) = some l.flatten := by
  induction l with
  | nil => rfl
  | cons c l ih =>
      rw [chunks, List.map_cons, readToEnd, List.flatten_cons]
      rw [chunks] at ih
      rw [ih]
      rfl

end Outpunch
