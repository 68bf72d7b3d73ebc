import Outpunch.Axum.Routes
import Outpunch.Library.UrlDots
import Outpunch.Library.UrlEscape
import Outpunch.Tunnel.QueryReading

/-!
# Tunnel — routing, behind either adapter

One request target comes to the axum adapter and to the Node adapter.  The first decodes the
service and the path and leaves the query as it came; the second leaves out the dot segments of
the path, reads a `\` as a `/`, keeps the escapes and adds some of its own, and decodes the query.
So they hand over the same service, path and query exactly for targets in which there is nothing to
decode or to escape, no `\` and no dot segment (`adapters_agree_on_routing`).

Which targets the HTTP servers in front of the adapters refuse, and which characters the URL parser
escapes, is outside.
-/

namespace Outpunch

open Url (Plain hasEscape isDotSegment joinPath percentDecode resolve searchParams splitOnce
  EscapeSet pathSegments Vanishes Keeps)
open Utf8 (encode replacement)

/-- The first segment of a path under the tunnel's. -/
def tunnelSegment : List Char := "tunnel".toList

/-! ### Targets -/

/-- The characters of a request target: the visible ones.  A `#` begins a fragment, which no target
has. -/
def isTargetChar (c : Char) : Bool := '!' ≤ c && c ≤ '~' && c ≠ '#'

/-- `/tunnel/{service}`, `/tunnel/{service}/{rest}` or either with a query. -/
structure Target where
  service : List Char
  /-- What stands after the `/` behind the service, where there is one. -/
  rest : Option (List Char)
  query : Option (List Char)
  service_ne_nil : service ≠ []
  service_chars : service.all fun c => isTargetChar c && c ≠ '/' && c ≠ '?'
  rest_chars : (rest.getD []).all fun c => isTargetChar c && c ≠ '?'
  query_chars : (query.getD []).all isTargetChar

/-- What `new URL` escapes by itself. -/
structure UrlParser where
  pathSet : EscapeSet
  querySet : EscapeSet

namespace Target

/-- The path, behind its first `/`. -/
def path (t : Target) : List Char :=
  tunnelSegment ++ '/' :: (t.service ++ (t.rest.map ('/' :: ·)).getD [])

/-- The target, as it is sent. -/
def text (t : Target) : List Char := '/' :: (t.path ++ (t.query.map ('?' :: ·)).getD [])

/-- The request `req`, to this target. -/
def toAxum (t : Target) (req : RoutedRequest) : RoutedRequest :=
  { req with path := .ofList ('/' :: t.path), rawQuery := t.query.map .ofList }

/-- The pairs `searchParams` iterates over. -/
def nodePairs (parser : UrlParser) (t : Target) : List (List Char × List Char) :=
  (t.query.map fun q => searchParams (parser.querySet.escape q)).getD []

/-- The request `req`, to this target: `new URL` reads it. -/
def toNode (parser : UrlParser) (t : Target) (req : NodeRequest) : NodeRequest :=
  { req with
    url :=
      { pathname := .ofList (Url.pathname parser.pathSet t.path)
        searchParams := (t.nodePairs parser).map stringPair } }

/-- The segments of the path behind the service. -/
def restSegments (t : Target) : List (List Char) := (t.rest.map (·.splitOn '/')).getD []

def segments (t : Target) : List (List Char) := tunnelSegment :: t.service :: t.restSegments

theorem slash_not_mem_service (t : Target) : '/' ∉ t.service :=
  fun h => absurd (List.all_eq_true.mp t.service_chars _ h) (by decide)

theorem splitOn_path (t : Target) : t.path.splitOn '/' = t.segments := by
  have hslash : '/' ∉ tunnelSegment := by decide
  rw [path, List.splitOn_append_cons_self_of_not_mem hslash, segments, restSegments]
  cases t.rest with
  | none =>
      rw [Option.map_none, Option.getD_none, List.append_nil,
        List.splitOn_eq_singleton t.slash_not_mem_service]
      rfl
  | some r => exact congrArg _ (List.splitOn_append_cons_self_of_not_mem t.slash_not_mem_service r)

theorem joinPath_restSegments (t : Target) : joinPath t.restSegments = t.rest.getD [] := by
  rw [restSegments]
  cases t.rest with
  | none => rfl
  | some r => exact List.intercalate_splitOn '/'

end Target

/-! ### What an adapter hands over -/

/-- What the routing decides of a request: its service, its path and its query. -/
def IncomingRequest.routing (incoming : IncomingRequest) : String × String × StringMap :=
  (incoming.service, incoming.path, incoming.query)

/-- What the axum adapter hands to the core of a request to this target; `none` where it, or the
server in front of it, declines. -/
def axumRouting (takes : List Char → Bool) (config : ServerConfig) (t : Target)
    (req : RoutedRequest) : Option (String × String × StringMap) :=
  if takes t.text then
    match axumHandleRequest config (t.toAxum req) with
    | .handed incoming => some incoming.routing
    | _ => none
  else none

/-- What the Node adapter hands to the core of a request to this target; `none` where it, or the
server in front of it, declines. -/
def nodeRouting (takes : List Char → Bool) (parser : UrlParser) (options : AdapterOptions)
    (t : Target) (req : NodeRequest) : Option (String × String × StringMap) :=
  if takes t.text then
    match nodeHandleRequest options (t.toNode parser req) with
    | .handed incoming => some incoming.routing
    | _ => none
  else none

/-! ### The axum adapter -/

theorem matchTunnel_target (t : Target) : matchTunnel (.ofList ('/' :: t.path)) =
    if t.rest = some [] then none else some (t.service, t.rest) := by
  have hpath : '/' :: t.path =
      "/tunnel/".toList ++ (t.service ++ (t.rest.map ('/' :: ·)).getD []) := rfl
  rw [hpath, matchTunnel_under]
  cases t.rest with
  | none =>
      rw [Option.map_none, Option.getD_none, List.append_nil,
        Url.splitOnce_eq_none.mpr t.slash_not_mem_service]
      dsimp only
      rw [if_neg t.service_ne_nil, if_neg (by simp)]
  | some r =>
      rw [Option.map_some, Option.getD_some, Url.splitOnce_append t.slash_not_mem_service]
      dsimp only
      by_cases hr : r = []
      · rw [if_pos hr, if_pos (by rw [hr])]
      · rw [if_neg hr, if_neg (by simpa using hr)]

variable {axumTakes nodeTakes : List Char → Bool} {parser : UrlParser} {config : ServerConfig}
  {options : AdapterOptions} {a : RoutedRequest} {n : NodeRequest} {t : Target}
  {service path : String} {query : StringMap}

/-- **The axum adapter decodes the service and the path.** -/
theorem axumRouting_eq_some (ha : (toBytes config.maxBodySize a.body).isSome) :
    axumRouting axumTakes config t a = some (service, path, query) ↔
      axumTakes t.text ∧ t.rest ≠ some [] ∧ decodeCapture t.service = some service ∧
        decodePath t.rest = some path ∧ query = parseQuery (t.query.map .ofList) := by
  obtain ⟨body, hbody⟩ := Option.isSome_iff_exists.mp ha
  have hmatch : matchTunnel (t.toAxum a).path = _ := matchTunnel_target t
  rw [axumRouting, Option.ite_none_right_eq_some]
  refine and_congr_right fun _ => ?_
  by_cases hrest : t.rest = some []
  · rw [if_pos hrest] at hmatch
    have hnot : axumHandleRequest config (t.toAxum a) = .notFound := by
      rw [axumHandleRequest, hmatch]
    simp [hnot, hrest]
  · rw [if_neg hrest] at hmatch
    constructor
    · intro h
      split at h
      · rename_i incoming hhanded
        cases h
        obtain ⟨s, p, hs, hp, hok⟩ := (axumHandleRequest_eq_handed hmatch).mp hhanded
        obtain ⟨_, -, rfl⟩ := handleTunnel_eq_ok.mp hok
        exact ⟨hrest, hs, hp, rfl⟩
      · cases h
    · rintro ⟨-, hs, hp, rfl⟩
      have hok : handleTunnel config ((t.toAxum a).captured service path) = .ok _ :=
        handleTunnel_eq_ok.mpr ⟨body, hbody, rfl⟩
      rw [(axumHandleRequest_eq_handed hmatch).mpr ⟨service, path, hs, hp, hok⟩]
      rfl

/-! ### The Node adapter -/

/-- The Node adapter takes the second and the third part of a pathname under the tunnel's. -/
theorem nodeRoute_joinPath {segments : List (List Char)} (hslash : ∀ s ∈ segments, '/' ∉ s) :
    nodeRoute "/tunnel" (.ofList ('/' :: joinPath segments)) = some (service, path) ↔
      ∃ s rest, segments = tunnelSegment :: s :: rest ∧ service = .ofList s ∧
        path = .ofList (joinPath rest) := by
  have hroute : ∀ s rest, '/' ∉ s →
      nodeRoute "/tunnel" (.ofList ('/' :: joinPath (tunnelSegment :: s :: rest))) =
        some (.ofList s, .ofList (joinPath rest)) := by
    intro s rest hs
    rw [Url.joinPath_cons_cons]
    refine (nodeRoute_under (joinPath (s :: rest))).trans ?_
    rw [Url.splitOnce_joinPath hs]
    cases rest with
    | nil => rw [if_pos rfl, joinPath, List.intercalate_singleton]; rfl
    | cons s' rest => rw [if_neg (by simp)]; rfl
  constructor
  · intro h
    obtain ⟨remaining, heq⟩ := isPrefix_of_nodeRoute h
    have hsplit : splitOnce '/' (joinPath segments) = some (tunnelSegment, remaining) :=
      Url.splitOnce_eq_some.mpr ⟨by decide, (List.cons.inj heq).2.symm⟩
    cases segments with
    | nil => cases hsplit
    | cons t₀ segments =>
        rw [Url.splitOnce_joinPath (hslash _ List.mem_cons_self)] at hsplit
        split at hsplit
        · cases hsplit
        · rename_i hne
          obtain ⟨s, rest, rfl⟩ := List.exists_cons_of_ne_nil hne
          cases hsplit
          rw [hroute s rest (hslash s (by simp))] at h
          cases h
          exact ⟨s, rest, rfl, rfl, rfl⟩
  · rintro ⟨s, rest, rfl, rfl, rfl⟩
    exact hroute s rest (hslash s (by simp))

namespace Target

/-- The segments `new URL` leaves of the path. -/
def resolved (t : Target) : List (List Char) := resolve [] (pathSegments t.path)

/-- The segments of the pathname hold no `/` and no `\`, and are no dot segments. -/
theorem plain_of_mem_pathname {t : Target} {u : List Char}
    (hu : u ∈ t.resolved.map parser.pathSet.escape) :
    '/' ∉ u ∧ '\\' ∉ u ∧ isDotSegment u = false := by
  obtain ⟨v, hv, rfl⟩ := List.mem_map.mp hu
  obtain ⟨hslash, hback⟩ := Url.not_mem_of_mem_resolve hv
  refine ⟨EscapeSet.not_mem_escape (by decide) rfl hslash,
    EscapeSet.not_mem_escape (by decide) rfl hback, Bool.eq_false_iff.mpr fun hdot => ?_⟩
  rw [Url.isDotSegment_of_escape hdot, Url.not_isDotSegment_of_mem_resolve hv] at hdot
  cases hdot

/-- The characters of the service and of what stands behind it. -/
theorem forall_chars {t : Target} {p : Char → Prop} : (∀ c ∈ t.service ++ t.rest.getD [], p c) ↔
    (∀ c ∈ t.service, p c) ∧ ∀ r ∈ t.rest, ∀ c ∈ r, p c := by
  rw [List.forall_mem_append]
  cases t.rest <;> simp

end Target

/-- **The Node adapter takes the pathname apart, and decodes the query.** -/
theorem nodeRouting_eq_some (hdefault : options.tunnelPrefix = none)
    (hn : (readToEnd n.body).isSome) :
    nodeRouting nodeTakes parser options t n = some (service, path, query) ↔
      nodeTakes t.text ∧ ∃ s rest, t.resolved = tunnelSegment :: s :: rest ∧ s ≠ [] ∧
        service = .ofList (parser.pathSet.escape s) ∧
        path = .ofList (joinPath (rest.map parser.pathSet.escape)) ∧
        query = nodeQuery ((t.nodePairs parser).map stringPair) := by
  obtain ⟨body, hbody⟩ := Option.isSome_iff_exists.mp hn
  have hslash : ∀ s ∈ t.resolved.map parser.pathSet.escape, '/' ∉ s := fun s hs =>
    (Target.plain_of_mem_pathname hs).1
  -- The first segment is `tunnel` escaped exactly when it is `tunnel`.
  have htunnel : ∀ u, parser.pathSet.escape u = tunnelSegment ↔ u = tunnelSegment := by
    intro u
    have hself : parser.pathSet.escape tunnelSegment = tunnelSegment :=
      EscapeSet.escape_eq_self fun c hc => parser.pathSet.keeps c
        (List.all_eq_true.mp (by decide : tunnelSegment.all Url.isUriChar = true) c hc)
    refine ⟨fun h => ?_, fun h => h ▸ hself⟩
    have hkept : parser.pathSet.escape u = u :=
      EscapeSet.escape_eq_self_of_percent (by rw [h]; decide)
    exact hkept.symm.trans h
  have hroute : ∀ service path, nodeRoute (options.tunnelPrefix.getD "/tunnel")
      (t.toNode parser n).url.pathname = some (service, path) ↔
        ∃ s rest, t.resolved = tunnelSegment :: s :: rest ∧
          service = .ofList (parser.pathSet.escape s) ∧
          path = .ofList (joinPath (rest.map parser.pathSet.escape)) := by
    intro service path
    rw [hdefault, Option.getD_none, Target.toNode, Url.pathname, ← Target.resolved,
      nodeRoute_joinPath hslash]
    constructor
    · rintro ⟨s, rest, hmap, rfl, rfl⟩
      obtain ⟨u, tail, hresolved, hu, htail⟩ := List.map_eq_cons_iff.mp hmap
      obtain ⟨s, rest, rfl, rfl, rfl⟩ := List.map_eq_cons_iff.mp htail
      rw [(htunnel u).mp hu] at hresolved
      exact ⟨s, rest, hresolved, rfl, rfl⟩
    · rintro ⟨s, rest, hresolved, rfl, rfl⟩
      refine ⟨_, _, ?_, rfl, rfl⟩
      rw [hresolved, List.map_cons, List.map_cons, (htunnel _).mpr rfl]
  have hne : ∀ s : List Char, String.ofList (parser.pathSet.escape s) ≠ "" ↔ s ≠ [] := by
    intro s
    rw [Ne, Ne, String.ofList_eq_empty_iff, EscapeSet.escape_eq_nil]
  rw [nodeRouting, Option.ite_none_right_eq_some]
  refine and_congr_right fun _ => ?_
  constructor
  · intro h
    split at h
    · rename_i incoming hhanded
      obtain ⟨service', path', _, hr, hs, -, rfl⟩ := nodeHandleRequest_eq_handed.mp hhanded
      obtain ⟨s, rest, hresolved, rfl, rfl⟩ := (hroute _ _).mp hr
      cases h
      exact ⟨s, rest, hresolved, (hne s).mp hs, rfl, rfl, rfl⟩
    · cases h
  · rintro ⟨s, rest, hresolved, hs, rfl, rfl, rfl⟩
    have hr := (hroute _ _).mpr ⟨s, rest, hresolved, rfl, rfl⟩
    rw [nodeHandleRequest_eq_handed.mpr ⟨_, _, body, hr, (hne s).mpr hs, hbody, rfl⟩]
    rfl

/-! ### Both adapters -/

/-- There is nothing to decode or to escape in the target, no `\`, and no dot segment. -/
structure Target.Literal (parser : UrlParser) (t : Target) : Prop where
  rest : t.rest ≠ some []
  dots : ∀ s ∈ t.segments, isDotSegment s = false
  chars : ∀ c ∈ t.service ++ t.rest.getD [], c ≠ '\\' ∧ parser.pathSet.escapes c = false
  service : hasEscape t.service = false
  path : ∀ r ∈ t.rest, hasEscape r = false
  query : ∀ q ∈ t.query, ReadsAlike q

namespace Target

/-- No route of the router matches the target, or its escapes are no text. -/
def Unreadable (t : Target) : Prop :=
  t.rest = some [] ∨ ¬ Utf8.Valid (percentDecode t.service) ∨
    ∃ r ∈ t.rest, ¬ Utf8.Valid (percentDecode r)

/-- The path holds the segment `tunnel` and a service that is not empty; what stands before and
between them vanishes, and what stands after them does not take them along. -/
def UnderTunnel (t : Target) : Prop :=
  ∃ before between s after,
    pathSegments t.path = before ++ tunnelSegment :: (between ++ s :: after) ∧
    Vanishes true before ∧ Vanishes false between ∧ s ≠ [] ∧ isDotSegment s = false ∧ Keeps after

theorem underTunnel_iff {t : Target} :
    t.UnderTunnel ↔ ∃ s rest, t.resolved = tunnelSegment :: s :: rest ∧ s ≠ [] := by
  rw [resolved, Url.resolve_begins_iff]
  constructor
  · rintro ⟨a, b, s, c, heq, ha, hb, hs, hdot, hc⟩
    exact ⟨a, b, s, c, heq, ha, rfl, hb, hs, hdot, hc⟩
  · rintro ⟨a, b, s, c, heq, ha, -, hb, hs, hdot, hc⟩
    exact ⟨a, b, s, c, heq, ha, hb, hs, hdot, hc⟩

/-- A target whose parts, decoded, are those of a pathname has no dot segment. -/
theorem not_isDotSegment_of_decoded {t : Target} {s : List Char} {rest : List (List Char)}
    (hslash : ∀ u ∈ s :: rest, '/' ∉ u) (hdots : ∀ u ∈ s :: rest, isDotSegment u = false)
    (hservice : encode s = percentDecode t.service)
    (hrest : ∀ r ∈ t.rest, encode (joinPath rest) = percentDecode r) :
    ∀ u ∈ t.segments, isDotSegment u = false := by
  intro u hu
  refine Bool.eq_false_iff.mpr fun hdot => ?_
  rcases List.mem_cons.mp hu with rfl | hu
  · exact absurd hdot (by decide)
  rcases List.mem_cons.mp hu with rfl | hu
  · have hself : t.service ∈ t.service.splitOn '/' := by
      rw [List.splitOn_eq_singleton t.slash_not_mem_service]
      exact List.mem_singleton_self _
    obtain ⟨u', hu', hdot'⟩ := Url.exists_isDotSegment_of_encode_eq hservice hself hdot
    rw [List.splitOn_eq_singleton (hslash s List.mem_cons_self), List.mem_singleton] at hu'
    rw [hu', hdots s List.mem_cons_self] at hdot'
    cases hdot'
  · rw [restSegments] at hu
    cases hr : t.rest with
    | none =>
        rw [hr] at hu
        cases hu
    | some r =>
        rw [hr] at hu
        obtain ⟨u', hu', hdot'⟩ := Url.exists_isDotSegment_of_encode_eq (hrest r hr) hu hdot
        by_cases hnil : rest = []
        · rw [hnil, joinPath, List.intercalate_nil, List.splitOn_nil, List.mem_singleton] at hu'
          rw [hu'] at hdot'
          cases hdot'
        · rw [joinPath, List.splitOn_intercalate '/'
            (fun u hu => hslash u (List.mem_cons_of_mem _ hu)) hnil] at hu'
          rw [hdots u' (List.mem_cons_of_mem _ hu')] at hdot'
          cases hdot'

/-- A target without `\` and without dot segments is taken apart as it is. -/
theorem resolved_eq {t : Target} (hchars : ∀ c ∈ t.service ++ t.rest.getD [], c ≠ '\\')
    (hdots : ∀ s ∈ t.segments, isDotSegment s = false) : t.resolved = t.segments := by
  have hpath : '\\' ∉ t.path := by
    intro h
    rw [path, List.mem_append, List.mem_cons, List.mem_append] at h
    rcases h with h | h | h | h
    · exact absurd h (by decide)
    · exact absurd h (by decide)
    · exact hchars _ (List.mem_append_left _ h) rfl
    · cases hr : t.rest with
      | none =>
          rw [hr] at h
          cases h
      | some r =>
          rw [hr, Option.map_some, Option.getD_some] at h
          refine hchars _ (List.mem_append_right _ ?_) rfl
          rw [hr, Option.getD_some]
          exact (List.mem_cons.mp h).resolve_left (by decide)
  rw [resolved, Url.pathSegments_eq hpath, splitOn_path]
  exact Url.resolve_eq hdots

theorem space_not_mem_query {t : Target} {q : List Char} (hq : q ∈ t.query) : ' ' ∉ q := by
  have hchars := t.query_chars
  rw [hq, Option.getD_some, List.all_eq_true] at hchars
  exact fun h => absurd (hchars _ h) (by decide)

theorem replacement_not_mem_query {t : Target} {q : List Char} (hq : q ∈ t.query) :
    replacement ∉ q := by
  have hchars := t.query_chars
  rw [hq, Option.getD_some, List.all_eq_true] at hchars
  exact fun h => absurd (hchars _ h) (by decide)

end Target

theorem parseQuery_target_iff : parseQuery (t.query.map .ofList) =
    nodeQuery ((t.nodePairs parser).map stringPair) ↔ ∀ q ∈ t.query, ReadsAlike q := by
  rw [Target.nodePairs]
  cases hq : t.query with
  | none => simp [parseQuery, nodeQuery]
  | some q =>
      rw [Option.map_some, Option.map_some, Option.getD_some,
        Url.searchParams_escape (Target.space_not_mem_query hq),
        parseQuery_eq_nodeQuery_iff (Target.replacement_not_mem_query hq)]
      simp

theorem decodePath_eq_some : decodePath t.rest = some path ↔
    encode path.toList = (t.rest.map percentDecode).getD [] := by
  cases t.rest with
  | none =>
      rw [decodePath, Option.map_none, Option.getD_none, Option.some.injEq]
      refine ⟨fun h => h ▸ rfl, fun h => ?_⟩
      have h : path.toList = [] := Utf8.encode_injective h
      rw [← String.ofList_toList (s := path), h]
  | some r => exact decodeCapture_eq_some

theorem exists_decodeCapture_iff {capture : List Char} :
    (∃ s, decodeCapture capture = some s) ↔ Utf8.Valid (percentDecode capture) := by
  constructor
  · rintro ⟨s, hs⟩
    exact ⟨s.toList, decodeCapture_eq_some.mp hs⟩
  · rintro ⟨l, hl⟩
    exact ⟨.ofList l, decodeCapture_eq_some.mpr (by rwa [String.toList_ofList])⟩

/-- **The axum adapter declines what it cannot read.** -/
theorem exists_axumRouting_iff (ha : (toBytes config.maxBodySize a.body).isSome) :
    (∃ r, axumRouting axumTakes config t a = some r) ↔ axumTakes t.text ∧ ¬ t.Unreadable := by
  rw [Target.Unreadable, not_or, not_or, not_not]
  constructor
  · rintro ⟨⟨service, path, query⟩, h⟩
    obtain ⟨htakes, hrest, hs, hp, -⟩ := (axumRouting_eq_some ha).mp h
    refine ⟨htakes, hrest, exists_decodeCapture_iff.mp ⟨service, hs⟩, ?_⟩
    rintro ⟨r, hr, hinvalid⟩
    rw [hr] at hp
    exact hinvalid (exists_decodeCapture_iff.mp ⟨path, hp⟩)
  · rintro ⟨htakes, hrest, hs, hr⟩
    obtain ⟨service, hs⟩ := exists_decodeCapture_iff.mpr hs
    obtain ⟨path, hp⟩ : ∃ path, decodePath t.rest = some path := by
      cases hr' : t.rest with
      | none => exact ⟨"", rfl⟩
      | some r =>
          exact exists_decodeCapture_iff.mpr (not_not.mp fun hinvalid => hr ⟨r, hr', hinvalid⟩)
    exact ⟨_, (axumRouting_eq_some ha).mpr ⟨htakes, hrest, hs, hp, rfl⟩⟩

/-- **The Node adapter declines what its dot segments take out of the tunnel.** -/
theorem exists_nodeRouting_iff (hdefault : options.tunnelPrefix = none)
    (hn : (readToEnd n.body).isSome) :
    (∃ r, nodeRouting nodeTakes parser options t n = some r) ↔
      nodeTakes t.text ∧ t.UnderTunnel := by
  rw [Target.underTunnel_iff]
  constructor
  · rintro ⟨⟨service, path, query⟩, h⟩
    obtain ⟨htakes, s, rest, hresolved, hs, -⟩ := (nodeRouting_eq_some hdefault hn).mp h
    exact ⟨htakes, s, rest, hresolved, hs⟩
  · rintro ⟨htakes, s, rest, hresolved, hs⟩
    exact ⟨_, (nodeRouting_eq_some hdefault hn).mpr
      ⟨htakes, s, rest, hresolved, hs, rfl, rfl, rfl⟩⟩

/-- What both adapters hand over alike is literal. -/
theorem literal_of_routing_eq (hdefault : options.tunnelPrefix = none)
    (ha : (toBytes config.maxBodySize a.body).isSome) (hn : (readToEnd n.body).isSome)
    (haxum : axumRouting axumTakes config t a = some (service, path, query))
    (hnode : nodeRouting nodeTakes parser options t n = some (service, path, query)) :
    t.Literal parser := by
  obtain ⟨-, hrest, hs, hp, hq⟩ := (axumRouting_eq_some ha).mp haxum
  obtain ⟨-, s, rest, hresolved, hne, rfl, rfl, hq'⟩ := (nodeRouting_eq_some hdefault hn).mp hnode
  rw [decodeCapture_eq_some, String.toList_ofList] at hs
  rw [decodePath_eq_some, String.toList_ofList] at hp
  have hdecoded : ∀ r ∈ t.rest,
      encode (joinPath (rest.map parser.pathSet.escape)) = percentDecode r := by
    intro r hr
    rw [hp, hr]
    rfl
  have hplain : ∀ u ∈ (s :: rest).map parser.pathSet.escape,
      '/' ∉ u ∧ '\\' ∉ u ∧ isDotSegment u = false := fun u hu =>
    Target.plain_of_mem_pathname (by
      rw [hresolved]
      exact List.mem_cons_of_mem _ hu)
  have hback : ∀ u ∈ rest.map parser.pathSet.escape, '\\' ∉ u := fun u hu =>
    (hplain u (List.mem_cons_of_mem _ hu)).2.1
  -- A `\` would be read back.
  have hchars : ∀ c ∈ t.service ++ t.rest.getD [], c ≠ '\\' := by
    refine Target.forall_chars.mpr ⟨?_, fun r hr => ?_⟩
    · rintro c hc rfl
      have h := Url.subset_percentDecode (by decide) rfl hc List.mem_cons_self
      rw [← hs, Utf8.mem_encode_iff (d := '\\') rfl (by decide)] at h
      exact (hplain _ List.mem_cons_self).2.1 h
    · rintro c hc rfl
      have h := Url.subset_percentDecode (by decide) rfl hc List.mem_cons_self
      rw [← hdecoded r hr, Utf8.mem_encode_iff (d := '\\') rfl (by decide)] at h
      exact Url.not_mem_joinPath (by decide) hback h
  have hsegments := Target.not_isDotSegment_of_decoded (fun u hu => (hplain u hu).1)
    (fun u hu => (hplain u hu).2.2) hs hdecoded
  rw [Target.resolved_eq hchars hsegments, Target.segments] at hresolved
  obtain ⟨rfl, rfl⟩ := List.cons.inj (List.cons.inj hresolved).2
  obtain ⟨hservice, hkept⟩ := Url.percentDecode_eq_encode_escape_iff.mp hs.symm
  have hpath : ∀ r ∈ t.rest, hasEscape r = false ∧ ∀ c ∈ r, parser.pathSet.escapes c = false := by
    intro r hr
    have hr' := hdecoded r hr
    rw [Url.joinPath_map_escape, t.joinPath_restSegments, hr] at hr'
    exact Url.percentDecode_eq_encode_escape_iff.mp hr'.symm
  exact
    { rest := hrest
      dots := hsegments
      chars := fun c hc => ⟨hchars c hc,
        Target.forall_chars.mpr ⟨hkept, fun r hr => (hpath r hr).2⟩ c hc⟩
      service := hservice
      path := fun r hr => (hpath r hr).1
      query := parseQuery_target_iff.mp (hq.symm.trans hq') }

/-- Both adapters hand a literal target over as it is. -/
theorem routing_of_literal (hdefault : options.tunnelPrefix = none)
    (ha : (toBytes config.maxBodySize a.body).isSome) (hn : (readToEnd n.body).isSome)
    (haxum : axumTakes t.text) (hnode : nodeTakes t.text) (h : t.Literal parser) :
    ∃ r, axumRouting axumTakes config t a = some r ∧
      nodeRouting nodeTakes parser options t n = some r := by
  have hself : parser.pathSet.escape t.service = t.service :=
    EscapeSet.escape_eq_self fun c hc => (h.chars c (List.mem_append_left _ hc)).2
  have hpath : parser.pathSet.escape (t.rest.getD []) = t.rest.getD [] :=
    EscapeSet.escape_eq_self fun c hc => (h.chars c (List.mem_append_right _ hc)).2
  refine ⟨(.ofList t.service, .ofList (t.rest.getD []), parseQuery (t.query.map .ofList)),
    (axumRouting_eq_some ha).mpr ⟨haxum, h.rest, ?_, ?_, rfl⟩,
    (nodeRouting_eq_some hdefault hn).mpr ⟨hnode, t.service, t.restSegments,
      Target.resolved_eq (fun c hc => (h.chars c hc).1) h.dots, t.service_ne_nil, ?_, ?_,
      parseQuery_target_iff.mpr h.query⟩⟩
  · rw [decodeCapture_eq_some, String.toList_ofList]
    exact (Url.percentDecode_eq_encode h.service).symm
  · rw [decodePath_eq_some, String.toList_ofList]
    cases hr : t.rest with
    | none => rfl
    | some r => exact (Url.percentDecode_eq_encode (h.path r hr)).symm
  · rw [hself]
  · rw [Url.joinPath_map_escape, t.joinPath_restSegments, hpath]

/-- **Both adapters hand over one service, path and query exactly for the literal targets that both
servers take**; they both decline where the axum adapter cannot read the target, or its server does
not take it, and the dot segments lead out of the tunnel's paths, or the Node server does not take
it.  Where every piece of the query has a `=`, it reads alike exactly when its keys, and the last
value of each, are plain. -/
theorem adapters_agree_on_routing (axumTakes nodeTakes : List Char → Bool) (parser : UrlParser)
    (t : Target) (a : RoutedRequest) (n : NodeRequest) (hdefault : options.tunnelPrefix = none)
    (ha : (toBytes config.maxBodySize a.body).isSome) (hn : (readToEnd n.body).isSome) :
    (axumRouting axumTakes config t a = nodeRouting nodeTakes parser options t n ↔
      (axumTakes t.text ∧ nodeTakes t.text ∧ t.Literal parser) ∨
        (axumTakes t.text → t.Unreadable) ∧ (nodeTakes t.text → ¬ t.UnderTunnel)) ∧
    ∀ q ∈ t.query, (∀ piece ∈ q.splitOn '&', piece ≠ [] → '=' ∈ piece) →
      (ReadsAlike q ↔ PlainQuery q) := by
  refine ⟨⟨fun h => ?_, fun h => ?_⟩,
    fun q hq hvalues => readsAlike_iff_plain (Target.replacement_not_mem_query hq) hvalues⟩
  · cases haxum : axumRouting axumTakes config t a with
    | none =>
        refine .inr ⟨fun htakes => not_not.mp fun hu => ?_, fun htakes hunder => ?_⟩
        · obtain ⟨r, hr⟩ := (exists_axumRouting_iff ha).mpr ⟨htakes, hu⟩
          cases haxum.symm.trans hr
        · obtain ⟨r, hr⟩ := (exists_nodeRouting_iff hdefault hn).mpr ⟨htakes, hunder⟩
          cases (haxum.symm.trans h).trans hr
    | some r =>
        obtain ⟨service, path, query⟩ := r
        have hnode := h.symm.trans haxum
        refine .inl ⟨((axumRouting_eq_some ha).mp haxum).1,
          ((nodeRouting_eq_some hdefault hn).mp hnode).1, ?_⟩
        exact literal_of_routing_eq hdefault ha hn haxum hnode
  · rcases h with ⟨htakes, htakes', h⟩ | ⟨hunreadable, hout⟩
    · obtain ⟨r, haxum, hnode⟩ := routing_of_literal hdefault ha hn htakes htakes' h
      exact haxum.trans hnode.symm
    · have haxum : axumRouting axumTakes config t a = none :=
        Option.eq_none_iff_forall_ne_some.mpr fun r hr => by
          obtain ⟨htakes, hreadable⟩ := (exists_axumRouting_iff ha).mp ⟨r, hr⟩
          exact hreadable (hunreadable htakes)
      have hnode : nodeRouting nodeTakes parser options t n = none :=
        Option.eq_none_iff_forall_ne_some.mpr fun r hr => by
          obtain ⟨htakes, hunder⟩ := (exists_nodeRouting_iff hdefault hn).mp ⟨r, hr⟩
          exact hout htakes hunder
      exact haxum.trans hnode.symm

/-- The percent-encode sets of the URL Standard. -/
def standardParser : UrlParser where
  pathSet := .ofChars "\"#<>^\x60\x7b\x7d".toList (by decide)
  querySet := .ofChars "\"#<>'".toList (by decide)

/-- `/tunnel/app/users?page=2`. -/
def plainTarget : Target where
  service := "app".toList
  rest := some "users".toList
  query := some "page=2".toList
  service_ne_nil := by decide
  service_chars := by decide
  rest_chars := by decide
  query_chars := by decide

/-- Behind either adapter it is a request for `users` with that page. -/
theorem adapters_agree_on_routing_plain :
    axumRouting (fun _ => true) {} plainTarget ⟨"", none, "GET", [], []⟩ =
      nodeRouting (fun _ => true) standardParser {} plainTarget ⟨⟨"", []⟩, some "GET", [], []⟩ := by
  have hagree := @adapters_agree_on_routing {} {} (fun _ => true) (fun _ => true) standardParser
    plainTarget ⟨"", none, "GET", [], []⟩ ⟨⟨"", []⟩, some "GET", [], []⟩ rfl rfl rfl
  have hpairs : writtenPairs "page=2".toList = [("page".toList, "2".toList)] := by decide
  have hplain : PlainQuery "page=2".toList := by
    refine ⟨by rw [hpairs]; decide, fun k v hv => ?_⟩
    have hmem := Collect.mem_of_last_eq_some hv
    rw [hpairs, List.mem_singleton] at hmem
    cases hmem
    decide
  have halike := (hagree.2 _ rfl (by decide)).mpr hplain
  refine hagree.1.mpr (.inl ⟨rfl, rfl, ?_⟩)
  exact
    { rest := by decide
      dots := by decide
      chars := fun c hc => by
        have hall : (plainTarget.service ++ plainTarget.rest.getD []).all (fun c =>
            c ≠ '\\' && !standardParser.pathSet.escapes c) = true := by decide
        simpa using List.all_eq_true.mp hall c hc
      service := by decide
      path := by decide
      query := by
        rintro q ⟨⟩
        exact halike }

/-- `/tunnel/app/a%20b`. -/
def escapedTarget : Target where
  service := "app".toList
  rest := some "a%20b".toList
  query := none
  service_ne_nil := by decide
  service_chars := by decide
  rest_chars := by decide
  query_chars := by decide

/-- The axum adapter hands a space on, the Node adapter its escape. -/
theorem escaped_path_differs :
    (axumRouting (fun _ => true) {} escapedTarget ⟨"", none, "GET", [], []⟩).map (·.2.1) =
        some "a b" ∧
      (nodeRouting (fun _ => true) standardParser {} escapedTarget
        ⟨⟨"", []⟩, some "GET", [], []⟩).map (·.2.1) = some "a%20b" ∧
      axumRouting (fun _ => true) {} escapedTarget ⟨"", none, "GET", [], []⟩ ≠
        nodeRouting (fun _ => true) standardParser {} escapedTarget
          ⟨⟨"", []⟩, some "GET", [], []⟩ := by
  have haxum : (axumRouting (fun _ => true) {} escapedTarget
      ⟨"", none, "GET", [], []⟩).map (·.2.1) = some "a b" := by decide +kernel
  have hnode : (nodeRouting (fun _ => true) standardParser {} escapedTarget
      ⟨⟨"", []⟩, some "GET", [], []⟩).map (·.2.1) = some "a%20b" := by decide +kernel
  refine ⟨haxum, hnode, fun h => ?_⟩
  rw [h, hnode] at haxum
  exact absurd haxum (by decide)

end Outpunch
