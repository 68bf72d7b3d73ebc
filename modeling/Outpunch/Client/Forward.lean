import Outpunch.Client.Session
import Outpunch.Library.Url
import Outpunch.Protocol.Http
import Outpunch.Server.State

/-!
# Client — the request to the local service

`forward_url` and the HTTP request `forward_request` builds.  A `HashMap` may iterate in any order,
so `forwardUrl` takes the pairs of the query in the order they come.

`forward_url` writes paths, keys and values as they are.  So a URL is read back as what it was
written from exactly when none of them holds a delimiter of the part it stands in, or an escape
(`forward_url_faithful`).
-/

namespace Outpunch

open Url (hasEscape percentDecode readPairs joinPairs size pairsSize)

/-- `trim_end_matches`. -/
def trimEndMatches (d : Char) (s : String) : String := .ofList (s.toList.rdropWhile (· = d))

/-- `forward_url`. -/
def forwardUrl (forwardTo path : String) (query : List (String × String)) : String :=
  let base := trimEndMatches '/' forwardTo
  if query.isEmpty then base ++ "/" ++ path
  else base ++ "/" ++ path ++ "?" ++ "&".intercalate (query.map fun p => p.1 ++ "=" ++ p.2)

/-- What the client asks the HTTP client for. -/
structure HttpRequest where
  method : String
  url : String
  headers : List (String × String)
  body : Option (List UInt8)
  deriving DecidableEq

/-- The request `forward_request` builds. -/
def httpRequest (config : ClientConfig) (req : TunnelRequest) : HttpRequest where
  method := parseMethod req.method
  url := forwardUrl config.forwardTo req.path req.query.toList
  headers := req.headers.toList
  body := req.body.map bytes

/-- The HTTP client can send the request: it takes the headers for headers. -/
def HttpRequest.accepted (r : HttpRequest) : Bool := r.headers.all isHeader

/-! ### The text of the URL -/

/-- A pair of strings, as texts. -/
def charPair (p : String × String) : List Char × List Char := (p.1.toList, p.2.toList)

/-- The base of the URLs of a client. -/
def baseOf (forwardTo : String) : List Char := forwardTo.toList.rdropWhile (· = '/')

/-- The query, as it stands in the URL. -/
def querySuffix : List (String × String) → List Char
  | [] => []
  | query => '?' :: joinPairs (query.map charPair)

theorem toList_forwardUrl (forwardTo path : String) (query : List (String × String)) :
    (forwardUrl forwardTo path query).toList =
      baseOf forwardTo ++ ['/'] ++ (path.toList ++ querySuffix query) := by
  have hbase : (trimEndMatches '/' forwardTo).toList = baseOf forwardTo := String.toList_ofList
  unfold forwardUrl
  cases query with
  | nil => simp [hbase, querySuffix]
  | cons p query =>
      have hpairs : (List.map (fun p : String × String => p.1 ++ "=" ++ p.2) (p :: query)).map
          String.toList = ((p :: query).map charPair).map Url.writePair := by
        simp [charPair, Url.writePair]
      simp only [List.isEmpty_cons, Bool.false_eq_true, if_false, String.toList_append,
        String.toList_intercalate, hpairs, hbase, querySuffix]
      simp [joinPairs]

/-! ### Reading a URL back -/

/-- The pairs of the query of a URL; one without query has none. -/
def readQuery (url : String) : Option (List (List Char × List Char)) :=
  match Url.query url.toList with
  | none => some []
  | some q => readPairs q

/-- The bytes the parts of a pair stand for. -/
def decodePair (p : List Char × List Char) : List UInt8 × List UInt8 :=
  (percentDecode p.1, percentDecode p.2)

/-- The bytes of a parameter. -/
def paramBytes (p : String × String) : List UInt8 × List UInt8 :=
  (Utf8.encode p.1.toList, Utf8.encode p.2.toList)

/-- A URL read back by the syntax of URLs is the base, the path and the query it was made of. -/
def ReadsBack (forwardTo path : String) (query : StringMap) (url : String) : Prop :=
  (∃ raw, Url.location url.toList = baseOf forwardTo ++ '/' :: raw ∧
    percentDecode raw = Utf8.encode path.toList) ∧
  ∃ pairs, readQuery url = some pairs ∧
    (pairs.map decodePair).Perm (query.toList.map paramBytes)

/-- No character of the path ends it or begins an escape. -/
def CleanPath (path : String) : Prop :=
  '?' ∉ path.toList ∧ '#' ∉ path.toList ∧ hasEscape path.toList = false

/-- No character of a parameter ends a part of it, or begins an escape. -/
def CleanParam (p : String × String) : Prop :=
  Url.CleanPair (charPair p) ∧ ('#' ∉ p.1.toList ∧ '#' ∉ p.2.toList) ∧
    hasEscape p.1.toList = false ∧ hasEscape p.2.toList = false

section

variable {forwardTo path : String} {order : List (String × String)}

theorem not_mem_baseOf {d : Char} (h : d ∉ forwardTo.toList) (hne : d ≠ '/') :
    d ∉ baseOf forwardTo ++ ['/'] := by
  have hd : d ∉ baseOf forwardTo := fun hd => h ((List.rdropWhile_prefix _ _).subset hd)
  simp [hd, hne]

/-- What is read of the path is as much of it as stands before the first delimiter. -/
theorem location_forwardUrl (hq : '?' ∉ forwardTo.toList) (hf : '#' ∉ forwardTo.toList) :
    Url.location (forwardUrl forwardTo path order).toList =
      baseOf forwardTo ++ ['/'] ++ Url.location path.toList := by
  rw [toList_forwardUrl, Url.location_append]
  · cases order with
    | nil => rw [querySuffix, List.append_nil]
    | cons p order => rw [querySuffix, Url.location_append_query]; simp
  · intro c hc
    have h₁ : c ≠ '?' := fun e => not_mem_baseOf hq (by decide) (e ▸ hc)
    have h₂ : c ≠ '#' := fun e => not_mem_baseOf hf (by decide) (e ▸ hc)
    simp [Url.endsLocation, h₁, h₂]

/-- **The path is read back exactly when it is clean.** -/
theorem path_readsBack (hq : '?' ∉ forwardTo.toList) (hf : '#' ∉ forwardTo.toList) :
    (∃ raw, Url.location (forwardUrl forwardTo path order).toList = baseOf forwardTo ++ '/' :: raw ∧
      percentDecode raw = Utf8.encode path.toList) ↔ CleanPath path := by
  rw [location_forwardUrl hq hf, CleanPath, ← and_assoc, ← Url.location_eq_self_iff,
    ← Url.percentDecode_eq_encode_iff]
  constructor
  · rintro ⟨raw, hraw, hdec⟩
    obtain rfl : Url.location path.toList = raw := by simpa using hraw
    have hsize := Url.length_percentDecode_le (Url.location path.toList)
    rw [hdec] at hsize
    have hloc := Url.eq_of_isPrefix_of_size (Url.location_isPrefix _) hsize
    rw [hloc] at hdec
    exact ⟨hloc, hdec⟩
  · rintro ⟨hloc, hdec⟩
    exact ⟨path.toList, by rw [hloc]; simp, hdec⟩

/-! ### The query -/

/-- How many bytes the parts of decoded pairs take. -/
def decodedSize (l : List (List UInt8 × List UInt8)) : Nat :=
  (l.map fun p => p.1.length + p.2.length).sum

theorem decodedSize_paramBytes (order : List (String × String)) :
    decodedSize (order.map paramBytes) = pairsSize (order.map charPair) := by
  rw [decodedSize, pairsSize, List.map_map, List.map_map]
  rfl

theorem length_decodePair_le (p : List Char × List Char) :
    (decodePair p).1.length + (decodePair p).2.length ≤ size p.1 + size p.2 :=
  Nat.add_le_add (Url.length_percentDecode_le _) (Url.length_percentDecode_le _)

/-- Pairs that decode to as many bytes as they take have no escape. -/
theorem hasEscape_of_decodedSize {pairs : List (List Char × List Char)}
    (h : pairsSize pairs ≤ decodedSize (pairs.map decodePair)) {p : List Char × List Char}
    (hp : p ∈ pairs) : hasEscape p.1 = false ∧ hasEscape p.2 = false := by
  by_contra hno
  have hlt : decodedSize (pairs.map decodePair) < pairsSize pairs := by
    rw [decodedSize, List.map_map]
    refine List.sum_lt_sum _ _ (fun p _ => length_decodePair_le p) ⟨p, hp, ?_⟩
    cases h₁ : hasEscape p.1 with
    | true =>
        exact Nat.add_lt_add_of_lt_of_le (Url.length_percentDecode_lt h₁)
          (Url.length_percentDecode_le _)
    | false =>
        have h₂ : hasEscape p.2 = true := by simpa [h₁] using hno
        exact Nat.add_lt_add_of_le_of_lt (Url.length_percentDecode_le _)
          (Url.length_percentDecode_lt h₂)
  exact absurd h (Nat.not_le.mpr hlt)

/-- What was written of a query is read back exactly when it is clean. -/
theorem pairs_readBack (hne : order ≠ []) :
    (∃ pairs, readPairs (Url.cutFragment (joinPairs (order.map charPair))) = some pairs ∧
      (pairs.map decodePair).Perm (order.map paramBytes)) ↔ ∀ p ∈ order, CleanParam p := by
  have hne' : order.map charPair ≠ [] := by simpa using hne
  constructor
  · rintro ⟨pairs, hread, hperm⟩
    obtain ⟨hpairs, hjoin, hclean⟩ := Url.readPairs_eq_some.mp hread
    -- count the bytes that were written and the bytes that were read
    have hlen : pairs.length = order.length := by simpa using hperm.length_eq
    have hsum : decodedSize (pairs.map decodePair) = decodedSize (order.map paramBytes) :=
      (hperm.map _).sum_eq
    have hle : decodedSize (pairs.map decodePair) ≤ pairsSize pairs := by
      rw [decodedSize, List.map_map]
      exact List.sum_le_sum fun p _ => length_decodePair_le p
    have hwritten := Url.size_joinPairs hne'
    have hreadSize := Url.size_joinPairs hpairs
    rw [decodedSize_paramBytes] at hsum
    rw [List.length_map] at hwritten
    rw [hjoin] at hreadSize
    have hcut : Url.cutFragment (joinPairs (order.map charPair)) = joinPairs (order.map charPair) :=
      Url.eq_of_isPrefix_of_size (List.takeWhile_prefix _) (by omega)
    rw [hcut] at hreadSize
    have hesc := fun {p} => @hasEscape_of_decodedSize pairs (by omega) p
    -- so the pairs read are the pairs written
    have hdec : pairs.map decodePair =
        pairs.map fun p => (Utf8.encode p.1, Utf8.encode p.2) :=
      List.map_congr_left fun p hp => Prod.ext
        (Url.percentDecode_eq_encode (hesc hp).1) (Url.percentDecode_eq_encode (hesc hp).2)
    have hparam : order.map paramBytes =
        (order.map charPair).map fun p => (Utf8.encode p.1, Utf8.encode p.2) := by
      rw [List.map_map]; rfl
    rw [hdec, hparam] at hperm
    have hinj : Function.Injective fun p : List Char × List Char =>
        (Utf8.encode p.1, Utf8.encode p.2) :=
      Utf8.encode_injective.prodMap Utf8.encode_injective
    have hperm := (List.map_perm_map_iff hinj).mp hperm
    intro p hp
    have hmem : charPair p ∈ pairs := hperm.symm.subset (List.mem_map_of_mem hp)
    have hhash := Url.cutFragment_eq_self_iff.mp hcut
    exact ⟨hclean _ hmem,
      ⟨fun h => hhash (Url.mem_joinPairs (List.mem_map_of_mem hp) (.inl h)),
        fun h => hhash (Url.mem_joinPairs (List.mem_map_of_mem hp) (.inr h))⟩, hesc hmem⟩
  · intro hclean
    have hhash : '#' ∉ joinPairs (order.map charPair) := by
      intro h
      obtain ⟨p', hp', h⟩ := (Url.mem_joinPairs_iff (by decide) (by decide)).mp h
      obtain ⟨p, hp, rfl⟩ := List.mem_map.mp hp'
      exact h.elim (hclean p hp).2.1.1 (hclean p hp).2.1.2
    refine ⟨order.map charPair, ?_, ?_⟩
    · rw [Url.cutFragment_eq_self_iff.mpr hhash]
      refine Url.readPairs_eq_some.mpr ⟨hne', rfl, fun p' hp' => ?_⟩
      obtain ⟨p, hp, rfl⟩ := List.mem_map.mp hp'
      exact (hclean p hp).1
    · rw [List.map_map]
      refine List.Perm.of_eq (List.map_congr_left fun p hp => ?_)
      exact Prod.ext (Url.percentDecode_eq_encode (hclean p hp).2.2.1)
        (Url.percentDecode_eq_encode (hclean p hp).2.2.2)

/-- What is read of the query of a URL with no delimiter before it. -/
theorem readQuery_forwardUrl (hq : '?' ∉ forwardTo.toList) (hf : '#' ∉ forwardTo.toList)
    (hpq : '?' ∉ path.toList) (hpf : '#' ∉ path.toList) :
    readQuery (forwardUrl forwardTo path order) =
      if order = [] then some []
      else readPairs (Url.cutFragment (joinPairs (order.map charPair))) := by
  have hclean : ∀ {d : Char}, d ∉ forwardTo.toList → d ≠ '/' → d ∉ path.toList →
      d ∉ baseOf forwardTo ++ ['/'] ++ path.toList := fun h hne hp =>
    List.not_mem_append (not_mem_baseOf h hne) hp
  have hq := hclean hq (by decide) hpq
  have hf := hclean hf (by decide) hpf
  unfold readQuery
  rw [toList_forwardUrl, ← List.append_assoc]
  cases order with
  | nil => rw [querySuffix, List.append_nil, Url.query_eq_none hq]; rfl
  | cons p order =>
      rw [querySuffix, Url.query_append hq hf, if_neg (by simp)]
      simp

/-- **`forward_url` encodes faithfully exactly what needs no encoding**: whatever the order of the
query map, the URL is read back as its base, path and query when no character of the path, of a
key or of a value is a delimiter of the part it stands in or begins an escape, and not
otherwise. -/
theorem forward_url_faithful (hq : '?' ∉ forwardTo.toList) (hf : '#' ∉ forwardTo.toList)
    {query : StringMap} (horder : order.Perm query.toList) :
    ReadsBack forwardTo path query (forwardUrl forwardTo path order) ↔
      CleanPath path ∧ ∀ p ∈ query.toList, CleanParam p := by
  unfold ReadsBack
  rw [path_readsBack hq hf]
  refine and_congr_right fun hpath => ?_
  rw [readQuery_forwardUrl hq hf hpath.1 hpath.2.1]
  have hperm : ∀ {l : List (List UInt8 × List UInt8)},
      l.Perm (query.toList.map paramBytes) ↔ l.Perm (order.map paramBytes) := fun {l} =>
    ⟨fun h => h.trans (horder.map _).symm, fun h => h.trans (horder.map _)⟩
  have hall : (∀ p ∈ query.toList, CleanParam p) ↔ ∀ p ∈ order, CleanParam p :=
    forall_congr' fun p => by rw [horder.mem_iff]
  simp only [hperm, hall]
  by_cases hne : order = []
  · subst hne
    simp
  · rw [if_neg hne]
    exact pairs_readBack hne

/-- A clean request. -/
theorem forward_url_faithful_plain :
    ReadsBack "http://localhost:8080/" "search" (.ofList [("q", "a b")])
      (forwardUrl "http://localhost:8080/" "search" [("q", "a b")]) :=
  (forward_url_faithful (by decide) (by decide) (by decide +kernel)).mpr
    ⟨by unfold CleanPath; decide, by unfold CleanParam charPair Url.CleanPair; decide +kernel⟩

/-- A value with a `&` in it adds a parameter. -/
theorem forward_url_injects :
    ¬ ReadsBack "http://localhost:8080" "search" (.ofList [("q", "1&admin=true")])
      (forwardUrl "http://localhost:8080" "search" [("q", "1&admin=true")]) := by
  rintro ⟨-, pairs, hread, hperm⟩
  have hpairs : readQuery (forwardUrl "http://localhost:8080" "search" [("q", "1&admin=true")]) =
      some [("q".toList, "1".toList), ("admin".toList, "true".toList)] := by decide +kernel
  cases hpairs.symm.trans hread
  exact absurd hperm.length_eq (by decide +kernel)

end

end Outpunch
