import Outpunch.Axum.Handler
import Outpunch.Client.Forward
import Outpunch.Library.Collect

/-!
# Tunnel — query parameters

The pairs of a public URL go through a map on their way to the private one: `parse_query` collects
them, the wire carries the map, and `forward_url` writes its entries in the order it iterates.  A
map holds one value for each key, the last (`query_parameters_by_key`).  A second `parse_query` on
the private side finds the same map (`parse_query_stable`).
-/

namespace Outpunch

open Url (readPairs joinPairs)

variable {raw forwardTo path : String} {pairs : List (List Char × List Char)}
  {order : List (String × String)}

theorem charPair_stringPair (p : List Char × List Char) : charPair (stringPair p) = p :=
  Prod.ext String.toList_ofList String.toList_ofList

theorem map_charPair_stringPair (pairs : List (List Char × List Char)) :
    (pairs.map stringPair).map charPair = pairs := by
  rw [List.map_map]
  exact List.map_id'' charPair_stringPair pairs

/-- When every piece of a query is a pair, `parse_query` finds them all. -/
theorem queryPairs_eq (h : readPairs raw.toList = some pairs) :
    queryPairs raw = pairs.map stringPair := by
  obtain ⟨hpieces, hall⟩ := Url.mapM_splitOnce_eq_some.mp h
  rw [queryPairs, hpieces, List.filterMap_map]
  refine congrArg (List.map stringPair) ?_
  calc pairs.filterMap (Url.splitOnce '=' ∘ Url.writePair)
      = pairs.filterMap some :=
        List.filterMap_congr fun p hp => Url.splitOnce_append (hall p hp) p.2
    _ = pairs := List.filterMap_some

/-- What the client writes of a query is some of its pairs. -/
theorem subperm_of_order (h : readPairs raw.toList = some pairs)
    (horder : order.Perm (parseQuery (some raw)).toList) :
    (order.map charPair).Subperm pairs := by
  have hsub : (parseQuery (some raw)).toList.Subperm (queryPairs raw) :=
    Collect.toList_ofList_subperm _
  obtain ⟨l, hperm, hl⟩ := horder.subperm.trans hsub
  rw [queryPairs_eq h] at hl
  have hl := hl.map charPair
  rw [map_charPair_stringPair] at hl
  exact ⟨l.map charPair, hperm.map charPair, hl⟩

/-- No pair is missing when no key is repeated, and only then. -/
theorem perm_of_order_iff (h : readPairs raw.toList = some pairs)
    (horder : order.Perm (parseQuery (some raw)).toList) :
    (order.map charPair).Perm pairs ↔ (pairs.map Prod.fst).Nodup := by
  have hkeys : ((queryPairs raw).map Prod.fst).Nodup ↔ (pairs.map Prod.fst).Nodup := by
    have hinj : Function.Injective String.ofList := fun _ _ => String.ofList_injective
    rw [queryPairs_eq h, List.map_map, ← List.nodup_map_iff hinj, List.map_map]
    rfl
  rw [← hkeys]
  constructor
  · intro hperm
    have hlen : (queryPairs raw).length =
        (Std.ExtTreeMap.ofList (queryPairs raw)).toList.length := by
      rw [queryPairs_eq h, List.length_map, ← hperm.length_eq, List.length_map, horder.length_eq,
        parseQuery, queryPairs_eq h]
    exact Collect.nodup_of_length_le (Nat.le_of_eq hlen)
  · intro hnodup
    have hperm := horder.trans (Collect.toList_ofList_perm_iff.mpr hnodup)
    rw [queryPairs_eq h] at hperm
    have hperm := hperm.map charPair
    rwa [map_charPair_stringPair] at hperm

theorem order_ne_nil (h : readPairs raw.toList = some pairs)
    (horder : order.Perm (parseQuery (some raw)).toList) : order ≠ [] := by
  rintro rfl
  have hsize : (parseQuery (some raw)).size = 0 := by
    rw [← Std.ExtTreeMap.length_toList, ← horder.length_eq, List.length_nil]
  rw [← Std.ExtTreeMap.eq_empty_iff_size_eq_zero, parseQuery, Std.ExtTreeMap.ofList_eq_empty_iff,
    queryPairs_eq h, List.map_eq_nil_iff] at hsize
  exact (Url.readPairs_eq_some.mp h).1 hsize

/-- A key is written with the last value it has in the query. -/
theorem mem_order_iff (h : readPairs raw.toList = some pairs)
    (horder : order.Perm (parseQuery (some raw)).toList) (k v : List Char) :
    (k, v) ∈ order.map charPair ↔ Collect.last pairs k = some v := by
  have hmem : (k, v) ∈ order.map charPair ↔ (String.ofList k, String.ofList v) ∈ order := by
    rw [List.mem_map]
    constructor
    · rintro ⟨p, hp, heq⟩
      obtain ⟨rfl, rfl⟩ := Prod.mk.inj heq
      rwa [String.ofList_toList, String.ofList_toList]
    · exact fun hp => ⟨_, hp, charPair_stringPair (k, v)⟩
  have hinj : Function.Injective String.ofList := fun _ _ => String.ofList_injective
  have hlast := Collect.last_map hinj String.ofList pairs k
  rw [hmem, horder.mem_iff, Std.ExtTreeMap.mem_toList_iff_getElem?_eq_some, parseQuery,
    Collect.getElem?_ofList, queryPairs_eq h]
  change Collect.last (pairs.map (Prod.map String.ofList String.ofList)) _ = _ ↔ _
  rw [hlast, Option.map_eq_some_iff]
  exact ⟨fun ⟨w, hw, heq⟩ => String.ofList_injective heq ▸ hw, fun hw => ⟨v, hw, rfl⟩⟩

/-- The keys the client writes are distinct. -/
theorem nodup_order (horder : order.Perm (parseQuery (some raw)).toList) :
    ((order.map charPair).map Prod.fst).Nodup := by
  have hkeys : (order.map Prod.fst).Nodup :=
    (horder.map Prod.fst).nodup_iff.mpr (Collect.nodup_keys _)
  have hinj : Function.Injective String.toList := fun _ _ => String.toList_injective
  rw [List.map_map]
  have := (List.nodup_map_iff hinj).mpr hkeys
  rwa [List.map_map] at this

/-- **The private query has each key once, with its last value in the public query**: whatever the
order of the map, so that all the pairs of the public query are there exactly when no key is
repeated in it. -/
theorem query_parameters_by_key (hq : '?' ∉ forwardTo.toList) (hf : '#' ∉ forwardTo.toList)
    (hpq : '?' ∉ path.toList) (hpf : '#' ∉ path.toList) (hrf : '#' ∉ raw.toList)
    (h : readPairs raw.toList = some pairs)
    (horder : order.Perm (parseQuery (some raw)).toList) :
    ∃ read, readQuery (forwardUrl forwardTo path order) = some read ∧
      (read.map Prod.fst).Nodup ∧ (∀ k v, (k, v) ∈ read ↔ Collect.last pairs k = some v) ∧
      (read.Perm pairs ↔ (pairs.map Prod.fst).Nodup) := by
  obtain ⟨hpairs, hjoin, hclean⟩ := Url.readPairs_eq_some.mp h
  have hsub := (subperm_of_order h horder).subset
  have hne := order_ne_nil h horder
  have hne' : order.map charPair ≠ [] := by simpa using hne
  have hhash : '#' ∉ joinPairs (order.map charPair) := by
    intro hc
    obtain ⟨p, hp, hc⟩ := (Url.mem_joinPairs_iff (by decide) (by decide)).mp hc
    rw [← hjoin] at hrf
    exact hrf (Url.mem_joinPairs (hsub hp) hc)
  refine ⟨order.map charPair, ?_, nodup_order horder, mem_order_iff h horder,
    perm_of_order_iff h horder⟩
  rw [readQuery_forwardUrl hq hf hpq hpf, if_neg hne, Url.cutFragment_eq_self_iff.mpr hhash]
  exact Url.readPairs_eq_some.mpr ⟨hne', rfl, fun p hp => hclean p (hsub hp)⟩

/-- A search whose `q` is given twice. -/
theorem query_parameters_by_key_repeated :
    ∃ read, readQuery (forwardUrl "http://localhost:8080" "search" [("page", "2"), ("q", "b")]) =
      some read ∧ (read.map Prod.fst).Nodup ∧
      (∀ k v, (k, v) ∈ read ↔
        Collect.last [("q".toList, "a".toList), ("page".toList, "2".toList),
          ("q".toList, "b".toList)] k = some v) ∧
      (read.Perm [("q".toList, "a".toList), ("page".toList, "2".toList),
          ("q".toList, "b".toList)] ↔
        (["q".toList, "page".toList, "q".toList]).Nodup) :=
  @query_parameters_by_key "q=a&page=2&q=b" "http://localhost:8080" "search" _ _ (by decide)
    (by decide) (by decide) (by decide) (by decide) (by decide) (by decide +kernel)

/-- Of a key that is repeated one value is left. -/
theorem query_parameters_collapse :
    readPairs "tags=a&tags=b".toList =
      some [("tags".toList, "a".toList), ("tags".toList, "b".toList)] ∧
    ∀ order, order.Perm (parseQuery (some "tags=a&tags=b")).toList →
      ¬ ∃ read, readQuery (forwardUrl "http://localhost:8080" "search" order) = some read ∧
        read.Perm [("tags".toList, "a".toList), ("tags".toList, "b".toList)] := by
  refine ⟨by decide, fun order horder => ?_⟩
  have hmap : (parseQuery (some "tags=a&tags=b")).toList = [("tags", "b")] := by decide +kernel
  rw [hmap, List.perm_singleton] at horder
  rw [horder]
  have hread : readQuery (forwardUrl "http://localhost:8080" "search" [("tags", "b")]) =
      some [("tags".toList, "b".toList)] := by decide +kernel
  rintro ⟨read, h, hperm⟩
  cases hread.symm.trans h
  exact absurd hperm.length_eq (by decide)

/-! ### The query a second time -/

/-- The raw query of a URL, as `parse_query` is given it: what follows the first `?`. -/
def rawQuery (url : String) : Option String :=
  (Url.splitOnce '?' url.toList).map fun p => .ofList p.2

/-- `forward_url` puts the first `?` of a URL before the query. -/
theorem rawQuery_forwardUrl (hq : '?' ∉ forwardTo.toList) (hpq : '?' ∉ path.toList) :
    rawQuery (forwardUrl forwardTo path order) =
      if order = [] then none else some (.ofList (joinPairs (order.map charPair))) := by
  have hbefore : '?' ∉ baseOf forwardTo ++ ['/'] ++ path.toList :=
    List.not_mem_append (not_mem_baseOf hq (by decide)) hpq
  rw [rawQuery, toList_forwardUrl, ← List.append_assoc]
  cases order with
  | nil =>
      rw [querySuffix, List.append_nil, Url.splitOnce_eq_none.mpr hbefore]
      rfl
  | cons p order =>
      rw [querySuffix, Url.splitOnce_append hbefore, if_neg (List.cons_ne_nil _ _)]
      · rfl
      · exact List.cons_ne_nil p order

/-- `parse_query` cuts at every `&` and at the first `=`, so a key holds neither of them and a value
no `&`. -/
theorem cleanPair_of_mem_queryPairs {p : String × String} (h : p ∈ queryPairs raw) :
    Url.CleanPair (charPair p) := by
  obtain ⟨q, hq, rfl⟩ := List.mem_map.mp h
  obtain ⟨piece, hpiece, hcut⟩ := List.mem_filterMap.mp hq
  obtain ⟨hkey, rfl⟩ := Url.splitOnce_eq_some.mp hcut
  obtain ⟨hand, hvalue⟩ := Url.not_mem_writePair.mp (Url.not_mem_of_mem_splitOn hpiece)
  rw [charPair_stringPair]
  exact ⟨hand, hkey, hvalue⟩

theorem cleanPair_of_mem_parseQuery {raw : Option String} {p : String × String}
    (h : p ∈ (parseQuery raw).toList) : Url.CleanPair (charPair p) := by
  cases raw with
  | none => exact absurd h (@List.not_mem_nil _ p)
  | some raw => exact cleanPair_of_mem_queryPairs (Collect.mem_of_mem_toList h)

/-- Clean pairs that are written are the pairs found. -/
theorem queryPairs_joinPairs (hne : order ≠ []) (hclean : ∀ p ∈ order, Url.CleanPair (charPair p)) :
    queryPairs (.ofList (joinPairs (order.map charPair))) = order := by
  have hread : readPairs (joinPairs (order.map charPair)) = some (order.map charPair) := by
    refine Url.readPairs_eq_some.mpr ⟨by simpa using hne, rfl, fun p' hp' => ?_⟩
    obtain ⟨p, hp, rfl⟩ := List.mem_map.mp hp'
    exact hclean p hp
  rw [queryPairs_eq (by rwa [String.toList_ofList]), List.map_map]
  exact List.map_id'' (fun p => Prod.ext String.ofList_toList String.ofList_toList) order

/-- **The private server's `parse_query` finds the map of the public one**: whatever the raw query
and the order its map is written in, nothing is lost or merged but what `parse_query` drops on
entry. -/
theorem parse_query_stable {raw : Option String} (hq : '?' ∉ forwardTo.toList)
    (hpq : '?' ∉ path.toList) (horder : order.Perm (parseQuery raw).toList) :
    parseQuery (rawQuery (forwardUrl forwardTo path order)) = parseQuery raw := by
  have hcollect : Std.ExtTreeMap.ofList order = parseQuery raw :=
    Collect.ofList_of_perm_toList horder
  rw [rawQuery_forwardUrl hq hpq, ← hcollect]
  by_cases hne : order = []
  · rw [if_pos hne, hne]
    rfl
  · have hclean : ∀ p ∈ order, Url.CleanPair (charPair p) := fun p hp =>
      cleanPair_of_mem_parseQuery (horder.mem_iff.mp hp)
    rw [if_neg hne, parseQuery, queryPairs_joinPairs hne hclean]

/-- Empty keys and values, a `=` and a `?` in a value, a repeated key and a piece without `=`, the
map written last entry first. -/
theorem parse_query_stable_odd :
    (parseQuery (some "a=1&=x&b=c=d?&dropped&a=")).toList =
        [("", "x"), ("a", ""), ("b", "c=d?")] ∧
      parseQuery (rawQuery (forwardUrl "http://localhost:8080" "search"
        [("b", "c=d?"), ("a", ""), ("", "x")])) =
        parseQuery (some "a=1&=x&b=c=d?&dropped&a=") :=
  ⟨by decide +kernel,
    parse_query_stable (by decide) (by decide) (by decide +kernel)⟩

end Outpunch
