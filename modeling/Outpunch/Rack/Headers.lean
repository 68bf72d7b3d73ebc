import Outpunch.Axum.Handler
import Outpunch.Library.Collect
import Outpunch.Rack.Server

/-!
# Rack — request headers in the env

A Rack env holds the request headers under other names: upper-cased, with `_` for `-`, behind
`HTTP_`, but for two of them.  `extract_proxy_headers` goes back from there, `extract_headers` of
the axum adapter reads the headers themselves, and each has its own list of what it leaves out.

They forward the same headers, up to case, exactly for the requests that are `Plain`
(`filters_alike_iff`).
-/

namespace Outpunch

/-- A request as both adapters get it: its headers, and what a server adds to the Rack env.  A value
has a character for each byte. -/
structure RackRequest where
  headers : List (HeaderName × String)
  distinct : (headers.map Prod.fst).Nodup
  added : StringMap
  /-- The name of a variable is in capitals, and is not one that Rack rules out. -/
  legal : ∀ key ∈ added, isHttpKey key →
    (key.toList.all fun c => c.isUpper || c.isDigit || c = '_') ∧
      key ≠ "HTTP_CONTENT_TYPE" ∧ key ≠ "HTTP_CONTENT_LENGTH"

/-- A character of a header name, in the env. -/
def envChar (c : Char) : Char := if c.toUpper = '-' then '_' else c.toUpper

/-- `HTTP_` and the name. -/
def httpKey (name : String) : String :=
  .ofList (['H', 'T', 'T', 'P', '_'] ++ name.toList.map envChar)

/-- The key of a header in the env. -/
def envKey (name : String) : String :=
  if name = "content-type" then "CONTENT_TYPE"
  else if name = "content-length" then "CONTENT_LENGTH"
  else httpKey name

namespace RackRequest

variable (req : RackRequest)

/-- The headers, by their keys in the env. -/
def pairs : List (String × String) := req.headers.map fun h => (envKey h.1.text, h.2)

/-- The Rack env of a request. -/
def env : StringMap := req.added ∪ .ofList req.pairs

/-- Its header map. -/
def headerMap : HeaderMap :=
  req.headers.map fun h => (h.1.text, if isVisible h.2 then some h.2 else none)

/-- What the Rack adapter forwards, up to case. -/
def rackSent : List (String × String) :=
  (extractProxyHeaders req.env).toList.map fun h => (lowerName h.1, h.2)

/-- What the axum adapter forwards. -/
def axumSent : List (String × String) := (extractHeaders req.headerMap).toList

/-- The headers that are to be forwarded. -/
def forwardable : List (String × String) :=
  (req.headers.filter fun h => !skippedHeaders.contains h.1.text).map fun h => (h.1.text, h.2)

/-- Both adapters forward these headers, and nothing else. -/
def FiltersAlike : Prop :=
  ∀ p, (p ∈ req.rackSent ↔ p ∈ req.axumSent) ∧ (p ∈ req.axumSent ↔ p ∈ req.forwardable)

/-- A request without the headers the two adapters treat differently. -/
structure Plain : Prop where
  named : ∀ h ∈ req.headers, h.1.text ∉ skippedHeaders → '_' ∉ h.1.text.toList ∧
    h.1.text ≠ "content-type" ∧ h.1.text ≠ "content-length" ∧ isVisible h.2
  noTransferEncoding : ∀ h ∈ req.headers, h.1.text ≠ "transfer-encoding"
  /-- What the server adds is not taken for a header, or stands for one. -/
  added : ∀ key ∈ req.added, isHttpKey key →
    key ∈ ["HTTP_HOST", "HTTP_CONNECTION", "HTTP_UPGRADE"] ∨
      ∃ h ∈ req.headers, envKey h.1.text = key

end RackRequest

/-! ### Names and keys -/

/-- `tr("_", "-")`. -/
def dash (c : Char) : Char := if c = '_' then '-' else c

/-- The name a key is forwarded under, up to case. -/
def sentName (key : String) : String := lowerName (proxyName key)

section

variable {c d : Char}

/-- Only a letter changes its case. -/
theorem casing_eq_iff {f : Char → Char} (hself : ∀ a, a.isAlpha = false → f a = a)
    (halpha : ∀ a, (f a).isAlpha = a.isAlpha) (hd : d.isAlpha = false) : f c = d ↔ c = d := by
  constructor
  · intro h
    have hc : c.isAlpha = false := by rw [← halpha, h, hd]
    rw [← h, hself c hc]
  · rintro rfl
    exact hself c hd

theorem toUpper_eq_iff (hd : d.isAlpha = false) : c.toUpper = d ↔ c = d :=
  casing_eq_iff (fun _ ha => Char.toUpper_eq_of_not_isLower (by simp_all [Char.isAlpha]))
    Char.isAlpha_toUpper_eq_isAlpha hd

theorem toLower_eq_iff (hd : d.isAlpha = false) : c.toLower = d ↔ c = d :=
  casing_eq_iff (fun _ ha => Char.toLower_eq_of_not_isUpper (by simp_all [Char.isAlpha]))
    Char.isAlpha_toLower_eq_isAlpha hd

theorem envChar_eq (c : Char) : envChar c = if c = '-' then '_' else c.toUpper := by
  rw [envChar]
  simp only [toUpper_eq_iff (show ('-' : Char).isAlpha = false from rfl)]

/-- A character of a name, back from the env. -/
theorem toLower_dash_envChar (hc : c.toLower = c) : (dash (envChar c)).toLower = dash c := by
  rw [envChar_eq]
  by_cases hdash : c = '-'
  · subst hdash; rfl
  rw [if_neg hdash, dash, dash]
  by_cases hscore : c = '_'
  · subst hscore; rfl
  rw [if_neg hscore, if_neg (mt (toUpper_eq_iff rfl).mp hscore),
    Char.toLower_toUpper_eq_toLower, hc]

theorem envChar_dash (c : Char) : envChar (dash c) = envChar c := by
  rw [dash]
  split
  · rename_i h; subst h; rfl
  · rfl

/-- A character of a variable, back from the name. -/
theorem envChar_toLower_dash (hc : c.isUpper || c.isDigit || c = '_') :
    envChar (dash c).toLower = c := by
  by_cases hscore : c = '_'
  · subst hscore; rfl
  have hupper : c.toUpper = c := by
    refine Char.toUpper_eq_of_not_isLower fun h => ?_
    simp only [Char.isUpper, Char.isDigit, Char.isLower, Bool.or_eq_true, Bool.and_eq_true,
      decide_eq_true_eq, hscore, or_false, UInt32.le_iff_toNat_le, ge_iff_le] at hc h
    have : 'Z'.val.toNat < 'a'.val.toNat := by decide
    have : '9'.val.toNat < 'a'.val.toNat := by decide
    omega
  have hne : c.toLower ≠ '-' := by
    rw [ne_eq, toLower_eq_iff rfl]
    rintro rfl
    cases hc
  rw [dash, if_neg hscore, envChar_eq, if_neg hne, Char.toUpper_toLower_eq_toUpper, hupper]

end

/-! ### A key and its name -/

theorem toList_httpKey (name : String) :
    (httpKey name).toList = ['H', 'T', 'T', 'P', '_'] ++ name.toList.map envChar :=
  String.toList_ofList

@[simp] theorem isHttpKey_httpKey (name : String) : isHttpKey (httpKey name) := by
  rw [isHttpKey, toList_httpKey]
  rfl

theorem drop_http (l : List Char) : (['H', 'T', 'T', 'P', '_'] ++ l).drop 5 = l := rfl

/-- A key is forwarded under what it says behind `HTTP_`. -/
theorem toList_sentName (key : String) :
    (sentName key).toList = (key.toList.drop 5).map fun c => (dash c).toLower := by
  rw [sentName, lowerName, String.toList_ofList, proxyName, String.toList_ofList, List.map_map]
  rfl

/-- A name goes to the env and comes back with `-` for `_`. -/
theorem sentName_httpKey {name : String} (h : lowerName name = name) :
    sentName (httpKey name) = .ofList (name.toList.map dash) := by
  have hlower : name.toList.map Char.toLower = name.toList.map id := by
    rw [List.map_id]
    simpa [lowerName] using congrArg String.toList h
  refine String.toList_inj.mp ?_
  rw [toList_sentName, toList_httpKey, String.toList_ofList, drop_http, List.map_map]
  exact List.map_congr_left fun c hc => toLower_dash_envChar (List.map_inj_left.mp hlower c hc)

/-- A key with nothing but what the env writes comes from the name it is forwarded under. -/
theorem httpKey_sentName {key : String} (h : isHttpKey key)
    (hkey : ∀ c ∈ key.toList, envChar (dash c).toLower = c) : httpKey (sentName key) = key := by
  obtain ⟨rest, hrest⟩ := List.isPrefixOf_iff_prefix.mp h
  refine String.toList_inj.mp ?_
  rw [toList_httpKey, toList_sentName, ← hrest, drop_http, List.map_map]
  refine congrArg (_ ++ ·) ((List.map_congr_left fun c hc => ?_).trans (List.map_id _))
  exact hkey c (hrest ▸ List.mem_append_right _ hc)

/-- A name without `_` comes back. -/
theorem sentName_httpKey_of_notMem {name : String} (h : lowerName name = name)
    (hscore : '_' ∉ name.toList) : sentName (httpKey name) = name := by
  rw [sentName_httpKey h]
  have hdash : name.toList.map dash = name.toList.map id := by
    refine List.map_congr_left fun c hc => if_neg ?_
    rintro rfl
    exact hscore hc
  rw [hdash, List.map_id, String.ofList_toList]

/-- No key is forwarded under a name with `_`. -/
theorem notMem_sentName (key : String) : '_' ∉ (sentName key).toList := by
  rw [toList_sentName, List.mem_map]
  rintro ⟨c, -, hc⟩
  rw [toLower_eq_iff rfl, dash] at hc
  split at hc
  · cases hc
  · rename_i hne
    exact hne hc

/-! ### The env of a request -/

namespace RackRequest

variable {req : RackRequest} {key value : String}

theorem mem_keys {header : HeaderName × String} (h : header ∈ req.headers) :
    envKey header.1.text ∈ req.pairs.map Prod.fst :=
  List.mem_map.mpr ⟨_, List.mem_map_of_mem h, rfl⟩

/-- An entry of the env is a header's, or was added for no header. -/
theorem mem_env (h : req.env[key]? = some value) :
    (∃ header ∈ req.headers, envKey header.1.text = key ∧ header.2 = value) ∨
      key ∈ req.added ∧ ∀ header ∈ req.headers, envKey header.1.text ≠ key := by
  rw [env, Std.ExtTreeMap.getElem?_union, Collect.getElem?_ofList] at h
  cases hlast : Collect.last req.pairs key with
  | some v =>
      rw [hlast] at h
      cases h
      obtain ⟨header, hmem, hpair⟩ := List.mem_map.mp (Collect.mem_of_last_eq_some hlast)
      obtain ⟨rfl, rfl⟩ := Prod.mk.inj hpair
      exact .inl ⟨header, hmem, rfl, rfl⟩
  | none =>
      rw [hlast, Option.none_or] at h
      refine .inr ⟨Std.ExtTreeMap.mem_iff_isSome_getElem?.mpr (h ▸ rfl), ?_⟩
      rintro header hmem rfl
      obtain ⟨v, hv⟩ := Collect.exists_last_iff.mpr (mem_keys hmem)
      cases hlast.symm.trans hv

/-- What a server adds and the headers are in the env. -/
theorem exists_env (req : RackRequest)
    (h : key ∈ req.added ∨ ∃ header ∈ req.headers, envKey header.1.text = key) :
    ∃ value, req.env[key]? = some value := by
  rw [env, Std.ExtTreeMap.getElem?_union, Collect.getElem?_ofList]
  cases hlast : Collect.last req.pairs key with
  | some v => exact ⟨v, rfl⟩
  | none =>
      rcases h with h | ⟨header, hmem, rfl⟩
      · exact ⟨_, Std.ExtTreeMap.getElem?_eq_some_getElem h⟩
      · obtain ⟨v, hv⟩ := Collect.exists_last_iff.mpr (mem_keys hmem)
        cases hlast.symm.trans hv

/-- The headers behind `HTTP_`. -/
theorem envKey_of_isHttpKey {name : String} (h : isHttpKey (envKey name)) :
    envKey name = httpKey name ∧ name ≠ "content-type" ∧ name ≠ "content-length" := by
  unfold envKey at h ⊢
  by_cases htype : name = "content-type"
  · rw [if_pos htype] at h
    exact absurd h (by decide)
  by_cases hlength : name = "content-length"
  · rw [if_neg htype, if_pos hlength] at h
    exact absurd h (by decide)
  rw [if_neg htype, if_neg hlength]
  exact ⟨rfl, htype, hlength⟩

/-- A key of the env comes from the name it is forwarded under. -/
theorem httpKey_sentName_of_env (h : req.env[key]? = some value) (hkey : isHttpKey key) :
    httpKey (sentName key) = key := by
  rcases mem_env h with ⟨header, -, rfl, -⟩ | ⟨hadded, -⟩
  · rw [(envKey_of_isHttpKey hkey).1, sentName_httpKey header.1.lower]
    refine String.toList_inj.mp ?_
    rw [toList_httpKey, toList_httpKey, String.toList_ofList, List.map_map]
    exact congrArg (_ ++ ·) (List.map_congr_left fun c _ => envChar_dash c)
  · refine httpKey_sentName hkey fun c hc => envChar_toLower_dash ?_
    exact List.all_eq_true.mp (req.legal key hadded hkey).1 c hc

/-- The entries of the env that are forwarded, renamed. -/
def renamed (req : RackRequest) : List (String × String) :=
  ((req.env.toList.filter fun h => isHttpKey h.1).map fun h => (proxyName h.1, h.2)).filter
    fun h => !hopByHop.contains h.1

/-- No two keys are renamed to one name. -/
theorem nodup_renamed (req : RackRequest) : (req.renamed.map Prod.fst).Nodup := by
  refine ((List.filter_sublist (l := _)).map _).nodup ?_
  have hkeys : ((req.env.toList.filter fun h => isHttpKey h.1).map Prod.fst).Nodup :=
    (List.filter_sublist.map _).nodup (Collect.nodup_keys _)
  have hmap := hkeys.map_on (f := proxyName) ?_
  · rwa [List.map_map] at hmap ⊢
  -- what is forwarded under one name has one key
  have hback : ∀ key ∈ (req.env.toList.filter fun h => isHttpKey h.1).map Prod.fst,
      httpKey (sentName key) = key := by
    intro key hkey
    obtain ⟨h, hmem, rfl⟩ := List.mem_map.mp hkey
    obtain ⟨hmem, hhttp⟩ := List.mem_filter.mp hmem
    exact httpKey_sentName_of_env (Std.ExtTreeMap.mem_toList_iff_getElem?_eq_some.mp hmem) hhttp
  intro key hkey key' hkey' heq
  rw [← hback key hkey, ← hback key' hkey', sentName, sentName, heq]

/-- What the Rack adapter forwards of an env. -/
theorem mem_rackSent {p : String × String} : p ∈ req.rackSent ↔
    ∃ key, req.env[key]? = some p.2 ∧ isHttpKey key ∧ proxyName key ∉ hopByHop ∧
      sentName key = p.1 := by
  have hperm : (extractProxyHeaders req.env).toList.Perm req.renamed :=
    Collect.toList_ofList_perm_iff.mpr (nodup_renamed req)
  rw [rackSent, (hperm.map _).mem_iff, renamed]
  simp only [List.mem_map, List.mem_filter, Bool.not_eq_true', List.contains_eq_mem,
    decide_eq_false_iff_not]
  constructor
  · rintro ⟨_, ⟨⟨h, ⟨hmem, hhttp⟩, rfl⟩, hhop⟩, rfl⟩
    exact ⟨h.1, Std.ExtTreeMap.mem_toList_iff_getElem?_eq_some.mp hmem, hhttp, hhop, rfl⟩
  · rintro ⟨key, hget, hhttp, hhop, hname⟩
    have hmem := Std.ExtTreeMap.mem_toList_iff_getElem?_eq_some.mpr hget
    exact ⟨_, ⟨⟨(key, p.2), ⟨hmem, hhttp⟩, rfl⟩, hhop⟩, Prod.ext hname rfl⟩

/-- The texts of the names are distinct. -/
theorem nodup_texts (req : RackRequest) : (req.headers.map fun h => h.1.text).Nodup := by
  have hinj : Function.Injective HeaderName.text := by
    rintro ⟨_, _, _⟩ ⟨_, _, _⟩ rfl
    rfl
  have h := req.distinct.map hinj
  rwa [List.map_map] at h

/-- A name has one header. -/
theorem header_unique {h h' : HeaderName × String} (hmem : h ∈ req.headers)
    (hmem' : h' ∈ req.headers) (htext : h.1.text = h'.1.text) : h = h' :=
  List.inj_on_of_nodup_map (nodup_texts req) hmem hmem' htext

theorem mem_forwardable {p : String × String} : p ∈ req.forwardable ↔
    ∃ h ∈ req.headers, h.1.text ∉ skippedHeaders ∧ (h.1.text, h.2) = p := by
  simp only [forwardable, List.mem_map, List.mem_filter, Bool.not_eq_true', List.contains_eq_mem,
    decide_eq_false_iff_not, and_assoc]

/-- What the axum adapter forwards of a header map. -/
theorem mem_axumSent {p : String × String} : p ∈ req.axumSent ↔
    p ∈ req.forwardable ∧ isVisible p.2 := by
  have hread (l : List (HeaderName × String)) :
      ((l.map fun h => (h.1.text, if isVisible h.2 then some h.2 else none)).filterMap
        fun h => h.2.map fun value => (h.1, value)) =
        (l.map fun h => (h.1.text, h.2)).filter fun p => isVisible p.2 := by
    induction l with
    | nil => rfl
    | cons h l ih => by_cases hv : isVisible h.2 <;> simp [hv, ih]
  have hsent : extractHeaders req.headerMap =
      .ofList (req.forwardable.filter fun p => isVisible p.2) := by
    rw [extractHeaders, headerMap, List.filter_map, hread]
    rfl
  have hnodup : ((req.forwardable.filter fun p => isVisible p.2).map Prod.fst).Nodup := by
    refine (List.filter_sublist.map _).nodup ?_
    rw [forwardable, List.map_map]
    exact (List.filter_sublist.map _).nodup (nodup_texts req)
  rw [axumSent, hsent, (Collect.toList_ofList_perm_iff.mpr hnodup).mem_iff, List.mem_filter]

/-! ### Plain requests -/

/-- What is left out by axum has no `_` in its name. -/
theorem notMem_of_skipped {name : String} (h : name ∈ skippedHeaders) : '_' ∉ name.toList := by
  have hall : ∀ name ∈ skippedHeaders, '_' ∉ name.toList := by decide
  exact hall name h

/-- What the Rack adapter leaves out, the axum adapter does. -/
theorem sentName_of_hopByHop (h : proxyName key ∈ hopByHop) : sentName key ∈ skippedHeaders := by
  have hall : ∀ name ∈ hopByHop, lowerName name ∈ skippedHeaders := by decide +kernel
  exact hall _ h

/-- The other way, but for `transfer-encoding`. -/
theorem hopByHop_of_skipped {name : String} (h : name ∈ skippedHeaders)
    (hne : name ≠ "transfer-encoding") : proxyName (envKey name) ∈ hopByHop := by
  have hall : ∀ name ∈ skippedHeaders, name ≠ "transfer-encoding" →
    proxyName (envKey name) ∈ hopByHop := by decide +kernel
  exact hall name h hne

section

variable {header : HeaderName × String}

/-- A header that comes back under a name comes back under its own. -/
theorem Plain.sentName_envKey (h : req.Plain) (hmem : header ∈ req.headers)
    (hkey : isHttpKey (envKey header.1.text)) :
    sentName (envKey header.1.text) = header.1.text := by
  rw [(envKey_of_isHttpKey hkey).1]
  refine sentName_httpKey_of_notMem header.1.lower ?_
  by_cases hskip : header.1.text ∈ skippedHeaders
  · exact notMem_of_skipped hskip
  · exact (h.named header hmem hskip).1

theorem Plain.mem_rackSent_iff (h : req.Plain) {p : String × String} :
    p ∈ req.rackSent ↔ p ∈ req.forwardable := by
  rw [mem_rackSent, mem_forwardable]
  constructor
  · rintro ⟨key, hget, hhttp, hhop, hname⟩
    rcases mem_env hget with ⟨header, hmem, rfl, hvalue⟩ | ⟨hadded, hnone⟩
    · rw [h.sentName_envKey hmem hhttp] at hname
      refine ⟨header, hmem, fun hskip => hhop ?_, Prod.ext hname hvalue⟩
      exact hopByHop_of_skipped hskip (h.noTransferEncoding header hmem)
    · rcases h.added key hadded hhttp with hheld | ⟨header, hmem, hkey⟩
      · have hall : ∀ key ∈ ["HTTP_HOST", "HTTP_CONNECTION", "HTTP_UPGRADE"],
          proxyName key ∈ hopByHop := by decide +kernel
        exact absurd (hall key hheld) hhop
      · exact absurd hkey (hnone header hmem)
  · rintro ⟨header, hmem, hskip, rfl⟩
    obtain ⟨-, htype, hlength, -⟩ := h.named header hmem hskip
    have hhttp : isHttpKey (envKey header.1.text) := by
      rw [envKey, if_neg htype, if_neg hlength]
      exact isHttpKey_httpKey _
    have hname := h.sentName_envKey hmem hhttp
    obtain ⟨value, hget⟩ := exists_env req (.inr ⟨header, hmem, rfl⟩)
    rcases mem_env hget with ⟨header', hmem', hkey, rfl⟩ | ⟨-, hnone⟩
    · -- the key has one header
      have htext := h.sentName_envKey hmem' (hkey ▸ hhttp)
      rw [hkey, hname] at htext
      cases header_unique hmem hmem' htext
      exact ⟨_, hget, hhttp, fun hhop => hskip (hname ▸ sentName_of_hopByHop hhop), hname⟩
    · exact absurd rfl (hnone header hmem)

/-- The headers forwarded of a plain request. -/
theorem Plain.filtersAlike (h : req.Plain) : req.FiltersAlike := by
  intro p
  have haxum : p ∈ req.axumSent ↔ p ∈ req.forwardable := by
    rw [mem_axumSent, and_iff_left_iff_imp, mem_forwardable]
    rintro ⟨header, hmem, hskip, rfl⟩
    exact (h.named header hmem hskip).2.2.2
  exact ⟨h.mem_rackSent_iff.trans haxum.symm, haxum⟩

/-! ### Requests that are filtered alike -/

/-- What the Rack adapter forwards is to be forwarded. -/
theorem FiltersAlike.of_rack (h : req.FiltersAlike) (hget : req.env[key]? = some value)
    (hhttp : isHttpKey key) (hhop : proxyName key ∉ hopByHop) :
    ∃ header ∈ req.headers, header.1.text ∉ skippedHeaders ∧ header.1.text = sentName key := by
  have hsent : (sentName key, value) ∈ req.rackSent := mem_rackSent.mpr ⟨_, hget, hhttp, hhop, rfl⟩
  have hforward := (h _).2.mp ((h _).1.mp hsent)
  obtain ⟨header, hmem, hskip, heq⟩ := mem_forwardable.mp hforward
  exact ⟨header, hmem, hskip, (Prod.mk.inj heq).1⟩

/-- What is to be forwarded comes back from a key of the env. -/
theorem FiltersAlike.exists_key (h : req.FiltersAlike) (hmem : header ∈ req.headers)
    (hskip : header.1.text ∉ skippedHeaders) :
    isVisible header.2 ∧ ∃ key value, req.env[key]? = some value ∧ isHttpKey key ∧
      sentName key = header.1.text := by
  have hforward : (header.1.text, header.2) ∈ req.forwardable :=
    mem_forwardable.mpr ⟨header, hmem, hskip, rfl⟩
  have haxum := (h _).2.mpr hforward
  obtain ⟨key, hget, hhttp, -, hname⟩ := mem_rackSent.mp ((h _).1.mpr haxum)
  exact ⟨(mem_axumSent.mp haxum).2, key, _, hget, hhttp, hname⟩

/-- No name has a `_`. -/
theorem FiltersAlike.notMem (h : req.FiltersAlike) (hmem : header ∈ req.headers) :
    '_' ∉ header.1.text.toList := by
  by_cases hskip : header.1.text ∈ skippedHeaders
  · exact notMem_of_skipped hskip
  · obtain ⟨-, key, _, -, -, hname⟩ := h.exists_key hmem hskip
    exact hname ▸ notMem_sentName key

/-- The two headers the env has without `HTTP_` are not among those to be forwarded. -/
theorem FiltersAlike.ne_of_held (h : req.FiltersAlike) (hmem : header ∈ req.headers)
    (hskip : header.1.text ∉ skippedHeaders) :
    header.1.text ≠ "content-type" ∧ header.1.text ≠ "content-length" := by
  obtain ⟨-, key, _, hget, hhttp, hname⟩ := h.exists_key hmem hskip
  have hkey := httpKey_sentName_of_env hget hhttp
  rw [hname] at hkey
  rcases mem_env hget with ⟨header', hmem', rfl, -⟩ | ⟨hadded, -⟩
  · obtain ⟨henv, hne⟩ := envKey_of_isHttpKey hhttp
    rw [henv, sentName_httpKey_of_notMem header'.1.lower (h.notMem hmem')] at hname
    exact hname ▸ hne
  · obtain ⟨-, htype, hlength⟩ := req.legal key hadded hhttp
    constructor <;> intro heq <;> rw [heq] at hkey
    · exact htype (hkey ▸ by decide)
    · exact hlength (hkey ▸ by decide)

theorem FiltersAlike.plain (h : req.FiltersAlike) : req.Plain := by
  constructor
  case named =>
    intro header hmem hskip
    obtain ⟨htype, hlength⟩ := h.ne_of_held hmem hskip
    exact ⟨h.notMem hmem, htype, hlength, (h.exists_key hmem hskip).1⟩
  case noTransferEncoding =>
    intro header hmem htext
    obtain ⟨value, hget⟩ := exists_env req (.inr ⟨header, hmem, rfl⟩)
    rw [htext] at hget
    obtain ⟨header', -, hskip, hname⟩ := h.of_rack hget (by decide +kernel) (by decide +kernel)
    exact hskip (hname ▸ by decide +kernel)
  case added =>
    intro key hadded hhttp
    obtain ⟨value, hget⟩ := exists_env req (.inl hadded)
    have hkey := httpKey_sentName_of_env hget hhttp
    by_cases hhop : proxyName key ∈ hopByHop
    · have hall : ∀ name ∈ hopByHop,
        httpKey (lowerName name) ∈ ["HTTP_HOST", "HTTP_CONNECTION", "HTTP_UPGRADE"] := by
        decide +kernel
      exact .inl (hkey ▸ hall _ hhop)
    · obtain ⟨header, hmem, hskip, hname⟩ := h.of_rack hget hhttp hhop
      obtain ⟨htype, hlength⟩ := h.ne_of_held hmem hskip
      refine .inr ⟨header, hmem, ?_⟩
      rw [envKey, if_neg htype, if_neg hlength, hname, hkey]

end

/-- **Both adapters forward the headers that are to be forwarded exactly for plain requests.** -/
theorem filters_alike_iff (req : RackRequest) : req.FiltersAlike ↔ req.Plain :=
  ⟨FiltersAlike.plain, Plain.filtersAlike⟩

end RackRequest

/-- A JSON upload in chunks, at a server that adds `HTTP_VERSION`. -/
def chunkedUpload : RackRequest where
  headers :=
    [(⟨"content-type", by decide, by decide⟩, "application/json"),
      (⟨"transfer-encoding", by decide, by decide⟩, "chunked")]
  distinct := by decide
  added := (∅ : StringMap).insert "HTTP_VERSION" "HTTP/1.1"
  legal := by
    intro key h _
    have hkey : compare "HTTP_VERSION" key = .eq := by simpa using h
    rw [← Std.LawfulEqCmp.eq_of_compare hkey]
    decide

/-- The Rack adapter drops the type, and forwards what the axum adapter leaves out and what the
server added. -/
theorem chunkedUpload_filtered :
    chunkedUpload.axumSent = [("content-type", "application/json")] ∧
      chunkedUpload.rackSent = [("transfer-encoding", "chunked"), ("version", "HTTP/1.1")] ∧
      ¬ chunkedUpload.FiltersAlike := by
  have haxum : chunkedUpload.axumSent = [("content-type", "application/json")] := by
    decide +kernel
  have hrack : chunkedUpload.rackSent =
      [("transfer-encoding", "chunked"), ("version", "HTTP/1.1")] := by
    decide +kernel
  refine ⟨haxum, hrack, fun h => ?_⟩
  have hmem := (h ("content-type", "application/json")).1
  rw [haxum, hrack] at hmem
  exact absurd hmem (by decide)

end Outpunch
