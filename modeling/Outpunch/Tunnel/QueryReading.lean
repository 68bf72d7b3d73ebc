import Outpunch.Axum.Handler
import Outpunch.Library.Collect
import Outpunch.Library.UrlStandard
import Outpunch.Node.Handler

/-!
# Tunnel — one query, read by two adapters

The axum adapter takes the pieces of a query with a `=` as they are written; the Node adapter takes
all pieces that are not empty, form-decoded, but for the key an object cannot be given.  Both keep
the last value of each key.  `ReadsAlike` says of the pieces when the two maps are one
(`parseQuery_eq_nodeQuery_iff`); where every piece has a `=`, it is that the keys, and the last
value of each, have nothing to decode (`readsAlike_iff_plain`).
-/

namespace Outpunch

open Url (Plain searchParams splitOnce formDecode formPair)
open Utf8 (replacement)

/-- The pieces of a query with a `=`, as they are written. -/
def writtenPairs (q : List Char) : List (List Char × List Char) :=
  (q.splitOn '&').filterMap (splitOnce '=')

/-- The name of the property an object cannot be given by assigning to it. -/
def protoKey : List Char := "__proto__".toList

/-- The pieces of a query that are not empty. -/
def queryPieces (q : List Char) : List (List Char) :=
  (q.splitOn '&').filter fun piece => !piece.isEmpty

/-- The pair the Node adapter assigns for a piece. -/
def assignedPair (piece : List Char) : Option (List Char × List Char) :=
  if (formPair piece).1 = protoKey then none else some (formPair piece)

/-- The pieces of a query read alike, as they are written and form-decoded. -/
structure ReadsAlike (q : List Char) : Prop where
  /-- A key that is written before a `=` is the decoded key of a piece. -/
  decoded : ∀ p ∈ writtenPairs q, p.1 ≠ protoKey ∧ ∃ piece ∈ queryPieces q, (formPair piece).1 = p.1
  /-- The decoded key of a piece is written before a `=`. -/
  written : ∀ piece ∈ queryPieces q, (formPair piece).1 ≠ protoKey →
    ∃ p ∈ writtenPairs q, p.1 = (formPair piece).1
  /-- A value that is not empty, and the last one written of its key, has nothing to decode, nor
  has its key; and no later piece has that key decoded. -/
  plain : ∀ pre piece post k v, queryPieces q = pre ++ piece :: post →
    splitOnce '=' piece = some (k, v) → v ≠ [] →
    (∀ later ∈ post, ∀ p, splitOnce '=' later = some p → p.1 ≠ k) →
    Plain k ∧ Plain v ∧ ∀ later ∈ post, (formPair later).1 ≠ k

/-- Every key stands for the same value, as the query is written and form-decoded: its last. -/
def SameQuery (q : List Char) : Prop :=
  ∀ k, Collect.last (writtenPairs q) k =
    Collect.last ((searchParams q).filter fun p => p.1 ≠ protoKey) k

/-- The two maps are one exactly when each key has one value in both. -/
theorem parseQuery_eq_nodeQuery_iff_sameQuery {q : List Char} :
    parseQuery (some (.ofList q)) = nodeQuery ((searchParams q).map stringPair) ↔ SameQuery q := by
  have hinj : Function.Injective String.ofList := fun _ _ => String.ofList_injective
  have hlast : ∀ (l : List (List Char × List Char)) (k : String),
      Collect.last (l.map stringPair) k = (Collect.last l k.toList).map String.ofList := by
    intro l k
    have h := Collect.last_map hinj String.ofList l k.toList
    rw [String.ofList_toList] at h
    exact h
  have hfilter : ((searchParams q).map stringPair).filter (fun p => p.1 ≠ "__proto__") =
      ((searchParams q).filter fun p => p.1 ≠ protoKey).map stringPair := by
    have hkey : ∀ p : List Char × List Char, (stringPair p).1 = "__proto__" ↔ p.1 = protoKey := by
      intro p
      have hproto : "__proto__" = String.ofList protoKey := String.ofList_toList.symm
      rw [hproto, stringPair]
      exact String.ofList_inj
    rw [List.filter_map]
    have hcongr : (searchParams q).filter (fun p => (stringPair p).1 ≠ "__proto__") =
        (searchParams q).filter fun p => p.1 ≠ protoKey :=
      List.filter_congr fun p _ => decide_eq_decide.mpr (not_congr (hkey p))
    exact congrArg (List.map stringPair) hcongr
  rw [parseQuery, nodeQuery, hfilter, Collect.ofList_eq_iff, queryPairs, String.toList_ofList]
  constructor
  · intro h k
    have h := h (String.ofList k)
    rw [hlast, hlast, String.toList_ofList] at h
    exact Option.map_injective hinj h
  · intro h k
    have h := h k.toList
    rw [writtenPairs] at h
    rw [hlast, hlast, h]

/-- There is nothing to decode in the keys of the query, nor in the last value of each. -/
def PlainQuery (q : List Char) : Prop :=
  (∀ p ∈ writtenPairs q, Plain p.1 ∧ p.1 ≠ protoKey) ∧
    ∀ k v, Collect.last (writtenPairs q) k = some v → Plain v

theorem subset_of_mem_writtenPairs {q : List Char} {p : List Char × List Char}
    (h : p ∈ writtenPairs q) : p.1 ⊆ q ∧ p.2 ⊆ q := by
  obtain ⟨piece, hpiece, hp⟩ := List.mem_filterMap.mp h
  have hsub := Url.subset_of_mem_splitOn hpiece
  obtain ⟨-, rfl⟩ := Url.splitOnce_eq_some.mp hp
  exact ⟨fun c hc => hsub (List.mem_append_left _ hc),
    fun c hc => hsub (List.mem_append_right _ (List.mem_cons_of_mem _ hc))⟩

/-- Where every piece has a `=`, the pairs are the same but for the decoding. -/
theorem searchParams_eq {q : List Char}
    (h : ∀ piece ∈ q.splitOn '&', piece ≠ [] → '=' ∈ piece) :
    searchParams q = (writtenPairs q).map (Prod.map Url.formDecode Url.formDecode) := by
  rw [searchParams, writtenPairs]
  generalize q.splitOn '&' = pieces at h
  induction pieces with
  | nil => rfl
  | cons piece pieces ih =>
      obtain ⟨hpiece, h⟩ := List.forall_mem_cons.mp h
      have ih := ih h
      cases hsplit : splitOnce '=' piece with
      | none =>
          have hnil : piece = [] := by
            by_contra hne
            exact Url.splitOnce_eq_none.mp hsplit (hpiece hne)
          rw [List.filterMap_cons_none hsplit, List.filter_cons_of_neg (by simp [hnil])]
          exact ih
      | some p =>
          have hne : piece ≠ [] := by
            intro hnil
            rw [hnil] at hsplit
            cases hsplit
          rw [List.filterMap_cons_some hsplit, List.filter_cons_of_pos (by simpa using hne),
            List.map_cons, List.map_cons, ih, Url.formPair, hsplit]
          rfl

/-- Decoding moves no key when the keys are the same decoded. -/
theorem plain_key_of_sameQuery {q : List Char} (hrep : replacement ∉ q)
    (hvalues : ∀ piece ∈ q.splitOn '&', piece ≠ [] → '=' ∈ piece) (h : SameQuery q) :
    ∀ p ∈ writtenPairs q, Plain p.1 ∧ p.1 ≠ protoKey := by
  have hkeys : ∀ k ∈ (writtenPairs q).map Prod.fst, replacement ∉ k := by
    intro k hk
    obtain ⟨p, hp, rfl⟩ := List.mem_map.mp hk
    exact fun hc => hrep ((subset_of_mem_writtenPairs hp).1 hc)
  -- A key has a value in the decoded query as well, so it is the name of one.
  have hname : ∀ k ∈ (writtenPairs q).map Prod.fst,
      k ≠ protoKey ∧ ∃ k' ∈ (writtenPairs q).map Prod.fst, Url.formDecode k' = k := by
    intro k hk
    obtain ⟨v, hv⟩ := Collect.exists_last_iff.mpr hk
    rw [h k] at hv
    obtain ⟨hmem, hne⟩ := List.mem_filter.mp (Collect.mem_of_last_eq_some hv)
    rw [searchParams_eq hvalues] at hmem
    obtain ⟨p, hp, heq⟩ := List.mem_map.mp hmem
    exact ⟨of_decide_eq_true hne, p.1, List.mem_map_of_mem hp, congrArg Prod.fst heq⟩
  have hself : ∀ k ∈ ((writtenPairs q).map Prod.fst).toFinset, Url.formDecode k = k := by
    refine Collect.eq_self_of_surjOn (m := Url.formSize) ?_ ?_
    · intro k hk
      obtain ⟨-, k', hk', heq⟩ := hname k (List.mem_toFinset.mp hk)
      exact ⟨k', List.mem_toFinset.mpr hk', heq⟩
    · intro k hk hdecoded hmoved
      refine Url.formSize_formDecode_lt (hkeys _ (List.mem_toFinset.mp hdecoded)) fun hplain => ?_
      exact hmoved (Url.formDecode_eq_self hplain)
  intro p hp
  have hk := List.mem_map_of_mem (f := Prod.fst) hp
  exact ⟨(Url.formDecode_eq_self_iff (hkeys _ hk)).mp (hself _ (List.mem_toFinset.mpr hk)),
    (hname _ hk).1⟩

/-- Of plain keys, the decoded query has the last values decoded. -/
theorem last_decoded {q : List Char}
    (hvalues : ∀ piece ∈ q.splitOn '&', piece ≠ [] → '=' ∈ piece)
    (hplain : ∀ p ∈ writtenPairs q, Plain p.1 ∧ p.1 ≠ protoKey) (k : List Char) :
    Collect.last ((searchParams q).filter fun p => p.1 ≠ protoKey) k =
      (Collect.last (writtenPairs q) k).map Url.formDecode := by
  have hmap : searchParams q = (writtenPairs q).map (Prod.map id Url.formDecode) := by
    rw [searchParams_eq hvalues]
    refine List.map_congr_left fun p hp => Prod.ext ?_ rfl
    exact Url.formDecode_eq_self (hplain p hp).1
  have hfilter : (searchParams q).filter (fun p => p.1 ≠ protoKey) = searchParams q := by
    refine List.filter_eq_self.mpr fun p hp => ?_
    rw [hmap] at hp
    obtain ⟨p', hp', rfl⟩ := List.mem_map.mp hp
    exact decide_eq_true (hplain p' hp').2
  rw [hfilter, hmap]
  exact Collect.last_map Function.injective_id Url.formDecode _ k

/-- **A query in which every piece has a `=` reads the same decoded exactly when it is plain.** -/
theorem sameQuery_iff_plain {q : List Char} (hrep : replacement ∉ q)
    (hvalues : ∀ piece ∈ q.splitOn '&', piece ≠ [] → '=' ∈ piece) :
    SameQuery q ↔ PlainQuery q := by
  constructor
  · intro h
    have hplain := plain_key_of_sameQuery hrep hvalues h
    refine ⟨hplain, fun k v hv => ?_⟩
    have hk := h k
    rw [last_decoded hvalues hplain, hv, Option.map_some] at hk
    have hv := Collect.mem_of_last_eq_some hv
    exact (Url.formDecode_eq_self_iff fun hc => hrep ((subset_of_mem_writtenPairs hv).2 hc)).mp
      (Option.some.inj hk).symm
  · rintro ⟨hplain, hlast⟩ k
    rw [last_decoded hvalues hplain]
    cases hv : Collect.last (writtenPairs q) k with
    | none => rfl
    | some v => rw [Option.map_some, Url.formDecode_eq_self (hlast k v hv)]


/-! ### Pieces -/

theorem writtenPairs_eq (q : List Char) :
    writtenPairs q = (queryPieces q).filterMap (splitOnce '=') := by
  rw [writtenPairs, queryPieces]
  induction q.splitOn '&' with
  | nil => rfl
  | cons piece pieces ih =>
      cases piece with
      | nil => rw [List.filterMap_cons_none rfl, List.filter_cons_of_neg (by simp), ih]
      | cons c piece =>
          rw [List.filter_cons_of_pos (by simp), List.filterMap_cons, List.filterMap_cons, ih]

theorem assigned_eq (q : List Char) :
    (searchParams q).filter (fun p => p.1 ≠ protoKey) =
      (queryPieces q).filterMap assignedPair := by
  rw [searchParams, ← queryPieces]
  induction queryPieces q with
  | nil => rfl
  | cons piece pieces ih =>
      rw [List.map_cons]
      by_cases h : (formPair piece).1 = protoKey
      · have hnone : assignedPair piece = none := if_pos h
        rw [List.filter_cons_of_neg (by simp [h]), List.filterMap_cons_none hnone, ih]
      · have hsome : assignedPair piece = some (formPair piece) := if_neg h
        rw [List.filter_cons_of_pos (by simp [h]), List.filterMap_cons_some hsome, ih]

theorem assignedPair_eq_some {piece : List Char} {p : List Char × List Char} :
    assignedPair piece = some p ↔ formPair piece = p ∧ p.1 ≠ protoKey := by
  rw [assignedPair]
  split
  · rename_i h
    refine ⟨fun h => (by cases h), ?_⟩
    rintro ⟨rfl, hne⟩
    exact absurd h hne
  · rename_i h
    rw [Option.some.injEq]
    exact ⟨fun e => ⟨e, e ▸ h⟩, And.left⟩

/-- The pair of a piece with a `=` is the written one, decoded. -/
theorem formPair_of_splitOnce {piece k v : List Char} (h : splitOnce '=' piece = some (k, v)) :
    formPair piece = (formDecode k, formDecode v) := by
  rw [formPair, h]

/-- The piece whose value the axum adapter keeps of a key. -/
def LastWritten (q k v : List Char) (pre : List (List Char)) (piece : List Char)
    (post : List (List Char)) : Prop :=
  queryPieces q = pre ++ piece :: post ∧ splitOnce '=' piece = some (k, v) ∧
    ∀ later ∈ post, ∀ p, splitOnce '=' later = some p → p.1 ≠ k

/-- The piece whose value the Node adapter keeps of a key. -/
def LastAssigned (q k v : List Char) (pre : List (List Char)) (piece : List Char)
    (post : List (List Char)) : Prop :=
  queryPieces q = pre ++ piece :: post ∧ formPair piece = (k, v) ∧
    ∀ later ∈ post, (formPair later).1 ≠ k

section

variable {q k v : List Char}

theorem last_written_iff : Collect.last (writtenPairs q) k = some v ↔
    ∃ pre piece post, LastWritten q k v pre piece post := by
  rw [writtenPairs_eq]
  exact Collect.last_filterMap_eq_some

theorem last_assigned_iff :
    Collect.last ((searchParams q).filter fun p => p.1 ≠ protoKey) k = some v ↔
      k ≠ protoKey ∧ ∃ pre piece post, LastAssigned q k v pre piece post := by
  rw [assigned_eq, Collect.last_filterMap_eq_some]
  constructor
  · rintro ⟨pre, piece, post, hsplit, hpiece, hpost⟩
    obtain ⟨hpair, hne⟩ := assignedPair_eq_some.mp hpiece
    refine ⟨hne, pre, piece, post, hsplit, hpair, fun later hlater he => ?_⟩
    exact hpost later hlater _ (assignedPair_eq_some.mpr ⟨rfl, he ▸ hne⟩) he
  · rintro ⟨hne, pre, piece, post, hsplit, hpair, hpost⟩
    refine ⟨pre, piece, post, hsplit, assignedPair_eq_some.mpr ⟨hpair, hne⟩, ?_⟩
    intro later hlater p hp
    obtain ⟨rfl, -⟩ := assignedPair_eq_some.mp hp
    exact hpost later hlater

/-- Of two pieces of a list, one is the other, or after it. -/
theorem split_cases {α : Type} {l pre post pre' post' : List α} {a b : α}
    (h : l = pre ++ a :: post) (h' : l = pre' ++ b :: post') :
    (a = b ∧ post = post') ∨ b ∈ post ∨ a ∈ post' := by
  rw [h] at h'
  rcases List.append_eq_append_iff.mp h' with ⟨m, -, hm⟩ | ⟨m, -, hm⟩
  · cases m with
    | nil =>
        cases hm
        exact .inl ⟨rfl, rfl⟩
    | cons c m =>
        obtain ⟨-, rfl⟩ := List.cons.inj hm
        exact .inr (.inl (by simp))
  · cases m with
    | nil =>
        cases hm
        exact .inl ⟨rfl, rfl⟩
    | cons c m =>
        obtain ⟨-, rfl⟩ := List.cons.inj hm
        exact .inr (.inr (by simp))

/-- A piece with a `=` that the Node adapter keeps is the last one written of its key. -/
theorem LastAssigned.written {p : List Char × List Char} {pre : List (List Char)}
    {piece : List Char} {post : List (List Char)} (h : LastAssigned q k v pre piece post)
    (hsplit : splitOnce '=' piece = some p) :
    LastWritten q p.1 p.2 pre piece post ∧ formDecode p.1 = k ∧ formDecode p.2 = v := by
  obtain ⟨hpieces, hpair, hpost⟩ := h
  rw [formPair_of_splitOnce hsplit] at hpair
  cases hpair
  refine ⟨⟨hpieces, hsplit, fun later hlater p hp he => hpost later hlater ?_⟩, rfl, rfl⟩
  rw [formPair_of_splitOnce hp, he]

/-- The value of a piece without `=` is empty. -/
theorem LastAssigned.value_eq_nil {pre : List (List Char)} {piece : List Char}
    {post : List (List Char)} (h : LastAssigned q k v pre piece post)
    (hsplit : splitOnce '=' piece = none) : v = [] := by
  have hpair := h.2.1
  rw [formPair, hsplit] at hpair
  cases hpair
  rfl

end

/-! ### Where a query reads alike -/

section

variable {q : List Char}

theorem mem_writtenPairs_of_last {k v : List Char} {pre : List (List Char)} {piece : List Char}
    {post : List (List Char)} (h : LastWritten q k v pre piece post) : (k, v) ∈ writtenPairs q :=
  Collect.mem_of_last_eq_some (last_written_iff.mpr ⟨pre, piece, post, h⟩)

/-- **A key that decodes to another has no value**, where both adapters make one map: a piece that
assigns it its value is without `=`, or has a longer key that has none. -/
theorem SameQuery.value_eq_nil (h : SameQuery q) (hrep : replacement ∉ q) {k v : List Char}
    (hk : ¬ Plain k) (hlast : Collect.last (writtenPairs q) k = some v) : v = [] := by
  by_contra hv
  -- The longest such key that has a value would have got it from a longer one.
  let keys := ((writtenPairs q).map Prod.fst).toFinset.filter fun k =>
    ¬ Plain k ∧ Collect.last (writtenPairs q) k ≠ some []
  have hmem : ∀ k v, ¬ Plain k → Collect.last (writtenPairs q) k = some v → v ≠ [] →
      k ∈ keys := by
    intro k v hk hlast hv
    refine Finset.mem_filter.mpr ⟨List.mem_toFinset.mpr ?_, hk, by rw [hlast]; simpa using hv⟩
    exact Collect.exists_last_iff.mp ⟨v, hlast⟩
  obtain ⟨k₀, hk₀, hmax⟩ := keys.exists_max_image Url.formSize ⟨k, hmem k v hk hlast hv⟩
  obtain ⟨hkey, hplain, hne⟩ := Finset.mem_filter.mp hk₀
  obtain ⟨v₀, hlast₀⟩ := Collect.exists_last_iff.mpr (List.mem_toFinset.mp hkey)
  have hv₀ : v₀ ≠ [] := by
    rintro rfl
    exact hne hlast₀
  have hassigned := hlast₀
  rw [h k₀] at hassigned
  obtain ⟨-, pre, piece, post, hpiece⟩ := last_assigned_iff.mp hassigned
  cases hsplit : splitOnce '=' piece with
  | none => exact hv₀ (hpiece.value_eq_nil hsplit)
  | some p =>
      obtain ⟨hwritten, hkeq, hveq⟩ := hpiece.written hsplit
      have hplain' : ¬ Plain p.1 := fun hp => hplain (by
        rw [← hkeq, Url.formDecode_eq_self hp]
        exact hp)
      have hrep' : replacement ∉ formDecode p.1 := by
        obtain ⟨p₀, hp₀, heq⟩ := List.mem_map.mp (List.mem_toFinset.mp hkey)
        rw [hkeq, ← heq]
        exact fun hc => hrep ((subset_of_mem_writtenPairs hp₀).1 hc)
      have hlt := Url.formSize_formDecode_lt hrep' hplain'
      have hle := hmax p.1 (hmem p.1 p.2 hplain'
        (last_written_iff.mpr ⟨pre, piece, post, hwritten⟩) (by
          rintro hnil
          rw [hnil] at hveq
          exact hv₀ hveq.symm))
      rw [hkeq] at hlt
      exact absurd hle (Nat.not_le.mpr hlt)

theorem SameQuery.readsAlike (h : SameQuery q) (hrep : replacement ∉ q) : ReadsAlike q where
  decoded p hp := by
    obtain ⟨v, hv⟩ := Collect.exists_last_iff.mpr (List.mem_map_of_mem (f := Prod.fst) hp)
    rw [h p.1] at hv
    obtain ⟨hne, pre, piece, post, hpieces, hpair, -⟩ := last_assigned_iff.mp hv
    exact ⟨hne, piece, by rw [hpieces]; simp, by rw [hpair]⟩
  written piece hpiece hne := by
    obtain ⟨v, hv⟩ : ∃ v, Collect.last ((searchParams q).filter fun p => p.1 ≠ protoKey)
        (formPair piece).1 = some v := by
      refine Collect.exists_last_iff.mpr (List.mem_map_of_mem (List.mem_filter.mpr ⟨?_, ?_⟩))
      · exact List.mem_map_of_mem hpiece
      · exact decide_eq_true hne
    rw [← h] at hv
    exact ⟨_, Collect.mem_of_last_eq_some hv, rfl⟩
  plain pre piece post k v hpieces hsplit hv hlater := by
    have hwritten : LastWritten q k v pre piece post := ⟨hpieces, hsplit, hlater⟩
    have hlast := last_written_iff.mpr ⟨pre, piece, post, hwritten⟩
    have hk : Plain k := by_contra fun hk => hv (h.value_eq_nil hrep hk hlast)
    have hassigned := hlast
    rw [h k] at hassigned
    obtain ⟨-, pre', piece', post', hpiece'⟩ := last_assigned_iff.mp hassigned
    have hplace : piece = piece' ∧ post = post' := by
      rcases split_cases hpieces hpiece'.1 with heq | hmem | hmem
      · exact heq
      · -- It is written with another key that decodes to `k`, and so has no value.
        exfalso
        cases hsplit' : splitOnce '=' piece' with
        | none => exact hv (hpiece'.value_eq_nil hsplit')
        | some p =>
            obtain ⟨hwritten', hkeq, hveq⟩ := hpiece'.written hsplit'
            have hlast' := last_written_iff.mpr ⟨_, _, _, hwritten'⟩
            by_cases hp : Plain p.1
            · rw [Url.formDecode_eq_self hp] at hkeq
              exact hlater piece' hmem p hsplit' hkeq
            · rw [h.value_eq_nil hrep hp hlast'] at hveq
              exact hv hveq.symm
      · refine absurd ?_ (hpiece'.2.2 piece hmem)
        rw [formPair_of_splitOnce hsplit]
        exact Url.formDecode_eq_self hk
    obtain ⟨rfl, rfl⟩ := hplace
    obtain ⟨-, -, hveq⟩ := hpiece'.written hsplit
    refine ⟨hk, (Url.formDecode_eq_self_iff fun hc => hrep ?_).mp hveq, hpiece'.2.2⟩
    exact (subset_of_mem_writtenPairs (mem_writtenPairs_of_last hwritten)).2 hc

theorem ReadsAlike.sameQuery (h : ReadsAlike q) : SameQuery q := by
  intro k
  cases hlast : Collect.last (writtenPairs q) k with
  | none =>
      refine (Option.eq_none_iff_forall_ne_some.mpr fun v hv => ?_).symm
      obtain ⟨hne, pre, piece, post, hpieces, hpair, -⟩ := last_assigned_iff.mp hv
      have hkey : (formPair piece).1 = k := by rw [hpair]
      obtain ⟨p, hp, hpk⟩ := h.written piece (by rw [hpieces]; simp) (hkey ▸ hne)
      obtain ⟨v', hv'⟩ := Collect.exists_last_iff.mpr (List.mem_map_of_mem (f := Prod.fst) hp)
      rw [hpk, hkey, hlast] at hv'
      cases hv'
  | some v =>
      obtain ⟨pre, piece, post, hpieces, hsplit, hlater⟩ := last_written_iff.mp hlast
      have hmem := Collect.mem_of_last_eq_some hlast
      obtain ⟨hne, x, hx, hxk⟩ := h.decoded _ hmem
      by_cases hv : v = []
      · subst hv
        obtain ⟨u, hu⟩ : ∃ u, Collect.last ((searchParams q).filter fun p => p.1 ≠ protoKey) k =
            some u := by
          refine Collect.exists_last_iff.mpr (List.mem_map.mpr ⟨formPair x, ?_, hxk⟩)
          refine List.mem_filter.mpr ⟨List.mem_map_of_mem hx, decide_eq_true ?_⟩
          rw [hxk]
          exact hne
        rw [hu]
        obtain ⟨-, pre', piece', post', hpiece'⟩ := last_assigned_iff.mp hu
        cases hsplit' : splitOnce '=' piece' with
        | none => rw [hpiece'.value_eq_nil hsplit']
        | some p =>
            obtain ⟨hwritten', hkeq, hveq⟩ := hpiece'.written hsplit'
            by_cases hp : p.2 = []
            · rw [← hveq, hp]
              rfl
            · exfalso
              obtain ⟨hplain, -, -⟩ := h.plain _ _ _ _ _ hwritten'.1 hsplit' hp hwritten'.2.2
              rw [Url.formDecode_eq_self hplain] at hkeq
              have hlast' := last_written_iff.mpr ⟨_, _, _, hwritten'⟩
              rw [hkeq, hlast] at hlast'
              exact hp (Option.some.inj hlast').symm
      · obtain ⟨hk, hplain, hpost⟩ := h.plain _ _ _ _ _ hpieces hsplit hv hlater
        refine (last_assigned_iff.mpr ⟨hne, pre, piece, post, hpieces, ?_, hpost⟩).symm
        rw [formPair_of_splitOnce hsplit, Url.formDecode_eq_self hk,
          Url.formDecode_eq_self hplain]

/-- **Both adapters make one map of a query exactly when its pieces read alike.** -/
theorem parseQuery_eq_nodeQuery_iff (hrep : replacement ∉ q) :
    parseQuery (some (.ofList q)) = nodeQuery ((searchParams q).map stringPair) ↔ ReadsAlike q :=
  parseQuery_eq_nodeQuery_iff_sameQuery.trans ⟨fun h => h.readsAlike hrep, ReadsAlike.sameQuery⟩

/-- **A query in which every piece has a `=` reads alike exactly when it is plain.** -/
theorem readsAlike_iff_plain (hrep : replacement ∉ q)
    (hvalues : ∀ piece ∈ q.splitOn '&', piece ≠ [] → '=' ∈ piece) :
    ReadsAlike q ↔ PlainQuery q :=
  Iff.trans ⟨ReadsAlike.sameQuery, fun h => h.readsAlike hrep⟩ (sameQuery_iff_plain hrep hvalues)

end

end Outpunch
