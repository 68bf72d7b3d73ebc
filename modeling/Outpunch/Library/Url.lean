import Outpunch.Library.Utf8

/-!
# Library — the parts of a URL

Texts are lists of characters, as the syntax of URLs speaks of them.

* `splitOnce d` cuts at the first `d`; `readPairs` reads a query as pairs, cutting at `&` and each
  piece at its first `=`; `joinPairs` writes them.  A query is read as the pairs it was written
  from exactly when no part holds a delimiter of its own (`readPairs_eq_some`).
* `percentDecode` gives the bytes a text stands for; it gives the UTF-8 of the text itself
  exactly when there is no escape in it (`percentDecode_eq_encode_iff`).
* `location` and `query` are what stands before and after the first `?` of a URL, up to its
  fragment.
-/

namespace Url

open Utf8 (encode)

/-! ### Delimiters -/

/-- What stands before and after the first `d`, if there is one. -/
def splitOnce (d : Char) : List Char → Option (List Char × List Char)
  | [] => none
  | c :: s => if c = d then some ([], s) else (splitOnce d s).map fun p => (c :: p.1, p.2)

theorem splitOnce_append {d : Char} {k : List Char} (h : d ∉ k) (v : List Char) :
    splitOnce d (k ++ d :: v) = some (k, v) := by
  induction k with
  | nil => exact if_pos rfl
  | cons c k ih =>
      rw [List.mem_cons, not_or] at h
      rw [List.cons_append, splitOnce, if_neg (Ne.symm h.1), ih h.2]
      rfl

theorem splitOnce_eq_some {d : Char} {s k v : List Char} :
    splitOnce d s = some (k, v) ↔ d ∉ k ∧ s = k ++ d :: v := by
  refine ⟨fun h => ?_, fun ⟨hk, hs⟩ => hs ▸ splitOnce_append hk v⟩
  induction s generalizing k with
  | nil => cases h
  | cons c s ih =>
      rw [splitOnce] at h
      split at h
      · rename_i hc
        cases h
        exact ⟨List.not_mem_nil, by rw [hc]; rfl⟩
      · rename_i hc
        obtain ⟨⟨k', v'⟩, hp, heq⟩ := Option.map_eq_some_iff.mp h
        cases heq
        obtain ⟨hk, rfl⟩ := ih hp
        exact ⟨List.not_mem_cons_of_ne_of_not_mem (Ne.symm hc) hk, rfl⟩

theorem splitOnce_eq_none {d : Char} {s : List Char} : splitOnce d s = none ↔ d ∉ s := by
  induction s with
  | nil => simp [splitOnce]
  | cons c s ih =>
      rw [splitOnce, List.mem_cons, not_or, ← ih]
      split
      · rename_i hc
        simp [hc]
      · rename_i hc
        rw [Option.map_eq_none_iff]
        exact (and_iff_right (Ne.symm hc)).symm

/-- The pieces a text is cut into at every `d` hold its other characters. -/
theorem forall_of_mem_splitOn {d : Char} {P : Char → Prop} {s piece : List Char}
    (hs : ∀ c ∈ s, c ≠ d → P c) (h : piece ∈ s.splitOn d) : ∀ c ∈ piece, P c := by
  induction s generalizing piece with
  | nil =>
      rw [List.splitOn_nil, List.mem_singleton] at h
      simp [h]
  | cons c s ih =>
      obtain ⟨hc, hs⟩ := List.forall_mem_cons.mp hs
      rw [List.splitOn_cons_eq_if_modifyHead] at h
      split at h
      · rcases List.mem_cons.mp h with rfl | h
        · simp
        · exact ih hs h
      · rename_i hcd
        cases hsplit : s.splitOn d with
        | nil => exact absurd hsplit (List.splitOn_ne_nil d s)
        | cons first rest =>
            rw [hsplit, List.modifyHead_cons] at h
            rw [hsplit] at ih
            rcases List.mem_cons.mp h with rfl | h
            · exact List.forall_mem_cons.mpr
                ⟨hc fun e => hcd (by simp [e]), ih hs List.mem_cons_self⟩
            · exact ih hs (List.mem_cons_of_mem _ h)

/-- The pieces hold no `d`. -/
theorem not_mem_of_mem_splitOn {d : Char} {s piece : List Char} (h : piece ∈ s.splitOn d) :
    d ∉ piece :=
  fun hd => forall_of_mem_splitOn (P := (· ≠ d)) (fun _ _ hc => hc) h d hd rfl

theorem subset_of_mem_splitOn {d : Char} {s piece : List Char} (h : piece ∈ s.splitOn d) :
    piece ⊆ s :=
  fun c => forall_of_mem_splitOn (P := (· ∈ s)) (fun _ hc _ => hc) h c

/-! ### Queries -/

/-- A pair as it is written. -/
def writePair (p : List Char × List Char) : List Char := p.1 ++ '=' :: p.2

/-- The pairs, as a query. -/
def joinPairs (l : List (List Char × List Char)) : List Char :=
  ['&'].intercalate (l.map writePair)

/-- The pairs of a query; a piece without `=` is no pair. -/
def readPairs (q : List Char) : Option (List (List Char × List Char)) :=
  (q.splitOn '&').mapM (splitOnce '=')

/-- The delimiters of a query stand between the parts of a pair only. -/
def CleanPair (p : List Char × List Char) : Prop := '&' ∉ p.1 ∧ '=' ∉ p.1 ∧ '&' ∉ p.2

theorem mapM_splitOnce_eq_some {pieces : List (List Char)} {l : List (List Char × List Char)} :
    pieces.mapM (splitOnce '=') = some l ↔ pieces = l.map writePair ∧ ∀ p ∈ l, '=' ∉ p.1 := by
  induction pieces generalizing l with
  | nil =>
      rw [List.mapM_nil]
      constructor
      · intro h
        cases h
        simp
      · rintro ⟨h, -⟩
        rw [List.map_eq_nil_iff.mp h.symm]
        rfl
  | cons piece pieces ih =>
      rw [List.mapM_cons]
      constructor
      · intro h
        obtain ⟨p, hp, h⟩ := Option.bind_eq_some_iff.mp h
        obtain ⟨l', hl', h⟩ := Option.bind_eq_some_iff.mp h
        cases h
        obtain ⟨rfl, hall⟩ := ih.mp hl'
        obtain ⟨hk, rfl⟩ := splitOnce_eq_some.mp hp
        exact ⟨rfl, List.forall_mem_cons.mpr ⟨hk, hall⟩⟩
      · rintro ⟨h, hall⟩
        cases l with
        | nil => cases h
        | cons p l =>
            obtain ⟨hpiece, hpieces⟩ := List.cons_eq_cons.mp h
            obtain ⟨hp, hall⟩ := List.forall_mem_cons.mp hall
            rw [ih.mpr ⟨hpieces, hall⟩, hpiece, writePair, splitOnce_append hp]
            rfl

theorem not_mem_writePair {p : List Char × List Char} :
    '&' ∉ writePair p ↔ '&' ∉ p.1 ∧ '&' ∉ p.2 := by
  simp [writePair]

/-- **A query is read as the pairs it was written from.** -/
theorem readPairs_eq_some {q : List Char} {l : List (List Char × List Char)} :
    readPairs q = some l ↔ l ≠ [] ∧ joinPairs l = q ∧ ∀ p ∈ l, CleanPair p := by
  rw [readPairs, mapM_splitOnce_eq_some]
  constructor
  · rintro ⟨hpieces, hall⟩
    refine ⟨?_, ?_, fun p hp => ?_⟩
    · rintro rfl
      exact List.splitOn_ne_nil '&' q hpieces
    · rw [joinPairs, ← hpieces, List.intercalate_splitOn]
    · obtain ⟨h₁, h₂⟩ := not_mem_writePair.mp
        (not_mem_of_mem_splitOn (hpieces ▸ List.mem_map_of_mem hp))
      exact ⟨h₁, hall p hp, h₂⟩
  · rintro ⟨hne, rfl, hall⟩
    refine ⟨List.splitOn_intercalate '&' (fun piece hpiece => ?_) (by simpa using hne),
      fun p hp => (hall p hp).2.1⟩
    obtain ⟨p, hp, rfl⟩ := List.mem_map.mp hpiece
    exact not_mem_writePair.mpr ⟨(hall p hp).1, (hall p hp).2.2⟩

theorem joinPairs_cons_cons (p p' : List Char × List Char) (l : List (List Char × List Char)) :
    joinPairs (p :: p' :: l) = writePair p ++ '&' :: joinPairs (p' :: l) := by
  simp [joinPairs, List.intercalate_cons_cons]

theorem mem_joinPairs {c : Char} {l : List (List Char × List Char)} {p : List Char × List Char}
    (hp : p ∈ l) (hc : c ∈ p.1 ∨ c ∈ p.2) : c ∈ joinPairs l := by
  have hw : c ∈ writePair p := by
    rw [writePair, List.mem_append, List.mem_cons]
    exact hc.imp_right .inr
  induction l with
  | nil => cases hp
  | cons p₀ l ih =>
      cases l with
      | nil =>
          cases List.mem_singleton.mp hp
          rw [joinPairs, List.map_singleton, List.intercalate_singleton]
          exact hw
      | cons p₁ l =>
          rw [joinPairs_cons_cons, List.mem_append, List.mem_cons]
          rcases List.mem_cons.mp hp with rfl | hp
          · exact .inl hw
          · exact .inr (.inr (ih hp))

/-- A character of a query is a delimiter or stands in a part of a pair. -/
theorem exists_of_mem_joinPairs {c : Char} {l : List (List Char × List Char)}
    (hc : c ∈ joinPairs l) : c = '&' ∨ c = '=' ∨ ∃ p ∈ l, c ∈ p.1 ∨ c ∈ p.2 := by
  have hpair : ∀ {p : List Char × List Char}, c ∈ writePair p → c = '=' ∨ c ∈ p.1 ∨ c ∈ p.2 :=
    fun {p} h => by
      rw [writePair, List.mem_append, List.mem_cons] at h
      tauto
  induction l with
  | nil => cases hc
  | cons p l ih =>
      cases l with
      | nil =>
          rw [joinPairs, List.map_singleton, List.intercalate_singleton] at hc
          exact .inr ((hpair hc).imp_right fun h => ⟨p, by simp, h⟩)
      | cons p' l =>
          rw [joinPairs_cons_cons, List.mem_append, List.mem_cons] at hc
          rcases hc with hc | rfl | hc
          · exact .inr ((hpair hc).imp_right fun h => ⟨p, by simp, h⟩)
          · exact .inl rfl
          · refine (ih hc).imp_right (Or.imp_right ?_)
            rintro ⟨p₁, hp₁, h⟩
            exact ⟨p₁, List.mem_cons_of_mem _ hp₁, h⟩

theorem mem_joinPairs_iff {c : Char} (hamp : c ≠ '&') (heq : c ≠ '=')
    {l : List (List Char × List Char)} : c ∈ joinPairs l ↔ ∃ p ∈ l, c ∈ p.1 ∨ c ∈ p.2 := by
  constructor
  · intro hc
    rcases exists_of_mem_joinPairs hc with h | h | h
    · exact absurd h hamp
    · exact absurd h heq
    · exact h
  · rintro ⟨p, hp, hc⟩
    exact mem_joinPairs hp hc

/-! ### Sizes -/

/-- How many bytes a text takes. -/
def size (s : List Char) : Nat := (encode s).length

@[simp] theorem size_append (s t : List Char) : size (s ++ t) = size s + size t := by
  simp [size]

theorem size_cons (c : Char) (s : List Char) : size (c :: s) = c.utf8Size + size s := by
  simp [size, String.length_utf8EncodeChar]

/-- A prefix that takes as many bytes is the whole text. -/
theorem eq_of_isPrefix_of_size {s t : List Char} (h : s <+: t) (hsize : size t ≤ size s) :
    s = t := by
  obtain ⟨u, rfl⟩ := h
  have hle := Utf8.length_le_encode u
  rw [size_append, size, size] at hsize
  have hu : u = [] := List.length_eq_zero_iff.mp (by omega)
  rw [hu, List.append_nil]

/-- How many bytes the parts of the pairs take. -/
def pairsSize (l : List (List Char × List Char)) : Nat :=
  (l.map fun p => size p.1 + size p.2).sum

/-- A query takes two bytes for each pair more than their parts, less one. -/
theorem size_joinPairs {l : List (List Char × List Char)} (h : l ≠ []) :
    size (joinPairs l) + 1 = pairsSize l + 2 * l.length := by
  have hw : ∀ p, size (writePair p) = size p.1 + size p.2 + 1 := by
    intro p
    rw [writePair, size_append, size_cons, show '='.utf8Size = 1 from rfl]
    omega
  induction l with
  | nil => exact absurd rfl h
  | cons p l ih =>
      cases l with
      | nil => simp [joinPairs, pairsSize, hw]
      | cons p' l =>
          have ih := ih (by simp)
          rw [joinPairs_cons_cons, size_append, size_cons, hw, show '&'.utf8Size = 1 from rfl]
          simp only [pairsSize, List.map_cons, List.sum_cons, List.length_cons] at ih ⊢
          omega

/-! ### Percent encoding -/

def hexValue (c : Char) : Option UInt8 :=
  if '0' ≤ c ∧ c ≤ '9' then some (c.toNat - '0'.toNat).toUInt8
  else if 'A' ≤ c ∧ c ≤ 'F' then some (c.toNat - 'A'.toNat + 10).toUInt8
  else if 'a' ≤ c ∧ c ≤ 'f' then some (c.toNat - 'a'.toNat + 10).toUInt8
  else none

/-- The byte an escape stands for, where the text after a `%` is one. -/
def escapeByte (a b : Char) : Option UInt8 := do
  return 16 * (← hexValue a) + (← hexValue b)

/-- The bytes a text stands for; a `%` that begins no escape stands for itself. -/
def percentDecode : List Char → List UInt8
  | [] => []
  | '%' :: a :: b :: s =>
    match escapeByte a b with
    | some byte => byte :: percentDecode s
    | none => String.utf8EncodeChar '%' ++ percentDecode (a :: b :: s)
  | c :: s => String.utf8EncodeChar c ++ percentDecode s

/-- There is an escape in the text. -/
def hasEscape : List Char → Bool
  | [] => false
  | '%' :: a :: b :: s => (escapeByte a b).isSome || hasEscape (a :: b :: s)
  | _ :: s => hasEscape s

theorem percentDecode_eq_encode {s : List Char} (h : hasEscape s = false) :
    percentDecode s = encode s := by
  fun_induction percentDecode s with
  | case1 => rfl
  | case2 a b s byte hb ih =>
      rw [hasEscape, hb] at h
      cases h
  | case3 a b s hb ih =>
      rw [hasEscape, hb] at h
      rw [ih h, Utf8.encode_cons '%']
  | case4 c s hno ih =>
      rw [hasEscape.eq_3 _ _ hno] at h
      rw [ih h, Utf8.encode_cons]

section Weight

variable {w : List UInt8 → Nat} (hadd : ∀ l l', w (l ++ l') = w l + w l')
  (hbyte : ∀ b, 1 ≤ w [b] ∧ w [b] ≤ 2)

include hadd hbyte

theorem weight_char_pos (c : Char) : 1 ≤ w (String.utf8EncodeChar c) := by
  obtain ⟨b, l, hl⟩ := List.exists_cons_of_ne_nil (String.utf8EncodeChar_ne_nil (c := c))
  rw [hl, ← List.singleton_append, hadd]
  exact Nat.le_add_right_of_le (hbyte b).1

/-- What weighs a byte at one or two becomes no heavier. -/
theorem weight_percentDecode_le (s : List Char) : w (percentDecode s) ≤ w (encode s) := by
  fun_induction percentDecode s with
  | case1 => exact Nat.le_refl _
  | case2 a b s byte hb ih =>
      have := weight_char_pos hadd hbyte '%'
      have := weight_char_pos hadd hbyte a
      have := hbyte byte
      rw [Utf8.encode_cons, Utf8.encode_cons, Utf8.encode_cons, hadd, hadd, hadd,
        ← List.singleton_append, hadd]
      omega
  | case3 a b s hb ih =>
      rw [Utf8.encode_cons '%', hadd, hadd]
      exact Nat.add_le_add_left ih _
  | case4 c s hno ih =>
      rw [Utf8.encode_cons, hadd, hadd]
      exact Nat.add_le_add_left ih _

/-- Where there is an escape, it becomes lighter. -/
theorem weight_percentDecode_lt {s : List Char} (h : hasEscape s) :
    w (percentDecode s) < w (encode s) := by
  fun_induction percentDecode s with
  | case1 => cases h
  | case2 a b s byte hb ih =>
      have := weight_percentDecode_le hadd hbyte s
      have := weight_char_pos hadd hbyte '%'
      have := weight_char_pos hadd hbyte a
      have := weight_char_pos hadd hbyte b
      have := hbyte byte
      rw [Utf8.encode_cons, Utf8.encode_cons, Utf8.encode_cons, hadd, hadd, hadd,
        ← List.singleton_append, hadd]
      omega
  | case3 a b s hb ih =>
      rw [hasEscape, hb] at h
      rw [Utf8.encode_cons '%', hadd, hadd]
      exact Nat.add_lt_add_left (ih h) _
  | case4 c s hno ih =>
      rw [hasEscape.eq_3 _ _ hno] at h
      rw [Utf8.encode_cons, hadd, hadd]
      exact Nat.add_lt_add_left (ih h) _

end Weight

theorem length_percentDecode_le (s : List Char) : (percentDecode s).length ≤ size s :=
  weight_percentDecode_le (w := List.length) (fun _ _ => List.length_append) (by simp) s

theorem length_percentDecode_lt {s : List Char} (h : hasEscape s) :
    (percentDecode s).length < size s :=
  weight_percentDecode_lt (w := List.length) (fun _ _ => List.length_append) (by simp) h

/-- **A text stands for itself exactly when there is no escape in it.** -/
theorem percentDecode_eq_encode_iff {s : List Char} :
    percentDecode s = encode s ↔ hasEscape s = false := by
  refine ⟨fun h => Bool.eq_false_iff.mpr fun he => ?_, percentDecode_eq_encode⟩
  have := length_percentDecode_lt he
  rw [h] at this
  exact Nat.lt_irrefl _ this

/-! ### The parts of a URL -/

/-- A URL without its fragment. -/
def cutFragment (url : List Char) : List Char := url.takeWhile (· ≠ '#')

/-- What stands before the query. -/
def location (url : List Char) : List Char := (cutFragment url).takeWhile (· ≠ '?')

/-- The query, if there is one. -/
def query (url : List Char) : Option (List Char) :=
  (splitOnce '?' (cutFragment url)).map Prod.snd

/-- A text without `d` is read past. -/
theorem takeWhile_append_of_not_mem {d : Char} {s : List Char} (h : d ∉ s) (t : List Char) :
    (s ++ t).takeWhile (· ≠ d) = s ++ t.takeWhile (· ≠ d) :=
  List.takeWhile_append_of_pos fun _ hc => decide_eq_true fun e => h (e ▸ hc)

theorem cutFragment_eq_self_iff {s : List Char} : cutFragment s = s ↔ '#' ∉ s := by
  rw [cutFragment, List.takeWhile_eq_self_iff]
  exact ⟨fun h hd => of_decide_eq_true (h _ hd) rfl,
    fun h c hc => decide_eq_true fun e => h (e ▸ hc)⟩

/-- The characters that end the location of a URL. -/
def endsLocation (c : Char) : Bool := c = '?' || c = '#'

theorem location_eq_takeWhile (url : List Char) :
    location url = url.takeWhile fun c => !endsLocation c := by
  rw [location, cutFragment, List.takeWhile_takeWhile]
  refine congrArg (List.takeWhile · url) (funext fun c => ?_)
  simp [endsLocation]

/-- A text without delimiter, at the front of a URL, is at the front of its location. -/
theorem location_append {s : List Char} (h : ∀ c ∈ s, endsLocation c = false) (t : List Char) :
    location (s ++ t) = s ++ location t := by
  rw [location_eq_takeWhile, location_eq_takeWhile]
  exact List.takeWhile_append_of_pos fun c hc => by rw [h c hc]; rfl

/-- The location ends where the query begins. -/
theorem location_append_query (s q : List Char) : location (s ++ '?' :: q) = location s := by
  rw [location_eq_takeWhile, location_eq_takeWhile, List.takeWhile_append]
  split
  · rename_i hlen
    rw [List.takeWhile_cons_of_neg (by decide), List.append_nil]
    exact (List.IsPrefix.eq_of_length (List.takeWhile_prefix _) hlen).symm
  · rfl

theorem location_isPrefix (url : List Char) : location url <+: url := by
  rw [location_eq_takeWhile]
  exact List.takeWhile_prefix _

theorem location_eq_self_iff {s : List Char} : location s = s ↔ '?' ∉ s ∧ '#' ∉ s := by
  rw [location_eq_takeWhile, List.takeWhile_eq_self_iff]
  constructor
  · exact fun h => ⟨fun hq => absurd (h _ hq) (by decide), fun hf => absurd (h _ hf) (by decide)⟩
  · rintro ⟨hq, hf⟩ c hc
    have h₁ : c ≠ '?' := fun e => hq (e ▸ hc)
    have h₂ : c ≠ '#' := fun e => hf (e ▸ hc)
    simp [endsLocation, h₁, h₂]

/-- What is read of a clean location is followed by its query. -/
theorem query_append {s : List Char} (hq : '?' ∉ s) (hf : '#' ∉ s) (q : List Char) :
    query (s ++ '?' :: q) = some (cutFragment q) := by
  rw [query, cutFragment, takeWhile_append_of_not_mem hf, List.takeWhile_cons_of_pos (by decide),
    splitOnce_append hq]
  rfl

theorem query_eq_none {s : List Char} (hq : '?' ∉ s) : query s = none := by
  rw [query, Option.map_eq_none_iff, splitOnce_eq_none]
  exact fun h => hq ((List.takeWhile_prefix _).subset h)

end Url
