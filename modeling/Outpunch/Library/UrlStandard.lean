import Outpunch.Library.Url

/-!
# Library — URLs as the URL Standard reads them

* `resolve` leaves out the dot segments of a path: a `.` goes, a `..` takes the segment before it
  along, and each may be written with escapes.  A path without dot segments keeps all of its own
  (`resolve_eq`), and what is left has none (`not_isDotSegment_of_mem_resolve`).
* `searchParams` are the pairs of a query in the order they stand there, form-decoded: a `+` is a
  space, an escape its byte, and a piece without `=` a key without value.  A text stands for itself
  exactly when it has neither (`formDecode_eq_self_iff`); any other becomes shorter in `formSize`.

What a parser escapes by itself before it looks for either is in `UrlEscape`.
-/

namespace Url

open Utf8 (encode decodeLossy replacement)

/-! ### Dot segments -/

/-- How many dots a text is, each written plain or as an escape. -/
def dots : List Char → Option Nat
  | [] => some 0
  | '.' :: s => (dots s).map (· + 1)
  | '%' :: '2' :: 'e' :: s => (dots s).map (· + 1)
  | '%' :: '2' :: 'E' :: s => (dots s).map (· + 1)
  | _ => none

def isSingleDot (s : List Char) : Bool := dots s = some 1

def isDoubleDot (s : List Char) : Bool := dots s = some 2

def isDotSegment (s : List Char) : Bool := isSingleDot s || isDoubleDot s

/-- The path after one more segment. -/
def addSegment (path : List (List Char)) (s : List Char) : List (List Char) :=
  if isDoubleDot s then path.dropLast else if isSingleDot s then path else path ++ [s]

/-- The path after these segments, the last of the URL. -/
def resolve (path : List (List Char)) : List (List Char) → List (List Char)
  | [] => path
  | [s] => if isDotSegment s then addSegment path s ++ [[]] else addSegment path s
  | s :: s' :: rest => resolve (addSegment path s) (s' :: rest)

/-- Segments, as they stand in a path. -/
def joinPath (segments : List (List Char)) : List Char := ['/'].intercalate segments

theorem addSegment_eq {path : List (List Char)} {s : List Char} (h : isDotSegment s = false) :
    addSegment path s = path ++ [s] := by
  obtain ⟨h₁, h₂⟩ := Bool.or_eq_false_iff.mp h
  rw [addSegment, h₁, h₂]
  rfl

/-- Segments that are no dots stay. -/
theorem resolve_eq {path segments : List (List Char)}
    (h : ∀ s ∈ segments, isDotSegment s = false) : resolve path segments = path ++ segments := by
  fun_induction resolve path segments with
  | case1 path => exact (List.append_nil path).symm
  | case2 path s hs => exact absurd hs (by simp [h s])
  | case3 path s hs => exact addSegment_eq (h s List.mem_cons_self)
  | case4 path s s' rest ih =>
      obtain ⟨hs, hrest⟩ := List.forall_mem_cons.mp h
      rw [ih hrest, addSegment_eq hs, List.append_assoc]
      rfl

theorem mem_addSegment {path : List (List Char)} {s t : List Char} (h : t ∈ addSegment path s) :
    t ∈ path ∨ t = s ∧ isDotSegment s = false := by
  rw [addSegment] at h
  split at h
  · exact .inl (List.mem_of_mem_dropLast h)
  · rename_i h₂
    split at h
    · exact .inl h
    · rename_i h₁
      rcases List.mem_append.mp h with h | h
      · exact .inl h
      · refine .inr ⟨List.mem_singleton.mp h, ?_⟩
        rw [isDotSegment, Bool.eq_false_iff.mpr h₁, Bool.eq_false_iff.mpr h₂]
        rfl

/-- What is in a path after all was in it, or is a segment that is no dots, or is empty. -/
theorem mem_resolve {path segments : List (List Char)} {t : List Char}
    (h : t ∈ resolve path segments) :
    t ∈ path ∨ (t ∈ segments ∧ isDotSegment t = false) ∨ t = [] := by
  fun_induction resolve path segments with
  | case1 path => exact .inl h
  | case2 path s hs =>
      rcases List.mem_append.mp h with h | h
      · refine (mem_addSegment h).imp_right fun ⟨ht, hs'⟩ => absurd hs (by simp [hs'])
      · exact .inr (.inr (List.mem_singleton.mp h))
  | case3 path s hs =>
      refine (mem_addSegment h).imp_right ?_
      rintro ⟨rfl, hs'⟩
      exact .inl ⟨List.mem_cons_self, hs'⟩
  | case4 path s s' rest ih =>
      rcases ih h with h | ⟨h, ht⟩ | h
      · refine (mem_addSegment h).imp_right ?_
        rintro ⟨rfl, hs'⟩
        exact .inl ⟨List.mem_cons_self, hs'⟩
      · exact .inr (.inl ⟨List.mem_cons_of_mem _ h, ht⟩)
      · exact .inr (.inr h)

/-- **What is left has no dot segment.** -/
theorem not_isDotSegment_of_mem_resolve {segments : List (List Char)} {t : List Char}
    (h : t ∈ resolve [] segments) : isDotSegment t = false := by
  rcases mem_resolve h with h | ⟨-, h⟩ | rfl
  · cases h
  · exact h
  · rfl

/-! ### Dots as bytes -/

theorem exists_dots_of_isDotSegment {s : List Char} (h : isDotSegment s) :
    ∃ n, dots s = some n := by
  rw [isDotSegment, isSingleDot, isDoubleDot, Bool.or_eq_true, decide_eq_true_eq,
    decide_eq_true_eq] at h
  exact h.elim (fun h => ⟨_, h⟩) fun h => ⟨_, h⟩

theorem percentDecode_of_dots {s : List Char} {n : Nat} (h : dots s = some n) :
    percentDecode s = encode (List.replicate n '.') := by
  fun_induction dots s generalizing n with
  | case1 => cases h; rfl
  | case2 s ih =>
      obtain ⟨m, hm, rfl⟩ := Option.map_eq_some_iff.mp h
      rw [percentDecode.eq_3 _ _ (by simp), ih hm, List.replicate_succ, Utf8.encode_cons]
  | case3 s ih =>
      obtain ⟨m, hm, rfl⟩ := Option.map_eq_some_iff.mp h
      rw [percentDecode, ih hm, List.replicate_succ, Utf8.encode_cons]
      rfl
  | case4 s ih =>
      obtain ⟨m, hm, rfl⟩ := Option.map_eq_some_iff.mp h
      rw [percentDecode, ih hm, List.replicate_succ, Utf8.encode_cons]
      rfl
  | case5 => cases h

theorem dots_replicate (n : Nat) : dots (List.replicate n '.') = some n := by
  induction n with
  | zero => rfl
  | succ n ih => rw [List.replicate_succ, dots, ih]; rfl

/-! ### Paths as bytes -/

theorem hexValue_slash : hexValue '/' = none := rfl

theorem escapeByte_slash_right (a : Char) : escapeByte a '/' = none := by
  cases h : hexValue a <;> simp [escapeByte, h, hexValue_slash]

/-- No escape reaches over a `/`. -/
theorem percentDecode_append_slash (s t : List Char) :
    percentDecode (s ++ '/' :: t) = percentDecode s ++ 0x2F :: percentDecode t := by
  have hslash : percentDecode ('/' :: t) = 0x2F :: percentDecode t := by
    rw [percentDecode.eq_3 _ _ (by simp)]
    rfl
  fun_induction percentDecode s with
  | case1 => exact hslash
  | case2 a b s byte hb ih => simp [percentDecode, hb, ih]
  | case3 a b s hb ih =>
      have ih : percentDecode (a :: b :: (s ++ '/' :: t)) = _ := ih
      simp [percentDecode, hb, ih]
  | case4 c s hno ih =>
      rw [List.append_assoc, ← ih, List.cons_append]
      by_cases hc : c = '%'
      · subst hc
        cases s with
        | nil =>
            cases t with
            | nil => rw [percentDecode.eq_3 _ _ (by simp)]
            | cons b t =>
                rw [List.nil_append, percentDecode,
                  show escapeByte '/' b = none by simp [escapeByte, hexValue_slash]]
        | cons a s =>
            cases s with
            | nil => simp [percentDecode, escapeByte_slash_right]
            | cons b s => exact absurd rfl (hno a b s rfl)
      · rw [percentDecode.eq_3 _ _ (fun _ _ _ h => absurd h hc)]

theorem joinPath_cons_cons (s s' : List Char) (rest : List (List Char)) :
    joinPath (s :: s' :: rest) = s ++ '/' :: joinPath (s' :: rest) := by
  simp [joinPath, List.intercalate_cons_cons]

theorem not_mem_joinPath {c : Char} (hc : c ≠ '/') {segments : List (List Char)}
    (h : ∀ s ∈ segments, c ∉ s) : c ∉ joinPath segments := by
  induction segments with
  | nil => exact List.not_mem_nil
  | cons s rest ih =>
      obtain ⟨hs, hrest⟩ := List.forall_mem_cons.mp h
      cases rest with
      | nil =>
          rw [joinPath, List.intercalate_singleton]
          exact hs
      | cons s' rest =>
          rw [joinPath_cons_cons, List.mem_append, List.mem_cons, not_or, not_or]
          exact ⟨hs, hc, ih hrest⟩

theorem splitOnce_joinPath {s : List Char} (h : '/' ∉ s) (rest : List (List Char)) :
    splitOnce '/' (joinPath (s :: rest)) = if rest = [] then none else some (s, joinPath rest) := by
  cases rest with
  | nil =>
      rw [joinPath, List.intercalate_singleton, if_pos rfl]
      exact splitOnce_eq_none.mpr h
  | cons s' rest =>
      rw [joinPath_cons_cons, splitOnce_append h, if_neg (by simp)]

theorem splitOn_percentDecode (path : List Char) : (percentDecode path).splitOn 0x2F =
    (path.splitOn '/').flatMap fun s => (percentDecode s).splitOn 0x2F := by
  have hjoin : ∀ segments : List (List Char), segments ≠ [] →
      (percentDecode (joinPath segments)).splitOn 0x2F =
        segments.flatMap fun s => (percentDecode s).splitOn 0x2F := by
    intro segments
    induction segments with
    | nil => exact fun h => absurd rfl h
    | cons s rest ih =>
        intro _
        cases rest with
        | nil => simp [joinPath]
        | cons s' rest =>
            rw [joinPath_cons_cons, percentDecode_append_slash, List.splitOn_append_cons_self,
              ih (by simp)]
            rfl
  have h := hjoin _ (List.splitOn_ne_nil '/' path)
  rwa [joinPath, List.intercalate_splitOn] at h

/-- **A dot segment is still one after decoding.** -/
theorem exists_isDotSegment_of_encode_eq {path t s : List Char} (h : encode t = percentDecode path)
    (hs : s ∈ path.splitOn '/') (hdot : isDotSegment s) :
    ∃ s' ∈ t.splitOn '/', isDotSegment s' := by
  obtain ⟨n, hn⟩ := exists_dots_of_isDotSegment hdot
  have hslash : '/' ∉ List.replicate n '.' := fun h =>
    absurd (List.eq_of_mem_replicate h) (by decide)
  have hmem : encode (List.replicate n '.') ∈ (t.splitOn '/').map encode := by
    rw [← Utf8.splitOn_encode (b := 0x2F) rfl (by decide), h, splitOn_percentDecode]
    refine List.mem_flatMap.mpr ⟨s, hs, ?_⟩
    rw [percentDecode_of_dots hn, Utf8.splitOn_encode (d := '/') (b := 0x2F) rfl (by decide),
      List.splitOn_eq_singleton hslash]
    exact List.mem_singleton_self _
  obtain ⟨s', hs', heq⟩ := List.mem_map.mp hmem
  refine ⟨s', hs', ?_⟩
  rw [Utf8.encode_injective heq, isDotSegment, isSingleDot, isDoubleDot, dots_replicate, ← hn]
  exact hdot

/-! ### Form decoding -/

/-- The text with a space for each `+`. -/
def plusToSpace (s : List Char) : List Char := s.map fun c => if c = '+' then ' ' else c

/-- What a part of a form-encoded query stands for. -/
def formDecode (s : List Char) : List Char := decodeLossy (percentDecode (plusToSpace s))

/-- The pair a piece of a query stands for. -/
def formPair (piece : List Char) : List Char × List Char :=
  match splitOnce '=' piece with
  | some p => (formDecode p.1, formDecode p.2)
  | none => (formDecode piece, [])

/-- The pairs of a query; an empty piece is none. -/
def searchParams (q : List Char) : List (List Char × List Char) :=
  ((q.splitOn '&').filter fun piece => !piece.isEmpty).map formPair

/-- Nothing in the text stands for anything else. -/
def Plain (s : List Char) : Prop := '+' ∉ s ∧ hasEscape s = false

instance (s : List Char) : Decidable (Plain s) := inferInstanceAs (Decidable (_ ∧ _))

/-- The size of a text, a `+` counting twice. -/
def formSize (s : List Char) : Nat := size s + s.count '+'

theorem plusToSpace_eq_self {s : List Char} (h : '+' ∉ s) : plusToSpace s = s := by
  refine (List.map_congr_left fun c hc => if_neg ?_).trans (List.map_id s)
  rintro rfl
  exact h hc

theorem formDecode_eq_self {s : List Char} (h : Plain s) : formDecode s = s := by
  rw [formDecode, plusToSpace_eq_self h.1, percentDecode_eq_encode h.2, Utf8.decodeLossy_encode]

theorem formSize_cons (c : Char) (s : List Char) :
    formSize (c :: s) = c.utf8Size + (if c = '+' then 1 else 0) + formSize s := by
  rw [formSize, formSize, size_cons, List.count_cons]
  simp only [beq_iff_eq]
  omega

theorem formSize_plusToSpace (s : List Char) :
    formSize (plusToSpace s) = size s := by
  induction s with
  | nil => rfl
  | cons c s ih =>
      rw [plusToSpace, List.map_cons, formSize_cons, size_cons]
      rw [plusToSpace] at ih
      by_cases hc : c = '+'
      · subst hc
        rw [if_pos rfl, if_neg (by decide), ih]
        rfl
      · rw [if_neg hc, if_neg hc, ih]
        rfl

/-- `formSize` in bytes. -/
def bytesFormSize (l : List UInt8) : Nat := l.length + l.count 0x2B

theorem bytesFormSize_append (l l' : List UInt8) :
    bytesFormSize (l ++ l') = bytesFormSize l + bytesFormSize l' := by
  rw [bytesFormSize, bytesFormSize, bytesFormSize, List.length_append, List.count_append]
  omega

theorem bytesFormSize_char (c : Char) :
    bytesFormSize (String.utf8EncodeChar c) = c.utf8Size + if c = '+' then 1 else 0 := by
  rw [bytesFormSize, String.length_utf8EncodeChar]
  by_cases hc : c = '+'
  · subst hc
    rfl
  · rw [if_neg hc, List.count_eq_zero.mpr]
    intro h
    have h := (Utf8.mem_encode_iff (d := '+') (s := [c]) rfl (by decide)).mp (by simpa using h)
    exact hc (List.mem_singleton.mp h).symm

theorem bytesFormSize_encode (s : List Char) : bytesFormSize (encode s) = formSize s := by
  induction s with
  | nil => rfl
  | cons c s ih =>
      rw [Utf8.encode_cons, bytesFormSize_append, bytesFormSize_char, ih, formSize_cons]

theorem bytesFormSize_byte (b : UInt8) : 1 ≤ bytesFormSize [b] ∧ bytesFormSize [b] ≤ 2 := by
  rw [bytesFormSize, List.length_singleton, List.count_singleton]
  split <;> omega

/-- **What is read of a text that is not plain is shorter**, unless some of it is no text. -/
theorem formSize_formDecode_lt {s : List Char} (hrep : replacement ∉ formDecode s)
    (h : ¬ Plain s) : formSize (formDecode s) < formSize s := by
  have hbytes : formSize (formDecode s) = bytesFormSize (percentDecode (plusToSpace s)) := by
    rw [← bytesFormSize_encode, formDecode, Utf8.encode_decodeLossy hrep]
  have hle := weight_percentDecode_le bytesFormSize_append bytesFormSize_byte (plusToSpace s)
  rw [bytesFormSize_encode, formSize_plusToSpace] at hle
  rw [hbytes]
  by_cases hplus : '+' ∈ s
  · have := List.count_pos_iff.mpr hplus
    rw [formSize]
    omega
  · rw [plusToSpace_eq_self hplus]
    rw [Plain, not_and] at h
    have hescape := Bool.eq_true_of_not_eq_false (h hplus)
    have hlt := weight_percentDecode_lt bytesFormSize_append bytesFormSize_byte hescape
    rwa [bytesFormSize_encode] at hlt

/-- **A text stands for itself exactly when it is plain.** -/
theorem formDecode_eq_self_iff {s : List Char} (hrep : replacement ∉ s) :
    formDecode s = s ↔ Plain s := by
  refine ⟨fun h => by_contra fun hplain => ?_, formDecode_eq_self⟩
  have := formSize_formDecode_lt (by rwa [h]) hplain
  rw [h] at this
  exact Nat.lt_irrefl _ this

end Url
