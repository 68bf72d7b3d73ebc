import Outpunch.Library.UrlStandard

/-!
# Library — what a URL parser escapes by itself

A parser escapes the characters of a percent-encode set where they stand unescaped: one set in a
path, another in a query.  Which characters these are differs from one version of the standard to
the next; none of them has a meaning in a URL (`EscapeSet`).  So the escapes are read back as what
was there (`percentDecode_escape`), no dot segment comes of them (`isDotSegment_of_escape`), and
the pairs of a query are the same (`searchParams_escape`); but a text stands for itself escaped only
when nothing of it is (`percentDecode_eq_encode_escape_iff`).

In a path a `\` parts segments as `/` does; `pathname` is what becomes of one.
-/

namespace Url

open Utf8 (encode)

/-- The characters no percent-encode set of a path or a query has. -/
def isUriChar (c : Char) : Bool := c.isAlphanum || "-._~!$&()*+,;=:@%/?".toList.contains c

/-- A percent-encode set. -/
structure EscapeSet where
  escapes : Char → Bool
  keeps : ∀ c, isUriChar c → escapes c = false

def hexDigit (n : UInt8) : Char := (Nat.digitChar n.toNat).toUpper

/-- The escape of a byte. -/
def escapeOf (b : UInt8) : List Char := ['%', hexDigit (b / 16), hexDigit (b % 16)]

namespace EscapeSet

/-- What stands for a character. -/
def escapeChar (set : EscapeSet) (c : Char) : List Char :=
  if set.escapes c then (String.utf8EncodeChar c).flatMap escapeOf else [c]

/-- The text with its characters of the set escaped. -/
def escape (set : EscapeSet) (s : List Char) : List Char := s.flatMap set.escapeChar

end EscapeSet

variable {set : EscapeSet}

theorem EscapeSet.escape_cons (c : Char) (s : List Char) :
    set.escape (c :: s) = set.escapeChar c ++ set.escape s := rfl

theorem EscapeSet.escapeChar_eq_self {c : Char} (h : set.escapes c = false) :
    set.escapeChar c = [c] := if_neg (by rw [h]; decide)

/-- A text without characters of the set stays. -/
theorem EscapeSet.escape_eq_self {s : List Char} (h : ∀ c ∈ s, set.escapes c = false) :
    set.escape s = s := by
  induction s with
  | nil => rfl
  | cons c s ih =>
      obtain ⟨hc, hs⟩ := List.forall_mem_cons.mp h
      rw [escape_cons, escapeChar_eq_self hc, ih hs]
      rfl

/-! ### Escapes, read back -/

theorem escapeByte_escapeOf (b : UInt8) :
    escapeByte (hexDigit (b / 16)) (hexDigit (b % 16)) = some b := by
  have h : ∀ n : Fin 256, escapeByte (hexDigit (UInt8.ofNat n / 16)) (hexDigit (UInt8.ofNat n % 16))
      = some (UInt8.ofNat n) := by decide +kernel
  have hb := h ⟨b.toNat, b.toNat_lt⟩
  rwa [UInt8.ofNat_toNat] at hb

theorem percentDecode_escapeOf (l : List UInt8) (s : List Char) :
    percentDecode (l.flatMap escapeOf ++ s) = l ++ percentDecode s := by
  induction l with
  | nil => rfl
  | cons b l ih =>
      rw [List.flatMap_cons, List.append_assoc, escapeOf, List.cons_append, List.cons_append,
        List.cons_append, List.nil_append, percentDecode, escapeByte_escapeOf, ih]
      rfl

theorem isUriChar_of_hexValue {c : Char} (h : hexValue c ≠ none) : isUriChar c := by
  have hrange : ('0' ≤ c ∧ c ≤ '9') ∨ ('A' ≤ c ∧ c ≤ 'F') ∨ ('a' ≤ c ∧ c ≤ 'f') := by
    by_contra hno
    rw [not_or, not_or] at hno
    exact h (by rw [hexValue, if_neg hno.1, if_neg hno.2.1, if_neg hno.2.2])
  have halnum : c.isAlphanum := by
    simp only [Char.isAlphanum, Char.isAlpha, Char.isUpper, Char.isLower, Char.isDigit,
      Bool.or_eq_true, Bool.and_eq_true, decide_eq_true_eq]
    rcases hrange with h | ⟨h₁, h₂⟩ | ⟨h₁, h₂⟩
    · exact .inr h
    · exact .inl (.inl ⟨h₁, h₂.trans (by decide)⟩)
    · exact .inl (.inr ⟨h₁, h₂.trans (by decide)⟩)
  rw [isUriChar, halnum]
  rfl

theorem range_of_isUriChar {c : Char} (h : isUriChar c) : ' ' < c ∧ c ≤ '~' := by
  rw [isUriChar, Bool.or_eq_true] at h
  rcases h with h | h
  · simp only [Char.isAlphanum, Char.isAlpha, Char.isUpper, Char.isLower, Char.isDigit,
      Bool.or_eq_true, Bool.and_eq_true, decide_eq_true_eq] at h
    rcases h with (⟨h₁, h₂⟩ | ⟨h₁, h₂⟩) | ⟨h₁, h₂⟩
    · exact ⟨lt_of_lt_of_le (by decide) h₁, le_trans h₂ (by decide)⟩
    · exact ⟨lt_of_lt_of_le (by decide) h₁, le_trans h₂ (by decide)⟩
    · exact ⟨lt_of_lt_of_le (by decide) h₁, le_trans h₂ (by decide)⟩
  · have hall : ("-._~!$&()*+,;=:@%/?".toList.all fun d => ' ' < d && d ≤ '~') = true := by decide
    simpa using List.all_eq_true.mp hall c (List.contains_iff_mem.mp h)

/-- The set of what is not visible, and these characters. -/
def EscapeSet.ofChars (extra : List Char) (h : extra.all fun c => !isUriChar c) : EscapeSet where
  escapes c := c ≤ ' ' || '~' < c || extra.contains c
  keeps c hc := by
    obtain ⟨hlow, hhigh⟩ := range_of_isUriChar hc
    have hextra : extra.contains c = false := by
      rw [← Bool.not_eq_true, List.contains_iff_mem]
      intro hmem
      have hno := List.all_eq_true.mp h c hmem
      rw [hc] at hno
      cases hno
    rw [decide_eq_false (not_le.mpr hlow), decide_eq_false (not_lt.mpr hhigh), hextra]
    rfl

theorem EscapeSet.hexValue_eq_none {c : Char} (h : set.escapes c) : hexValue c = none := by
  by_contra hne
  rw [set.keeps c (isUriChar_of_hexValue hne)] at h
  cases h

/-- A digit of an escape stays. -/
theorem EscapeSet.escapeChar_eq_self_of_hexValue {c : Char} (h : hexValue c ≠ none) :
    set.escapeChar c = [c] :=
  escapeChar_eq_self (set.keeps c (isUriChar_of_hexValue h))

theorem hexValue_ne_none_of_escapeByte {a b : Char} {byte : UInt8}
    (h : escapeByte a b = some byte) : hexValue a ≠ none ∧ hexValue b ≠ none := by
  cases ha : hexValue a with
  | none => simp [escapeByte, ha] at h
  | some _ =>
      cases hb : hexValue b with
      | none => simp [escapeByte, ha, hb] at h
      | some _ => exact ⟨by simp, by simp⟩

theorem escapeByte_eq_none_left {a b : Char} (h : hexValue a = none) : escapeByte a b = none := by
  simp [escapeByte, h]

theorem escapeByte_eq_none_right {a b : Char} (h : hexValue b = none) : escapeByte a b = none := by
  cases ha : hexValue a <;> simp [escapeByte, ha, h]

/-- What stands for a character begins with it, or with a `%`. -/
theorem EscapeSet.escapeChar_cases (set : EscapeSet) (c : Char) :
    set.escapeChar c = [c] ∨ ∃ t, set.escapeChar c = '%' :: t := by
  rw [escapeChar]
  split
  · obtain ⟨b, l, hl⟩ := List.exists_cons_of_ne_nil (String.utf8EncodeChar_ne_nil (c := c))
    exact .inr ⟨_, by rw [hl, List.flatMap_cons, escapeOf, List.cons_append]⟩
  · exact .inl rfl

/-- A `%` that begins no escape begins none after the rest is escaped. -/
theorem EscapeSet.escapeByte_escape {s : List Char}
    (h : ∀ a b t, s = a :: b :: t → escapeByte a b = none) {a b : Char} {t : List Char}
    (hs : set.escape s = a :: b :: t) : escapeByte a b = none := by
  cases s with
  | nil => cases hs
  | cons a' s =>
      rw [escape_cons] at hs
      rcases set.escapeChar_cases a' with ha | ⟨u, ha⟩
      · rw [ha, List.singleton_append, List.cons_eq_cons] at hs
        obtain ⟨rfl, hs⟩ := hs
        cases s with
        | nil => cases hs
        | cons b' s =>
            rw [escape_cons] at hs
            rcases set.escapeChar_cases b' with hb | ⟨u, hb⟩
            · rw [hb, List.singleton_append, List.cons_eq_cons] at hs
              obtain ⟨rfl, -⟩ := hs
              exact h _ _ _ rfl
            · rw [hb, List.cons_append, List.cons_eq_cons] at hs
              obtain ⟨rfl, -⟩ := hs
              exact escapeByte_eq_none_right rfl
      · rw [ha, List.cons_append, List.cons_eq_cons] at hs
        obtain ⟨rfl, -⟩ := hs
        exact escapeByte_eq_none_left rfl

theorem percentDecode_percent {s : List Char}
    (h : ∀ a b t, s = a :: b :: t → escapeByte a b = none) :
    percentDecode ('%' :: s) = String.utf8EncodeChar '%' ++ percentDecode s := by
  match s with
  | [] => rfl
  | [_] => rfl
  | a :: b :: t => rw [percentDecode, h a b t rfl]

theorem percentDecode_cons_of_ne {c : Char} (hc : c ≠ '%') (s : List Char) :
    percentDecode (c :: s) = String.utf8EncodeChar c ++ percentDecode s :=
  percentDecode.eq_3 _ _ fun _ _ _ h => absurd h hc

/-- **An escaped text stands for the same bytes.** -/
theorem percentDecode_escape (s : List Char) : percentDecode (set.escape s) = percentDecode s := by
  fun_induction percentDecode s with
  | case1 => rfl
  | case2 a b s byte hb ih =>
      obtain ⟨ha', hb'⟩ := hexValue_ne_none_of_escapeByte hb
      rw [EscapeSet.escape_cons, EscapeSet.escapeChar_eq_self (set.keeps '%' rfl),
        EscapeSet.escape_cons, EscapeSet.escapeChar_eq_self_of_hexValue ha',
        EscapeSet.escape_cons, EscapeSet.escapeChar_eq_self_of_hexValue hb']
      simp only [List.cons_append, List.nil_append, percentDecode, hb, ih]
  | case3 a b s hb ih =>
      rw [EscapeSet.escape_cons, EscapeSet.escapeChar_eq_self (set.keeps '%' rfl),
        List.singleton_append, percentDecode_percent, ih]
      exact fun _ _ _ => EscapeSet.escapeByte_escape fun _ _ _ h => by cases h; exact hb
  | case4 c s hno ih =>
      rw [EscapeSet.escape_cons]
      by_cases hc : c = '%'
      · subst hc
        rw [EscapeSet.escapeChar_eq_self (set.keeps '%' rfl), List.singleton_append,
          percentDecode_percent, ih]
        exact fun _ _ _ => EscapeSet.escapeByte_escape fun a b t h => absurd h (hno a b t rfl)
      · rw [← ih, EscapeSet.escapeChar]
        split
        · exact percentDecode_escapeOf _ _
        · exact percentDecode_cons_of_ne hc _

/-- A character that is in no escape is there decoded. -/
theorem subset_percentDecode {c : Char} (hc : c ≠ '%') (hhex : hexValue c = none) {s : List Char}
    (h : c ∈ s) : String.utf8EncodeChar c ⊆ percentDecode s := by
  fun_induction percentDecode s with
  | case1 => cases h
  | case2 a b s byte hb ih =>
      obtain ⟨ha', hb'⟩ := hexValue_ne_none_of_escapeByte hb
      simp only [List.mem_cons] at h
      rcases h with rfl | rfl | rfl | h
      · exact absurd rfl hc
      · exact absurd hhex ha'
      · exact absurd hhex hb'
      · exact fun x hx => List.mem_cons_of_mem _ (ih h hx)
  | case3 a b s hb ih =>
      exact fun x hx => List.mem_append_right _ (ih ((List.mem_cons.mp h).resolve_left hc) hx)
  | case4 d s hno ih =>
      rcases List.mem_cons.mp h with rfl | h
      · exact fun x hx => List.mem_append_left _ hx
      · exact fun x hx => List.mem_append_right _ (ih h hx)

theorem size_escapeOf (b : UInt8) : size (escapeOf b) = 3 := by
  have h : ∀ n : Fin 256, size (escapeOf (UInt8.ofNat n)) = 3 := by decide +kernel
  have hb := h ⟨b.toNat, b.toNat_lt⟩
  rwa [UInt8.ofNat_toNat] at hb

theorem size_flatMap_escapeOf (l : List UInt8) : size (l.flatMap escapeOf) = 3 * l.length := by
  induction l with
  | nil => rfl
  | cons b l ih => rw [List.flatMap_cons, size_append, size_escapeOf, ih, List.length_cons]; omega

theorem EscapeSet.size_escapeChar (set : EscapeSet) (c : Char) :
    size (set.escapeChar c) = if set.escapes c then 3 * c.utf8Size else c.utf8Size := by
  rw [escapeChar]
  split
  · rw [size_flatMap_escapeOf, String.length_utf8EncodeChar]
  · exact size_cons c []

theorem EscapeSet.size_le_escape (s : List Char) : size s ≤ size (set.escape s) := by
  induction s with
  | nil => exact Nat.le_refl _
  | cons c s ih =>
      rw [escape_cons, size_append, size_cons, size_escapeChar]
      split <;> omega

/-- Escapes make a text longer. -/
theorem EscapeSet.size_lt_escape {s : List Char} {c : Char} (hc : c ∈ s) (hesc : set.escapes c) :
    size s < size (set.escape s) := by
  induction s with
  | nil => cases hc
  | cons d s ih =>
      have hle : size s ≤ size (set.escape s) := EscapeSet.size_le_escape s
      have hpos := Char.utf8Size_pos d
      rw [escape_cons, size_append, size_cons, size_escapeChar]
      rcases List.mem_cons.mp hc with rfl | hc
      · rw [if_pos hesc]
        omega
      · have := ih hc
        split <;> omega

/-- **A text stands for itself escaped exactly when it has no escape and needs none.** -/
theorem percentDecode_eq_encode_escape_iff {s : List Char} :
    percentDecode s = encode (set.escape s) ↔
      hasEscape s = false ∧ ∀ c ∈ s, set.escapes c = false := by
  constructor
  · intro h
    have hkept : ∀ c ∈ s, set.escapes c = false := fun c hc => Bool.eq_false_iff.mpr fun hesc => by
      have hlt := EscapeSet.size_lt_escape hc hesc
      have hle := length_percentDecode_le s
      rw [h, ← size] at hle
      omega
    rw [EscapeSet.escape_eq_self hkept] at h
    exact ⟨percentDecode_eq_encode_iff.mp h, hkept⟩
  · rintro ⟨hescape, hkept⟩
    rw [EscapeSet.escape_eq_self hkept]
    exact percentDecode_eq_encode hescape

/-! ### Segments and pairs -/

/-- **A dot segment escaped is one that nothing was escaped of.** -/
theorem isDotSegment_of_escape {s : List Char} (h : isDotSegment (set.escape s)) :
    set.escape s = s := by
  obtain ⟨n, hn⟩ := exists_dots_of_isDotSegment h
  refine EscapeSet.escape_eq_self fun c hc => Bool.eq_false_iff.mpr fun hesc => ?_
  have hne : ∀ d, isUriChar d → c ≠ d := by
    rintro d hd rfl
    rw [set.keeps c hd] at hesc
    cases hesc
  have hsub := subset_percentDecode (hne '%' rfl) (EscapeSet.hexValue_eq_none hesc) hc
  have hdecoded : percentDecode s = encode (List.replicate n '.') :=
    (percentDecode_escape s).symm.trans (percentDecode_of_dots hn)
  rw [hdecoded] at hsub
  obtain ⟨b, l, hb⟩ := List.exists_cons_of_ne_nil (String.utf8EncodeChar_ne_nil (c := c))
  have hmem : b ∈ encode (List.replicate n '.') := hsub (by simp [hb])
  obtain ⟨d, hd, hbd⟩ := List.mem_flatMap.mp hmem
  rw [List.eq_of_mem_replicate hd] at hbd
  have hdot : b = 0x2E := List.mem_singleton.mp hbd
  have hc : '.' ∈ [c] := (Utf8.mem_encode_iff (b := 0x2E) rfl (by decide)).mp (by simp [hb, hdot])
  exact hne '.' rfl (List.mem_singleton.mp hc).symm

/-- A character of an escape is a `%` or a digit. -/
theorem EscapeSet.mem_escapeChar {c d : Char} (h : d ∈ set.escapeChar c) :
    d = c ∨ d = '%' ∨ hexValue d ≠ none := by
  rw [escapeChar] at h
  split at h
  · obtain ⟨b, -, hd⟩ := List.mem_flatMap.mp h
    obtain ⟨h₁, h₂⟩ := hexValue_ne_none_of_escapeByte (escapeByte_escapeOf b)
    simp only [escapeOf, List.mem_cons, List.not_mem_nil, or_false] at hd
    rcases hd with rfl | rfl | rfl
    · exact .inr (.inl rfl)
    · exact .inr (.inr h₁)
    · exact .inr (.inr h₂)
  · exact .inl (List.mem_singleton.mp h)

/-- A character that is in no escape is not added. -/
theorem EscapeSet.not_mem_escape {d : Char} (hd : d ≠ '%') (hhex : hexValue d = none)
    {s : List Char} (hs : d ∉ s) : d ∉ set.escape s := by
  intro h
  obtain ⟨c, hc, hdc⟩ := List.mem_flatMap.mp h
  rcases mem_escapeChar hdc with rfl | h | h
  · exact hs hc
  · exact hd h
  · exact h hhex

/-- A text whose escaped form has no `%` stays. -/
theorem EscapeSet.escape_eq_self_of_percent {s : List Char} (h : '%' ∉ set.escape s) :
    set.escape s = s := by
  refine escape_eq_self fun c hc => Bool.eq_false_iff.mpr fun hesc => h ?_
  refine List.mem_flatMap.mpr ⟨c, hc, ?_⟩
  obtain ⟨b, l, hb⟩ := List.exists_cons_of_ne_nil (String.utf8EncodeChar_ne_nil (c := c))
  rw [escapeChar, if_pos hesc, hb]
  exact List.mem_cons_self

theorem EscapeSet.escape_eq_nil {s : List Char} : set.escape s = [] ↔ s = [] := by
  refine ⟨fun h => ?_, fun h => by rw [h]; rfl⟩
  have hle : size s ≤ size (set.escape s) := EscapeSet.size_le_escape s
  cases s with
  | nil => rfl
  | cons c s =>
      have hpos := Char.utf8Size_pos c
      rw [h, size_cons] at hle
      exact absurd hle (by simp [size]; omega)

/-! ### Pathnames -/

/-- The segments of a path: a `\` is read as a `/`. -/
def pathSegments (path : List Char) : List (List Char) :=
  (path.map fun c => if c = '\\' then '/' else c).splitOn '/'

/-- The pathname of a URL whose path is `/` and these characters. -/
def pathname (set : EscapeSet) (path : List Char) : List Char :=
  '/' :: joinPath ((resolve [] (pathSegments path)).map set.escape)

theorem pathSegments_eq {path : List Char} (h : '\\' ∉ path) :
    pathSegments path = path.splitOn '/' := by
  refine congrArg (List.splitOn '/') ((List.map_congr_left fun c hc => if_neg ?_).trans
    (List.map_id path))
  rintro rfl
  exact h hc

/-- Segments are joined escaped as they are escaped joined. -/
theorem joinPath_map_escape (segments : List (List Char)) :
    joinPath (segments.map set.escape) = set.escape (joinPath segments) := by
  induction segments with
  | nil => rfl
  | cons s rest ih =>
      cases rest with
      | nil => simp [joinPath]
      | cons s' rest =>
          rw [List.map_cons, List.map_cons, joinPath_cons_cons, joinPath_cons_cons, ← List.map_cons,
            ih, EscapeSet.escape, EscapeSet.escape, EscapeSet.escape, List.flatMap_append,
            List.flatMap_cons, EscapeSet.escapeChar_eq_self (set.keeps '/' rfl)]
          rfl

/-- What is left of the segments holds neither `/` nor `\`. -/
theorem not_mem_of_mem_resolve {path t : List Char} (h : t ∈ resolve [] (pathSegments path)) :
    '/' ∉ t ∧ '\\' ∉ t := by
  rcases mem_resolve h with h | ⟨h, -⟩ | rfl
  · cases h
  · refine ⟨not_mem_of_mem_splitOn h, fun hc => ?_⟩
    obtain ⟨c, -, hc⟩ := List.mem_map.mp (subset_of_mem_splitOn h hc)
    split at hc
    · cases hc
    · exact absurd hc ‹_›
  · exact ⟨List.not_mem_nil, List.not_mem_nil⟩

/-! ### Delimiters -/

/-- A character that parts others: it is not escaped, and is in no escape. -/
structure IsDelimiter (d : Char) : Prop where
  uri : isUriChar d
  ne_percent : d ≠ '%'
  no_hex : hexValue d = none

theorem IsDelimiter.not_mem_escapeChar {c d : Char} (hd : IsDelimiter d) (hc : c ≠ d) :
    d ∉ set.escapeChar c := by
  intro h
  rcases EscapeSet.mem_escapeChar h with h | h | h
  · exact hc h.symm
  · exact hd.ne_percent h
  · exact h hd.no_hex

/-- Cutting at a delimiter cuts the escaped text in the same places. -/
theorem splitOn_escape {d : Char} (hd : IsDelimiter d) (s : List Char) :
    (set.escape s).splitOn d = (s.splitOn d).map set.escape := by
  induction s with
  | nil => rfl
  | cons c s ih =>
      rw [EscapeSet.escape_cons, List.splitOn_cons_eq_if_modifyHead]
      by_cases hc : c = d
      · subst hc
        rw [if_pos (beq_self_eq_true c), EscapeSet.escapeChar_eq_self (set.keeps c hd.uri),
          List.singleton_append, List.splitOn_cons_eq_if_modifyHead, if_pos (beq_self_eq_true c),
          ih]
        rfl
      · rw [if_neg (by simpa using hc), Utf8.splitOn_append (hd.not_mem_escapeChar hc), ih]
        cases s.splitOn d <;> rfl

theorem splitOnce_escape {d : Char} (hd : IsDelimiter d) (s : List Char) :
    splitOnce d (set.escape s) = (splitOnce d s).map (Prod.map set.escape set.escape) := by
  have hmem : ∀ k : List Char, d ∈ set.escape k → d ∈ k := fun k h =>
    by_contra fun hk => EscapeSet.not_mem_escape hd.ne_percent hd.no_hex hk h
  cases h : splitOnce d s with
  | none => exact splitOnce_eq_none.mpr fun hs => splitOnce_eq_none.mp h (hmem s hs)
  | some p =>
      obtain ⟨hk, rfl⟩ := splitOnce_eq_some.mp h
      refine splitOnce_eq_some.mpr ⟨fun hs => hk (hmem _ hs), ?_⟩
      rw [EscapeSet.escape, List.flatMap_append, List.flatMap_cons,
        EscapeSet.escapeChar_eq_self (set.keeps d hd.uri)]
      rfl

/-- The set without the space a `+` stands for. -/
def EscapeSet.sparingSpace (set : EscapeSet) : EscapeSet where
  escapes c := set.escapes c && c ≠ ' '
  keeps c hc := by rw [set.keeps c hc, Bool.false_and]

theorem EscapeSet.plusToSpace_escape {s : List Char} (hs : ' ' ∉ s) :
    plusToSpace (set.escape s) = set.sparingSpace.escape (plusToSpace s) := by
  induction s with
  | nil => rfl
  | cons c s ih =>
      rw [List.mem_cons, not_or] at hs
      have hplus : plusToSpace (set.escapeChar c) =
          set.sparingSpace.escapeChar (if c = '+' then ' ' else c) := by
        by_cases hc : c = '+'
        · subst hc
          rw [escapeChar_eq_self (set.keeps '+' rfl), if_pos rfl,
            escapeChar_eq_self (Bool.and_false _)]
          rfl
        · have hsame : set.sparingSpace.escapes c = set.escapes c := by
            change (set.escapes c && decide (c ≠ ' ')) = set.escapes c
            rw [decide_eq_true (Ne.symm hs.1), Bool.and_true]
          rw [if_neg hc, escapeChar, escapeChar, hsame]
          refine plusToSpace_eq_self fun h => ?_
          rcases mem_escapeChar h with h | h | h
          · exact hc h.symm
          · cases h
          · exact h rfl
      have ih := ih hs.2
      rw [plusToSpace] at ih hplus ⊢
      rw [escape_cons, List.map_append, hplus, ih]
      rfl

theorem formDecode_escape {s : List Char} (hs : ' ' ∉ s) :
    formDecode (set.escape s) = formDecode s := by
  rw [formDecode, EscapeSet.plusToSpace_escape hs, percentDecode_escape]
  rfl

/-- **The pairs of a query are the same escaped.** -/
theorem searchParams_escape {q : List Char} (hq : ' ' ∉ q) :
    searchParams (set.escape q) = searchParams q := by
  have hempty : ∀ s, (set.escape s).isEmpty = s.isEmpty := by
    intro s
    cases s with
    | nil => rfl
    | cons c s => rcases set.escapeChar_cases c with h | ⟨t, h⟩ <;> simp [EscapeSet.escape_cons, h]
  rw [searchParams, searchParams, splitOn_escape ⟨rfl, by decide, rfl⟩, List.filter_map,
    List.map_map]
  have hfilter : ((fun piece : List Char => !piece.isEmpty) ∘ set.escape) =
      fun piece => !piece.isEmpty := funext fun piece => congrArg _ (hempty piece)
  rw [hfilter]
  refine List.map_congr_left fun piece hpiece => ?_
  have hspace : ' ' ∉ piece := fun h => hq (subset_of_mem_splitOn (List.mem_filter.mp hpiece).1 h)
  rw [Function.comp_apply, formPair, formPair, splitOnce_escape ⟨rfl, by decide, rfl⟩]
  cases h : splitOnce '=' piece with
  | none => exact Prod.ext (formDecode_escape hspace) rfl
  | some p =>
      obtain ⟨-, rfl⟩ := splitOnce_eq_some.mp h
      rw [List.mem_append, List.mem_cons, not_or, not_or] at hspace
      exact Prod.ext (formDecode_escape hspace.1) (formDecode_escape hspace.2.2)

end Url
