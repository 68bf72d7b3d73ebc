import Outpunch.Library.Json

/-!
# Library — reading back a JSON text

`Json.parse` inverts `Json.render` on every value (`Json.parse_render`).  Each of the two machines
is followed over what the printer writes for a value: the scanner gives the tokens of the value and
goes on with the rest (`scan_renderChars`), and the second machine turns these tokens into the value
and goes on with the rest (`run_tokens`).  Both are inductions on the value.
-/

namespace Json

/-! ### Digits -/

theorem digitChar_value {d : Nat} (h : d < 10) : d.digitChar.toNat - 48 = d := by
  interval_cases d <;> rfl

theorem digitsValue_append_digit (ds : List Char) {d : Nat} (h : d < 10) :
    digitsValue (ds ++ [d.digitChar]) = 10 * digitsValue ds + d := by
  simp [digitsValue, List.foldl_append, digitChar_value h]

theorem digitsValue_toDigits (n : Nat) : digitsValue (Nat.toDigits 10 n) = n := by
  induction n using Nat.strong_induction_on with
  | h n ih =>
  rw [Nat.toDigits_eq_if (by decide)]
  split
  · rename_i h
    exact (digitsValue_append_digit [] h).trans (Nat.zero_add n)
  · rename_i h
    rw [digitsValue_append_digit _ (Nat.mod_lt n (by decide)), ih _ (by omega)]
    omega

/-- The digits of a number that is not zero do not start with a zero. -/
theorem toDigits_head (n : Nat) (hn : 0 < n) :
    ∃ c cs, Nat.toDigits 10 n = c :: cs ∧ c ≠ '0' := by
  induction n using Nat.strong_induction_on with
  | h n ih =>
  rw [Nat.toDigits_eq_if (by decide)]
  split
  · rename_i h
    refine ⟨_, [], rfl, ?_⟩
    interval_cases n <;> decide
  · rename_i h
    obtain ⟨c, cs, hcs, hc⟩ := ih (n / 10) (by omega) (by omega)
    exact ⟨c, cs ++ [(n % 10).digitChar], by rw [hcs]; rfl, hc⟩

theorem isNatural_cons {c : Char} {cs : List Char} (hc : c ≠ '0')
    (hd : ∀ d ∈ c :: cs, d.isDigit) : isNatural (c :: cs) := by
  unfold isNatural
  split
  · rename_i h; cases h
  · rfl
  · rename_i h
    cases h
    simp only [Bool.and_eq_true, decide_eq_true_eq, List.all_eq_true]
    exact ⟨hc, hd⟩

theorem isNatural_toDigits (n : Nat) : isNatural (Nat.toDigits 10 n) := by
  rcases Nat.eq_zero_or_pos n with rfl | hn
  · rfl
  · obtain ⟨c, cs, hcs, hc⟩ := toDigits_head n hn
    have hd : ∀ d ∈ Nat.toDigits 10 n, d.isDigit := fun d hd =>
      Nat.isDigit_of_mem_toDigits (by decide) (by decide) hd
    rw [hcs] at hd ⊢
    exact isNatural_cons hc hd

/-! ### Words -/

theorem natural_ne {w : List Char} (h : isNatural w) {text : List Char}
    (ht : isNatural text = false) : w ≠ text := by
  rintro rfl
  rw [ht] at h; cases h

theorem wordValue_natural {w : List Char} (h : isNatural w) :
    wordValue w = some (int (digitsValue w)) := by
  unfold wordValue
  rw [if_neg (natural_ne h rfl), if_neg (natural_ne h rfl), if_neg (natural_ne h rfl), if_pos h]

theorem isNatural_minus (ds : List Char) : isNatural ('-' :: ds) = false := by
  unfold isNatural
  split
  · rfl
  · rename_i h; cases h
  · rename_i h
    cases h
    simp [Char.isDigit]

theorem wordValue_negative {ds : List Char} (h : isNatural ds) (h0 : ds ≠ ['0']) :
    wordValue ('-' :: ds) = some (int (-digitsValue ds)) := by
  unfold wordValue
  rw [if_neg (by simp), if_neg (by simp), if_neg (by simp), if_neg (by simp [isNatural_minus]),
    if_pos ⟨rfl, h0, h⟩]
  rfl

theorem wordValue_renderInt (n : Int) : wordValue (renderInt n) = some (int n) := by
  cases n with
  | ofNat n =>
      rw [renderInt, wordValue_natural (isNatural_toDigits n), digitsValue_toDigits]
      rfl
  | negSucc n =>
      rw [renderInt, wordValue_negative (isNatural_toDigits (n + 1)), digitsValue_toDigits]
      · rfl
      · intro h
        obtain ⟨c, cs, hcs, hc⟩ := toDigits_head (n + 1) (Nat.succ_pos n)
        rw [h] at hcs
        cases hcs
        exact hc rfl

/-- An integer is no float literal: nothing follows its digits. -/
theorem isFraction_dropWhile_of_natural {ds : List Char} (h : isNatural ds) :
    isFraction (ds.dropWhile Char.isDigit) = false := by
  have hall : ∀ d ∈ ds, d.isDigit := by
    unfold isNatural at h
    split at h
    · cases h
    · simp [Char.isDigit]
    · simp only [Bool.and_eq_true, List.all_eq_true] at h
      exact h.2
  rw [List.dropWhile_eq_nil_iff.mpr hall]
  rfl

theorem wordValue_float (l : FloatLiteral) : wordValue l.chars = some (float l) := by
  obtain ⟨w, hw⟩ := l
  have hchars : w.all isNumberChar := (Bool.and_eq_true _ _ ▸ hw).1
  have hne : ∀ text : List Char, text.all isNumberChar = false → w ≠ text := by
    rintro text ht rfl
    rw [ht] at hchars; cases hchars
  have hnat : isNatural w = false := by
    by_contra hn
    have hn : isNatural w := by simpa using hn
    have hminus : w.head? ≠ some '-' := by
      intro hm
      obtain ⟨ds, rfl⟩ : ∃ ds, w = '-' :: ds := by
        cases w with
        | nil => cases hm
        | cons c ds => cases hm; exact ⟨ds, rfl⟩
      rw [isNatural_minus] at hn; cases hn
    have h0 : w ≠ ['-', '0'] := fun e => hminus (by rw [e]; rfl)
    simp only [isFloatLiteral, hchars, h0, hminus, if_neg, decide_false,
      Bool.false_or, isFraction_dropWhile_of_natural hn, Bool.and_false, Bool.false_eq_true,
      not_false_eq_true] at hw
  have hneg : ¬ (w.head? = some '-' ∧ w.tail ≠ ['0'] ∧ isNatural w.tail) := by
    rintro ⟨hm, ht, hn⟩
    have h0 : w ≠ ['-', '0'] := fun e => ht (by rw [e]; rfl)
    simp only [isFloatLiteral, hchars, h0, hm, if_pos, decide_false,
      Bool.false_or, isFraction_dropWhile_of_natural hn, Bool.and_false, Bool.false_eq_true] at hw
  unfold wordValue
  rw [if_neg (hne _ rfl), if_neg (hne _ rfl), if_neg (hne _ rfl), if_neg (by simp [hnat]),
    if_neg hneg, dif_pos hw]

/-! ### The scanner -/

/-- A character a word ends at. -/
def isDelim (c : Char) : Bool := isSpace c || (Token.punct c).isSome || c = '"'

/-- What follows a word: nothing, or a character it ends at. -/
def Delim (cs : List Char) : Prop := ∀ c ∈ cs.head?, isDelim c

theorem delim_cons {c : Char} {cs : List Char} (h : isDelim c) : Delim (c :: cs) := by
  intro d hd
  cases hd
  exact h

theorem run_cons (s : Scan) (c : Char) (cs : List Char) :
    s.run (c :: cs) = (s.step c).bind fun p => (p.2.run cs).map (p.1 ++ ·) := by
  rw [Scan.run]
  cases s.step c with
  | none => rfl
  | some p =>
      obtain ⟨ts, s'⟩ := p
      show (do let ts' ← s'.run cs; return ts ++ ts') = (s'.run cs).map (ts ++ ·)
      cases s'.run cs <;> rfl

theorem run_punct {c : Char} {t : Token} (hs : isSpace c = false) (ht : Token.punct c = some t)
    (cs : List Char) : Scan.plain.run (c :: cs) = (Scan.plain.run cs).map (t :: ·) := by
  simp [run_cons, Scan.step, Scan.stepPlain, hs, ht]

theorem run_word_acc (w acc rest : List Char) (h : ∀ c ∈ w, isDelim c = false) :
    (Scan.word acc).run (w ++ rest) = (Scan.word (w.reverse ++ acc)).run rest := by
  induction w generalizing acc with
  | nil => rfl
  | cons c w ih =>
      have hc : isDelim c = false := h c (by simp)
      rw [List.cons_append, run_cons, Scan.step, ← isDelim.eq_1, hc]
      simp [ih (c :: acc) fun d hd => h d (by simp [hd])]

/-- A word read as a literal, and the rest. -/
theorem run_word {w rest : List Char} {v : Json} (hw : wordValue w = some v)
    (h : ∀ c ∈ w, isDelim c = false) (hne : w ≠ []) (hrest : Delim rest) :
    Scan.plain.run (w ++ rest) = (Scan.plain.run rest).map (.lit v :: ·) := by
  obtain ⟨c, w', rfl⟩ := List.exists_cons_of_ne_nil hne
  have hc : isDelim c = false := h c (by simp)
  simp only [isDelim, Bool.or_eq_false_iff, Option.isSome_eq_false_iff, Option.isNone_iff_eq_none,
    decide_eq_false_iff_not] at hc
  obtain ⟨⟨hsp, hpu⟩, hq⟩ := hc
  have hstep : Scan.plain.step c = some ([], .word [c]) := by
    simp [Scan.step, Scan.stepPlain, hsp, hpu, hq]
  rw [List.cons_append, run_cons, hstep, Option.bind_some, run_word_acc w' _ rest
    fun d hd => h d (by simp [hd])]
  cases rest with
  | nil => simp [Scan.run, Scan.finish, hw]
  | cons d rest =>
      have hd : isDelim d := hrest d rfl
      rw [run_cons, Scan.step, ← isDelim.eq_1, if_pos hd, run_cons, Scan.step]
      simp only [List.reverse_append, List.reverse_reverse, List.reverse_singleton,
        List.singleton_append, hw]
      cases Scan.stepPlain d with
      | none => rfl
      | some p => cases hp : p.2.run rest <;> simp [hp]

theorem hexValue_hexDigit {d : Nat} (h : d < 16) : hexValue (hexDigit d) = some d := by
  interval_cases d <;> decide

/-- A step of the scanner that gives no token. -/
theorem run_silent {s t : Scan} {c : Char} (h : s.step c = some ([], t)) (cs : List Char) :
    s.run (c :: cs) = t.run cs := by
  rw [run_cons, h]
  cases hr : t.run cs <;> simp [hr]

theorem run_escape_letter {c d : Char} (hd : Scan.escaped d = some c) (hu : d ≠ 'u')
    (acc rest : List Char) :
    (Scan.str acc).run ('\\' :: d :: rest) = (Scan.str (c :: acc)).run rest := by
  rw [run_silent (by simp [Scan.step]; rfl), run_silent (by simp [Scan.step, hu, hd]; rfl)]

/-- A control character, escaped by its number. -/
theorem run_escape_control {c : Char} (hc : c.toNat < 32) (acc rest : List Char) :
    (Scan.str acc).run ('\\' :: 'u' :: '0' :: '0' :: hexDigit (c.toNat / 16) ::
      hexDigit (c.toNat % 16) :: rest) = (Scan.str (c :: acc)).run rest := by
  have h0 : hexValue '0' = some 0 := by decide
  have h₁ := hexValue_hexDigit (d := c.toNat / 16) (by omega)
  have h₂ := hexValue_hexDigit (d := c.toNat % 16) (by omega)
  have hv : 16 * (c.toNat / 16) + c.toNat % 16 = c.toNat := by omega
  have hlt : c.toNat < 0xD800 := by omega
  rw [run_silent (t := .esc acc) (by simp [Scan.step]),
    run_silent (t := .hex acc none 4 0) (by simp [Scan.step]),
    run_silent (t := .hex acc none 3 0) (by simp [Scan.step, h0]),
    run_silent (t := .hex acc none 2 0) (by simp [Scan.step, h0]),
    run_silent (t := .hex acc none 1 (c.toNat / 16)) (by simp [Scan.step, h₁]),
    run_silent (t := .str (c :: acc)) (by simp [Scan.step, h₂, hv, Scan.unescape, hlt])]

theorem run_escape (c : Char) (acc rest : List Char) :
    (Scan.str acc).run (escape c ++ rest) = (Scan.str (c :: acc)).run rest := by
  unfold escape
  split
  · subst_vars; exact run_escape_letter rfl (by decide) acc rest
  split
  · subst_vars; exact run_escape_letter rfl (by decide) acc rest
  split
  · subst_vars; exact run_escape_letter rfl (by decide) acc rest
  split
  · subst_vars; exact run_escape_letter rfl (by decide) acc rest
  split
  · subst_vars; exact run_escape_letter rfl (by decide) acc rest
  split
  · subst_vars; exact run_escape_letter rfl (by decide) acc rest
  split
  · subst_vars; exact run_escape_letter rfl (by decide) acc rest
  split
  · rename_i hc
    exact run_escape_control hc acc rest
  · rename_i hq hb _ _ _ _ _ hc
    exact run_silent (by simp [Scan.step, hq, hb, hc]) rest

theorem run_escapes (cs acc rest : List Char) :
    (Scan.str acc).run (cs.flatMap escape ++ rest) = (Scan.str (cs.reverse ++ acc)).run rest := by
  induction cs generalizing acc with
  | nil => rfl
  | cons c cs ih =>
      rw [List.flatMap_cons, List.append_assoc, run_escape, ih, List.reverse_cons,
        List.append_assoc, List.singleton_append]

theorem run_renderString (s : String) (rest : List Char) :
    Scan.plain.run (renderString s ++ rest) =
      (Scan.plain.run rest).map (.lit (.str s) :: ·) := by
  rw [renderString, List.cons_append, run_silent (t := .str []) rfl, List.append_assoc,
    run_escapes, List.singleton_append, run_cons]
  simp [Scan.step, String.ofList_toList]

/-! ### The tokens of a value -/

mutual

def tokens : Json → List Token
  | array items => .lbracket :: itemTokens items
  | object members => .lbrace :: memberTokens members
  | v => [.lit v]

def itemTokens : List Json → List Token
  | [] => [.rbracket]
  | v :: rest => tokens v ++ moreItemTokens rest

def moreItemTokens : List Json → List Token
  | [] => [.rbracket]
  | v :: rest => .comma :: (tokens v ++ moreItemTokens rest)

def memberTokens : List (String × Json) → List Token
  | [] => [.rbrace]
  | (k, v) :: rest => .lit (.str k) :: .colon :: (tokens v ++ moreMemberTokens rest)

def moreMemberTokens : List (String × Json) → List Token
  | [] => [.rbrace]
  | (k, v) :: rest => .comma :: .lit (.str k) :: .colon :: (tokens v ++ moreMemberTokens rest)

end

theorem not_isDelim_of_numberChar {c : Char} (h : isNumberChar c) : isDelim c = false := by
  simp only [isNumberChar, Bool.or_eq_true, decide_eq_true_eq] at h
  rcases h with ((((h | rfl) | rfl) | rfl) | rfl) | rfl
  · have hc : ∀ d : Char, d.isDigit = false → c ≠ d := by
      rintro d hd rfl
      rw [hd] at h; cases h
    have hpu : Token.punct c = none := by
      unfold Token.punct
      split
      iterate 6 exact absurd rfl (hc _ rfl)
      rfl
    simp [isDelim, isSpace, hpu, hc ' ' rfl, hc '\n' rfl, hc '\r' rfl, hc '\t' rfl, hc '"' rfl]
  all_goals rfl

theorem digit_of_mem_renderInt {n : Int} {c : Char} (h : c ∈ renderInt n) : isNumberChar c := by
  have digit : ∀ {m : Nat}, c ∈ Nat.toDigits 10 m → isNumberChar c := by
    intro _ h
    have hd : c.isDigit := Nat.isDigit_of_mem_toDigits (by decide) (by decide) h
    simp [isNumberChar, hd]
  cases n with
  | ofNat n => exact digit h
  | negSucc n =>
      rcases List.mem_cons.mp h with rfl | h
      · rfl
      · exact digit h

theorem renderInt_ne_nil (n : Int) : renderInt n ≠ [] := by
  cases n with
  | ofNat n =>
      intro h
      have := isNatural_toDigits n
      rw [show Nat.toDigits 10 n = [] from h] at this
      cases this
  | negSucc n => simp [renderInt]

theorem scan_map_map (o : Option (List Token)) (l₁ l₂ : List Token) :
    (o.map (l₂ ++ ·)).map (l₁ ++ ·) = o.map (l₁ ++ l₂ ++ ·) := by
  cases o <;> simp

theorem delim_moreItems (items : List Json) (rest : List Char) :
    Delim (renderMoreItems items ++ rest) := by
  cases items <;> exact delim_cons rfl

theorem delim_moreMembers (members : List (String × Json)) (rest : List Char) :
    Delim (renderMoreMembers members ++ rest) := by
  cases members <;> exact delim_cons rfl

mutual

/-- The scanner over the text of a value. -/
theorem scan_renderChars (v : Json) {rest : List Char} (hrest : Delim rest) :
    Scan.plain.run (renderChars v ++ rest) = (Scan.plain.run rest).map (tokens v ++ ·) := by
  match v with
  | null =>
      rw [renderChars]
      exact run_word rfl (by simp [isDelim, isSpace, Token.punct]) (by simp) hrest
  | bool true =>
      rw [renderChars]
      exact run_word rfl (by simp [isDelim, isSpace, Token.punct]) (by simp) hrest
  | bool false =>
      rw [renderChars]
      exact run_word rfl (by simp [isDelim, isSpace, Token.punct]) (by simp) hrest
  | int n =>
      exact run_word (wordValue_renderInt n)
        (fun c hc => not_isDelim_of_numberChar (digit_of_mem_renderInt hc)) (renderInt_ne_nil n)
        hrest
  | float l =>
      refine run_word (wordValue_float l) (fun c hc => not_isDelim_of_numberChar ?_) ?_ hrest
      · exact List.all_eq_true.mp (Bool.and_eq_true _ _ ▸ l.valid).1 c hc
      · intro h
        have := l.valid
        rw [show l.chars = [] from h] at this
        cases this
  | str s => exact run_renderString s rest
  | array items =>
      rw [renderChars, List.cons_append, run_punct rfl rfl, scan_renderItems items]
      exact scan_map_map _ [.lbracket] _
  | object members =>
      rw [renderChars, List.cons_append, run_punct rfl rfl, scan_renderMembers members]
      exact scan_map_map _ [.lbrace] _

theorem scan_renderItems (items : List Json) (rest : List Char) :
    Scan.plain.run (renderItems items ++ rest) =
      (Scan.plain.run rest).map (itemTokens items ++ ·) := by
  match items with
  | [] => exact run_punct rfl rfl rest
  | v :: items =>
      rw [renderItems, List.append_assoc, scan_renderChars v (delim_moreItems items rest),
        scan_renderMoreItems items, scan_map_map]
      rfl

theorem scan_renderMoreItems (items : List Json) (rest : List Char) :
    Scan.plain.run (renderMoreItems items ++ rest) =
      (Scan.plain.run rest).map (moreItemTokens items ++ ·) := by
  match items with
  | [] => exact run_punct rfl rfl rest
  | v :: items =>
      rw [renderMoreItems, List.cons_append, run_punct rfl rfl, List.append_assoc,
        scan_renderChars v (delim_moreItems items rest), scan_renderMoreItems items, scan_map_map]
      exact scan_map_map _ [.comma] _

theorem scan_renderMembers (members : List (String × Json)) (rest : List Char) :
    Scan.plain.run (renderMembers members ++ rest) =
      (Scan.plain.run rest).map (memberTokens members ++ ·) := by
  match members with
  | [] => exact run_punct rfl rfl rest
  | (k, v) :: members =>
      rw [renderMembers, List.append_assoc, run_renderString, List.cons_append,
        run_punct rfl rfl, List.append_assoc, scan_renderChars v (delim_moreMembers members rest),
        scan_renderMoreMembers members, scan_map_map]
      exact (congrArg _ (scan_map_map _ [.colon] _)).trans (scan_map_map _ [.lit (.str k)] _)

theorem scan_renderMoreMembers (members : List (String × Json)) (rest : List Char) :
    Scan.plain.run (renderMoreMembers members ++ rest) =
      (Scan.plain.run rest).map (moreMemberTokens members ++ ·) := by
  match members with
  | [] => exact run_punct rfl rfl rest
  | (k, v) :: members =>
      rw [renderMoreMembers, List.cons_append, run_punct rfl rfl, List.append_assoc,
        run_renderString, List.cons_append, run_punct rfl rfl, List.append_assoc,
        scan_renderChars v (delim_moreMembers members rest), scan_renderMoreMembers members,
        scan_map_map]
      refine (congrArg _ ((congrArg _ (scan_map_map _ [.colon] _)).trans
        (scan_map_map _ [.lit (.str k)] _))).trans (scan_map_map _ [.comma] _)

end

/-! ### The value of the tokens -/

mutual

/-- The second machine over the tokens of a value. -/
theorem run_tokens (v : Json) (stack : List Frame) {e : Expect} (he : e = .value ∨ e = .items)
    (ts : List Token) :
    Expect.run stack e (tokens v ++ ts) = Expect.run stack (.more v) ts := by
  match v with
  | null | bool _ | int _ | float _ | str _ => rcases he with rfl | rfl <;> rfl
  | array items =>
      rw [tokens, List.cons_append, ← run_itemTokens items stack ts]
      rcases he with rfl | rfl <;> rfl
  | object members =>
      rw [tokens, List.cons_append, ← run_memberTokens members stack ts]
      rcases he with rfl | rfl <;> rfl

theorem run_itemTokens (items : List Json) (stack : List Frame) (ts : List Token) :
    Expect.run (.array [] :: stack) .items (itemTokens items ++ ts) =
      Expect.run stack (.more (.array items)) ts := by
  match items with
  | [] => rfl
  | v :: items =>
      rw [itemTokens, List.append_assoc, run_tokens v _ (.inr rfl),
        run_moreItemTokens items v [] stack ts]
      rfl

theorem run_moreItemTokens (items : List Json) (v : Json) (xs : List Json) (stack : List Frame)
    (ts : List Token) :
    Expect.run (.array xs :: stack) (.more v) (moreItemTokens items ++ ts) =
      Expect.run stack (.more (.array ((v :: xs).reverse ++ items))) ts := by
  match items with
  | [] => rw [List.append_nil]; rfl
  | v' :: items =>
      have ih := run_moreItemTokens items v' (v :: xs) stack ts
      rw [moreItemTokens, List.cons_append, List.append_assoc]
      refine (run_tokens v' (.array (v :: xs) :: stack) (.inl rfl) _).trans (ih.trans ?_)
      rw [List.reverse_cons, List.append_assoc, List.singleton_append]

theorem run_memberTokens (members : List (String × Json)) (stack : List Frame)
    (ts : List Token) :
    Expect.run (.object [] :: stack) .members (memberTokens members ++ ts) =
      Expect.run stack (.more (.object members)) ts := by
  match members with
  | [] => rfl
  | (k, v) :: members =>
      have ih := run_moreMemberTokens members k v [] stack ts
      rw [memberTokens, List.cons_append, List.cons_append, List.append_assoc]
      exact (run_tokens v (.member k :: .object [] :: stack) (.inl rfl) _).trans ih

theorem run_moreMemberTokens (members : List (String × Json)) (k : String) (v : Json)
    (ms : List (String × Json)) (stack : List Frame) (ts : List Token) :
    Expect.run (.member k :: .object ms :: stack) (.more v) (moreMemberTokens members ++ ts) =
      Expect.run stack (.more (.object (((k, v) :: ms).reverse ++ members))) ts := by
  match members with
  | [] => rw [List.append_nil]; rfl
  | (k', v') :: members =>
      have ih := run_moreMemberTokens members k' v' ((k, v) :: ms) stack ts
      rw [moreMemberTokens, List.cons_append, List.cons_append, List.cons_append,
        List.append_assoc]
      refine (run_tokens v' (.member k' :: .object ((k, v) :: ms) :: stack) (.inl rfl) _).trans
        (ih.trans ?_)
      rw [List.reverse_cons, List.append_assoc, List.singleton_append]

end

/-- **A text that was written is read back.** -/
theorem parse_render (v : Json) : parse (render v) = some v := by
  have hscan := @scan_renderChars v [] (by intro c hc; cases hc)
  have hrun := run_tokens v [] (.inl rfl) []
  rw [List.append_nil] at hscan hrun
  rw [parse, render, String.toList_ofList, hscan]
  simpa [Scan.run, Scan.finish, Expect.run, Expect.finish] using hrun

example : (parse "\x7b\"a\": [1, \"\\u00e9\"], \"b\": null\x7d").map render =
    some "\x7b\"a\":[1,\"é\"],\"b\":null\x7d" := by decide +kernel

end Json
