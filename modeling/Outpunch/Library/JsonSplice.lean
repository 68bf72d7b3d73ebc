import Outpunch.Library.JsonRoundTrip

/-!
# Library — a text spliced into JSON

A text put between quotes as it is reads back as itself exactly when no character of it needs an
escape (`Json.parse_splice_iff`).  The scanner takes at least one character for each it gives, two
for the quotes, and more for an escape (`Json.run_inString`), so a literal as long as the text has
no escape in it (`Json.plain_of_run`).  What comes first in an object stays first
(`Json.run_firstMember`).
-/

namespace Json

/-- A string literal writes the character as it is. -/
def isPlainChar (c : Char) : Bool := c ≠ '"' && c ≠ '\\' && decide (32 ≤ c.toNat)

theorem isPlainChar_iff {c : Char} :
    isPlainChar c ↔ c ≠ '"' ∧ c ≠ '\\' ∧ 32 ≤ c.toNat := by
  simp [isPlainChar, and_assoc]

/-- No character of the text needs an escape. -/
def isPlainText (s : String) : Bool := s.toList.all isPlainChar

/-- An object whose one member has the text between quotes for its value. -/
def splice (key text : String) : String :=
  String.ofList ('\x7b' :: (renderString key ++ ':' :: '"' :: (text.toList ++ ['"', '\x7d'])))

/-! ### The length of a literal -/

/-- Inside a string: how many characters of it were read. -/
def Scan.inString : Scan → Option Nat
  | .str acc | .esc acc | .hex acc _ _ _ | .pair acc _ _ => some acc.length
  | _ => none

theorem unescape_inString {acc : List Char} {lead : Option Nat} {value : Nat} {s : Scan}
    (h : Scan.unescape acc lead value = some s) :
    ∃ m, s.inString = some m ∧ m ≤ acc.length + 1 := by
  unfold Scan.unescape at h
  split at h
  · split at h
    · cases h
      exact ⟨_, rfl, Nat.le_refl _⟩
    · split at h
      · cases h
        exact ⟨_, rfl, Nat.le_succ _⟩
      · cases h
  · split at h
    · cases h
      exact ⟨_, rfl, Nat.le_refl _⟩
    · cases h

/-- A character inside a string adds at most one to it, or ends it. -/
theorem step_inString {s s' : Scan} {n : Nat} {c : Char} {out : List Token}
    (hs : s.inString = some n) (h : s.step c = some (out, s')) :
    (out = [] ∧ ∃ m, s'.inString = some m ∧ m ≤ n + 1) ∨
      (∃ t : String, out = [.lit (.str t)] ∧ t.toList.length = n ∧ s' = .plain) := by
  cases s with
  | plain | word _ => cases hs
  | str acc =>
      cases hs
      simp only [Scan.step] at h
      split at h
      · cases h
        exact .inr ⟨_, rfl, by simp, rfl⟩
      · split at h
        · cases h
          exact .inl ⟨rfl, _, rfl, Nat.le_succ _⟩
        · split at h
          · cases h
          · cases h
            exact .inl ⟨rfl, _, rfl, Nat.le_refl _⟩
  | esc acc =>
      cases hs
      simp only [Scan.step] at h
      split at h
      · cases h
        exact .inl ⟨rfl, _, rfl, Nat.le_succ _⟩
      · obtain ⟨d, -, hd⟩ := Option.map_eq_some_iff.mp h
        cases hd
        exact .inl ⟨rfl, _, rfl, Nat.le_refl _⟩
  | hex acc lead left value =>
      cases hs
      simp only [Scan.step, Option.bind_eq_bind, Option.bind_eq_some_iff] at h
      obtain ⟨d, -, h⟩ := h
      split at h
      · obtain ⟨s'', hs'', h⟩ := Option.bind_eq_some_iff.mp h
        cases h
        exact .inl ⟨rfl, unescape_inString hs''⟩
      · cases h
        exact .inl ⟨rfl, _, rfl, Nat.le_succ _⟩
  | pair acc lead slash =>
      cases hs
      cases slash with
      | false | true =>
          obtain ⟨-, h⟩ := Option.ite_none_right_eq_some.mp h
          cases h
          exact .inl ⟨rfl, _, rfl, Nat.le_succ _⟩

/-- A string that is followed by something is shorter than what it is read from. -/
theorem run_inString {s : Scan} {n : Nat} {cs : List Char} {ts : List Token}
    (hs : s.inString = some n) (h : s.run cs = some ts) :
    ∃ (t : String) (ts' : List Token), ts = .lit (.str t) :: ts' ∧
      (ts' ≠ [] → t.toList.length + 2 ≤ n + cs.length) := by
  induction cs generalizing s n ts with
  | nil =>
      rw [Scan.run] at h
      cases s with
      | plain | word _ => cases hs
      | str _ | esc _ | hex _ _ _ _ | pair _ _ _ => cases h
  | cons c cs ih =>
      rw [run_cons] at h
      obtain ⟨⟨out, s'⟩, hstep, h⟩ := Option.bind_eq_some_iff.mp h
      obtain ⟨ts', hrun, rfl⟩ := Option.map_eq_some_iff.mp h
      rcases step_inString hs hstep with ⟨rfl, m, hm, hle⟩ | ⟨t, rfl, rfl, rfl⟩
      · obtain ⟨t, ts'', rfl, hlen⟩ := ih hm hrun
        refine ⟨t, ts'', rfl, fun hne => ?_⟩
        have hlen := hlen hne
        rw [List.length_cons]
        omega
      · refine ⟨t, ts', rfl, fun hne => ?_⟩
        cases cs with
        | nil => cases hrun; exact absurd rfl hne
        | cons d cs => simp only [List.length_cons]; omega

/-- A literal of the length of the text it is read from begins without an escape. -/
theorem plain_head_of_run {acc cs r : List Char} {c : Char} {t : String} {ts : List Token}
    (hrest : r.length ≤ 2) (hts : ts ≠ [])
    (hlen : t.toList.length = acc.length + (cs.length + 1))
    (h : (Scan.str acc).run (c :: (cs ++ r)) = some (.lit (.str t) :: ts)) : isPlainChar c := by
  by_contra hno
  rw [run_cons] at h
  obtain ⟨⟨out, s'⟩, hstep, h⟩ := Option.bind_eq_some_iff.mp h
  obtain ⟨ts', hrun, heq⟩ := Option.map_eq_some_iff.mp h
  simp only [Scan.step] at hstep
  by_cases hq : c = '"'
  · -- the literal ends here
    rw [if_pos hq] at hstep
    cases hstep
    cases heq
    simp at hlen
  rw [if_neg hq] at hstep
  by_cases hb : c = '\\'
  · -- the escape takes a character the literal lacks
    rw [if_pos hb] at hstep
    cases hstep
    cases heq
    obtain ⟨t', ts'', heq, hle⟩ := run_inString (n := acc.length) rfl hrun
    cases heq
    have hle := hle hts
    rw [List.length_append] at hle
    omega
  rw [if_neg hb] at hstep
  by_cases hlt : c.toNat < 32
  · rw [if_pos hlt] at hstep
    cases hstep
  · exact hno (isPlainChar_iff.mpr ⟨hq, hb, Nat.le_of_not_lt hlt⟩)

/-- A literal of the length of the text it is read from has no escape. -/
theorem plain_of_run {acc cs r : List Char} {t : String} {ts : List Token}
    (hrest : r.length ≤ 2) (hts : ts ≠ []) (hlen : t.toList.length = acc.length + cs.length)
    (h : (Scan.str acc).run (cs ++ r) = some (.lit (.str t) :: ts)) :
    ∀ c ∈ cs, isPlainChar c := by
  induction cs generalizing acc with
  | nil => exact fun _ hc => absurd hc List.not_mem_nil
  | cons c cs ih =>
      rw [List.length_cons] at hlen
      rw [List.cons_append] at h
      have hc : isPlainChar c := plain_head_of_run hrest hts hlen h
      obtain ⟨hq, hb, hlt⟩ := isPlainChar_iff.mp hc
      have hstep : (Scan.str acc).step c = some ([], .str (c :: acc)) := by
        simp only [Scan.step, if_neg hq, if_neg hb, if_neg (Nat.not_lt.mpr hlt)]
      rw [run_silent hstep] at h
      have hrec := ih (by rw [List.length_cons]; omega) h
      intro d hd
      rcases List.mem_cons.mp hd with rfl | hd
      · exact hc
      · exact hrec d hd

/-! ### Plain texts -/

theorem escape_of_plain {c : Char} (h : isPlainChar c) : escape c = [c] := by
  obtain ⟨hq, hb, hlt⟩ := isPlainChar_iff.mp h
  have hne : ∀ d : Char, d.toNat < 32 → c ≠ d := by
    rintro d hd rfl
    exact absurd hd (Nat.not_lt.mpr hlt)
  unfold escape
  rw [if_neg hq, if_neg hb, if_neg (hne _ (by decide)), if_neg (hne _ (by decide)),
    if_neg (hne _ (by decide)), if_neg (hne _ (by decide)), if_neg (hne _ (by decide)),
    if_neg (Nat.not_lt.mpr hlt)]

/-- A plain text is its own literal. -/
theorem renderString_of_plain {s : String} (h : isPlainText s) :
    renderString s = '"' :: (s.toList ++ ['"']) := by
  have hescape : s.toList.flatMap escape = s.toList := by
    rw [List.flatMap_congr fun c hc => escape_of_plain (List.all_eq_true.mp h c hc),
      List.flatMap_singleton']
  rw [renderString, hescape]

/-! ### The first member of an object -/

/-- The outermost object has this member first. -/
inductive FirstMember (p : String × Json) : List Frame → Expect → Prop
  | inside {s : List Frame} {m : List (String × Json)} {e : Expect} :
      FirstMember p (s ++ [.object (m ++ [p])]) e
  | complete {members : List (String × Json)} :
      FirstMember p [] (.more (.object (p :: members)))

section

variable {p : String × Json} {stack stack' : List Frame} {members : List (String × Json)}
  {e e' : Expect} {t : Token} {v : Json}

/-- A container that is opened is inside. -/
theorem firstMember_stepValue
    (h : Expect.stepValue (stack ++ [.object (members ++ [p])]) t = some (stack', e')) :
    FirstMember p stack' e' := by
  unfold Expect.stepValue at h
  split at h
  · cases h
    exact .inside
  · cases h
    exact .inside (s := .array [] :: stack)
  · cases h
    exact .inside (s := .object [] :: stack)
  · cases h

/-- A value that is complete ends a container inside the object, or is one of its members. -/
theorem firstMember_stepMore
    (h : Expect.stepMore v (stack ++ [.object (members ++ [p])]) t = some (stack', e')) :
    FirstMember p stack' e' := by
  match stack with
  | [] => cases h
  | .array xs :: stack =>
      cases t with
      | comma => cases h; exact .inside (s := .array (v :: xs) :: stack)
      | rbracket => cases h; exact .inside
      | _ => cases h
  | .object _ :: _ => cases h
  | [.member k] =>
      cases t with
      | comma => cases h; exact .inside (s := []) (m := (k, v) :: members)
      | rbrace =>
          cases h
          have hrev : ((k, v) :: (members ++ [p])).reverse =
              p :: (members.reverse ++ [(k, v)]) := by simp
          rw [hrev]
          exact .complete
      | _ => cases h
  | .member k :: .object ms :: stack =>
      cases t with
      | comma => cases h; exact .inside (s := .object ((k, v) :: ms) :: stack)
      | rbrace => cases h; exact .inside
      | _ => cases h
  | .member _ :: .array _ :: _ | .member _ :: .member _ :: _ => cases h

/-- An empty container is not the object. -/
theorem firstMember_of_empty {f : Frame}
    (h : stack ++ [.object (members ++ [p])] = f :: stack') (hf : f = .array [] ∨ f = .object []) :
    FirstMember p stack' e := by
  cases stack with
  | nil =>
      cases h
      simp at hf
  | cons g stack =>
      cases h
      exact .inside

/-- **What comes first in an object stays first.** -/
theorem FirstMember.step (hf : FirstMember p stack e) (h : e.step stack t = some (stack', e')) :
    FirstMember p stack' e' := by
  cases hf with
  | complete => cases t <;> cases h
  | @inside stack members =>
      unfold Expect.step at h
      split at h
      · exact firstMember_stepValue h
      · split at h
        · rename_i htop
          cases h
          exact firstMember_of_empty htop (.inl rfl)
        · cases h
      · exact firstMember_stepValue h
      · cases h
        exact .inside
      · cases h
        exact .inside
      · split at h
        · rename_i htop
          cases h
          exact firstMember_of_empty htop (.inr rfl)
        · cases h
      · cases h
        exact .inside (s := .member _ :: stack)
      · exact firstMember_stepMore h
      · cases h

theorem run_token {ts : List Token} (h : Expect.run stack e (t :: ts) = some v) :
    ∃ stack' e', e.step stack t = some (stack', e') ∧ Expect.run stack' e' ts = some v := by
  rw [Expect.run] at h
  obtain ⟨⟨stack', e'⟩, hstep, hrun⟩ := Option.bind_eq_some_iff.mp h
  exact ⟨stack', e', hstep, hrun⟩

theorem run_firstMember {ts : List Token} (hf : FirstMember p stack e)
    (h : Expect.run stack e ts = some v) : ∃ members, v = .object (p :: members) := by
  induction ts generalizing stack e with
  | nil =>
      rw [Expect.run] at h
      cases hf with
      | complete => cases h; exact ⟨_, rfl⟩
      | @inside stack => cases stack <;> cases h
  | cons t ts ih =>
      obtain ⟨_, _, hstep, hrun⟩ := run_token h
      exact ih (hf.step hstep) hrun

end

/-! ### Reading a spliced text -/

/-- What is scanned of a spliced text is the key, and the text as far as it is read. -/
theorem parse_splice (key text : String) :
    parse (splice key text) =
      ((Scan.str []).run (text.toList ++ ['"', '\x7d'])).bind
        (Expect.run [.member key, .object []] .value) := by
  have hscan : Scan.plain.run (splice key text).toList =
      ((Scan.str []).run (text.toList ++ ['"', '\x7d'])).map
        ([Token.lbrace, .lit (.str key), .colon] ++ ·) := by
    rw [splice, String.toList_ofList, run_punct rfl rfl, run_renderString, run_punct rfl rfl,
      run_silent (t := .str []) rfl]
    simp [Function.comp_def]
  rw [parse, hscan]
  cases (Scan.str []).run (text.toList ++ ['"', '\x7d']) with
  | none => rfl
  | some ts => rfl

/-- **A spliced text is read back as it is exactly when it needs no escape.** -/
theorem parse_splice_iff (key text : String) :
    parse (splice key text) = some (.object [(key, .str text)]) ↔ isPlainText text := by
  constructor
  · intro h
    rw [parse_splice] at h
    obtain ⟨ts, hscan, hrun⟩ := Option.bind_eq_some_iff.mp h
    obtain ⟨t, ts', rfl, -⟩ := run_inString (n := 0) rfl hscan
    -- the value of the member is what the scanner read
    cases ts' with
    | nil => cases hrun
    | cons t' ts' =>
        obtain ⟨_, _, hstep, hrun⟩ := run_token hrun
        cases hstep
        obtain ⟨stack, e, hstep, hrun⟩ := run_token hrun
        have hfirst : FirstMember (key, .str t) stack e := by
          cases t' <;> cases hstep
          · exact .complete
          · exact .inside (s := []) (m := [])
        obtain ⟨members, hmembers⟩ := run_firstMember hfirst hrun
        cases hmembers
        exact List.all_eq_true.mpr
          (plain_of_run (r := ['"', '\x7d']) (by decide) (List.cons_ne_nil _ _)
            (by simp) hscan)
  · intro h
    have hsplice : splice key text = render (.object [(key, .str text)]) := by
      rw [splice, render, renderChars, renderMembers, renderChars, renderMoreMembers,
        renderString_of_plain h]
      simp
    rw [hsplice, parse_render]

end Json
