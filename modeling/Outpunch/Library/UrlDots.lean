import Outpunch.Library.UrlStandard

/-!
# Library — what dot segments leave of a path

`resolve` takes a path apart from left to right.  What it leaves can be said of the path as it is
written: segments vanish that are dots, or that a later `..` takes along (`Vanishes`), and what
stands between those is left (`leaves_foldl`).  So a pathname begins with two given segments
exactly when the path holds them with nothing before, between and after that takes them away
(`resolve_begins_iff`).
-/

namespace Url

/-- Segments that leave nothing: dots, and pairs of a segment and a `..` that takes it along; where
nothing is before them, a `..` alone. -/
inductive Vanishes : Bool → List (List Char) → Prop where
  | nil {root : Bool} : Vanishes root []
  | dot {root : Bool} {s : List Char} {l : List (List Char)} (hs : isSingleDot s)
      (hl : Vanishes root l) : Vanishes root (s :: l)
  | root {s : List Char} {l : List (List Char)} (hs : isDoubleDot s) (hl : Vanishes true l) :
      Vanishes true (s :: l)
  | pair {root : Bool} {s d : List Char} {m l : List (List Char)} (hs : isDotSegment s = false)
      (hm : Vanishes false m) (hd : isDoubleDot d) (hl : Vanishes root l) :
      Vanishes root (s :: (m ++ d :: l))

/-- Segments that take along none before them. -/
inductive Keeps : List (List Char) → Prop where
  | vanishes {l : List (List Char)} (h : Vanishes false l) : Keeps l
  | keep {s : List Char} {l m : List (List Char)} (h : Keeps l) (hs : isDotSegment s = false)
      (hm : Vanishes false m) : Keeps (l ++ s :: m)

theorem Vanishes.append {root : Bool} {l l' : List (List Char)} (h : Vanishes root l)
    (h' : Vanishes root l') : Vanishes root (l ++ l') := by
  induction h with
  | nil => exact h'
  | dot hs _ ih => exact .dot hs (ih h')
  | root hs _ ih => exact .root hs (ih h')
  | pair hs hm hd _ _ ih =>
      rw [List.cons_append, List.append_assoc, List.cons_append]
      exact .pair hs hm hd (ih h')

theorem addSegment_double {path : List (List Char)} {s : List Char} (h : isDoubleDot s) :
    addSegment path s = path.dropLast := if_pos h

theorem addSegment_single {path : List (List Char)} {s : List Char} (h : isSingleDot s) :
    addSegment path s = path := by
  have hne : isDoubleDot s = false := by
    rw [isSingleDot, decide_eq_true_eq] at h
    rw [isDoubleDot, h]
    decide
  rw [addSegment, hne, h]
  rfl

theorem Vanishes.foldl {root : Bool} {l : List (List Char)} (h : Vanishes root l)
    {path : List (List Char)} (hpath : root → path = []) : l.foldl addSegment path = path := by
  induction h generalizing path with
  | nil => rfl
  | dot hs _ ih => rw [List.foldl_cons, addSegment_single hs, ih hpath]
  | root hs _ ih =>
      rw [List.foldl_cons, addSegment_double hs, hpath rfl, List.dropLast_nil, ih fun _ => rfl]
  | pair hs _ hd _ ihm ihl =>
      rw [List.foldl_cons, addSegment_eq hs, List.foldl_append, ihm (by simp), List.foldl_cons,
        addSegment_double hd, List.dropLast_concat, ihl hpath]

/-- Away from the root, what vanishes does so after anything. -/
theorem Vanishes.foldl_eq_self {l : List (List Char)} (h : Vanishes false l)
    (path : List (List Char)) : l.foldl addSegment path = path := h.foldl (by simp)

theorem Keeps.foldl {l : List (List Char)} (h : Keeps l) :
    ∃ rest, ∀ path : List (List Char), l.foldl addSegment path = path ++ rest := by
  induction h with
  | vanishes h => exact ⟨[], fun path => by rw [h.foldl_eq_self, List.append_nil]⟩
  | @keep s l m _ hs hm ih =>
      obtain ⟨rest, hrest⟩ := ih
      refine ⟨rest ++ [s], fun path => ?_⟩
      rw [List.foldl_append, hrest, List.foldl_cons, addSegment_eq hs, hm.foldl_eq_self,
        List.append_assoc]

/-- What is left of segments: those between which the others vanish. -/
inductive Leaves : List (List Char) → List (List Char) → Prop where
  | root {l : List (List Char)} (h : Vanishes true l) : Leaves l []
  | keep {s : List Char} {l m out : List (List Char)} (h : Leaves l out)
      (hs : isDotSegment s = false) (hm : Vanishes false m) : Leaves (l ++ s :: m) (out ++ [s])

theorem leaves_foldl (l : List (List Char)) : Leaves l (l.foldl addSegment []) := by
  induction l using List.reverseRecOn with
  | nil => exact .root .nil
  | append_singleton l d ih =>
      rw [List.foldl_append, List.foldl_cons, List.foldl_nil]
      generalize l.foldl addSegment [] = out at ih
      by_cases hdot : isDotSegment d = true
      · rw [isDotSegment, Bool.or_eq_true] at hdot
        rcases hdot with hd | hd
        · rw [addSegment_single hd]
          cases ih with
          | root h => exact .root (h.append (.dot hd .nil))
          | keep h hs hm =>
              rw [List.append_assoc, List.cons_append]
              exact .keep h hs (hm.append (.dot hd .nil))
        · rw [addSegment_double hd]
          cases ih with
          | root h => exact .root (h.append (.root hd .nil))
          | @keep s l m out h hs hm =>
              -- The pair of the last segment left and the `..` vanishes after what is before it.
              have hpair : Vanishes false (s :: (m ++ [d])) := .pair hs hm hd .nil
              rw [List.dropLast_concat, List.append_assoc, List.cons_append]
              cases h with
              | root h => exact .root (h.append (.pair hs hm hd .nil))
              | keep h hs' hm' =>
                  rw [List.append_assoc, List.cons_append]
                  exact .keep h hs' (hm'.append hpair)
      · rw [Bool.not_eq_true] at hdot
        rw [addSegment_eq hdot]
        exact .keep ih hdot .nil

theorem Leaves.nil_inv {l : List (List Char)} (h : Leaves l []) : Vanishes true l := by
  generalize hout : ([] : List (List Char)) = out at h
  cases h with
  | root h => exact h
  | keep _ _ _ => simp at hout

/-- The first two segments left, and what stands around them. -/
theorem Leaves.begins {l : List (List Char)} {u s : List Char} {rest : List (List Char)}
    (h : Leaves l (u :: s :: rest)) : ∃ a b c, l = a ++ u :: (b ++ s :: c) ∧ Vanishes true a ∧
      isDotSegment u = false ∧ Vanishes false b ∧ isDotSegment s = false ∧ Keeps c := by
  generalize hout : u :: s :: rest = out at h
  induction h generalizing rest with
  | root _ => cases hout
  | @keep t l m out h ht hm ih =>
      cases rest using List.reverseRecOn with
      | nil =>
          obtain ⟨rfl, hst⟩ := List.append_inj' (show [u] ++ [s] = _ from hout) rfl
          cases hst
          generalize hone : [u] = out at h
          cases h with
          | root _ => cases hone
          | @keep u' l m' out h hu hm' =>
              obtain ⟨rfl, hu'⟩ := List.append_inj' (show [] ++ [u] = _ from hone) rfl
              cases hu'
              exact ⟨l, m', m, by simp, h.nil_inv, hu, hm', ht, .vanishes hm⟩
      | append_singleton rest t' =>
          obtain ⟨rfl, htt⟩ := List.append_inj' (show (u :: s :: rest) ++ [t'] = _ from hout) rfl
          cases htt
          obtain ⟨a, b, c, rfl, ha, hu, hb, hs, hc⟩ := ih rfl
          exact ⟨a, b, c ++ t :: m, by simp, ha, hu, hb, hs, .keep hc ht hm⟩

/-- The last segment of a path leaves an empty one, where it is dots. -/
theorem resolve_eq_foldl (path segments : List (List Char)) :
    ∃ last, (last = [] ∨ last = [[]]) ∧
      resolve path segments = segments.foldl addSegment path ++ last := by
  fun_induction resolve path segments with
  | case1 path => exact ⟨[], .inl rfl, (List.append_nil path).symm⟩
  | case2 path s hs => exact ⟨[[]], .inr rfl, rfl⟩
  | case3 path s hs => exact ⟨[], .inl rfl, (List.append_nil _).symm⟩
  | case4 path s s' rest ih => exact ih

/-- **A pathname begins with `u` and a segment that is not empty** exactly when the path holds
them with nothing that takes them away: what is before and between them vanishes, and what is after
them takes along none before it. -/
theorem resolve_begins_iff {segments : List (List Char)} {u : List Char} :
    (∃ s rest, resolve [] segments = u :: s :: rest ∧ s ≠ []) ↔
      ∃ a b s c, segments = a ++ u :: (b ++ s :: c) ∧ Vanishes true a ∧ isDotSegment u = false ∧
        Vanishes false b ∧ s ≠ [] ∧ isDotSegment s = false ∧ Keeps c := by
  obtain ⟨last, hlast, heq⟩ := resolve_eq_foldl [] segments
  constructor
  · rintro ⟨s, rest, hresolve, hs⟩
    rw [heq] at hresolve
    have hfold : ∃ rest', segments.foldl addSegment [] = u :: s :: rest' := by
      rcases hlast with rfl | rfl
      · exact ⟨rest, by rw [← hresolve, List.append_nil]⟩
      · cases rest using List.reverseRecOn with
        | nil =>
            obtain ⟨-, h⟩ := List.append_inj' (show _ = [u] ++ [s] from hresolve) rfl
            cases h
            exact absurd rfl hs
        | append_singleton rest t =>
            exact ⟨rest, (List.append_inj' (show _ = (u :: s :: rest) ++ [t] from hresolve) rfl).1⟩
    obtain ⟨rest', hfold⟩ := hfold
    obtain ⟨a, b, c, hsegments, ha, hu, hb, hdot, hc⟩ := (hfold ▸ leaves_foldl segments).begins
    exact ⟨a, b, s, c, hsegments, ha, hu, hb, hs, hdot, hc⟩
  · rintro ⟨a, b, s, c, rfl, ha, hu, hb, hs, hdot, hc⟩
    obtain ⟨rest, hrest⟩ := hc.foldl
    refine ⟨s, rest ++ last, ?_, hs⟩
    rw [heq, List.foldl_append, ha.foldl fun _ => rfl, List.foldl_cons, addSegment_eq hu,
      List.foldl_append, hb.foldl_eq_self, List.foldl_cons, addSegment_eq hdot, hrest]
    rfl

end Url
