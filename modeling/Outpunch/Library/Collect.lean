import Mathlib

/-!
# Library — collecting pairs into a map

`ofList l` holds, for each key of `l`, the last value the list has for it.  So it keeps all of
the list exactly when no key is repeated (`toList_ofList_perm_iff`), and never holds a pair the
list has not (`toList_ofList_subperm`).
-/

namespace Collect

open Std (ExtTreeMap)

variable {α β : Type} {cmp : α → α → Ordering} [Std.TransCmp cmp] [Std.LawfulEqCmp cmp]
  {l : List (α × β)} {a : α} {b : β}

/-- The last value `l` has for a key. -/
def last [DecidableEq α] (l : List (α × β)) (a : α) : Option β :=
  l.foldl (fun o p => if p.1 = a then some p.2 else o) none

theorem last_snoc [DecidableEq α] (l : List (α × β)) (p : α × β) (a : α) :
    last (l ++ [p]) a = if p.1 = a then some p.2 else last l a := by
  rw [last, List.foldl_append]; rfl

omit [Std.LawfulEqCmp cmp] in
theorem ofList_snoc (l : List (α × β)) (p : α × β) :
    ExtTreeMap.ofList (l ++ [p]) cmp = (ExtTreeMap.ofList l cmp).insert p.1 p.2 := by
  rw [ExtTreeMap.ofList_eq_foldl, ExtTreeMap.ofList_eq_foldl, List.foldl_append]; rfl

theorem getElem?_ofList [DecidableEq α] (l : List (α × β)) (a : α) :
    (ExtTreeMap.ofList l cmp)[a]? = last l a := by
  induction l using List.reverseRecOn with
  | nil => rfl
  | append_singleton l p ih =>
      rw [ofList_snoc, last_snoc, ExtTreeMap.getElem?_insert, ih]
      by_cases h : p.1 = a
      · rw [if_pos h, if_pos (Std.LawfulEqCmp.compare_eq_iff_eq.mpr h)]
      · rw [if_neg h, if_neg fun e => h (Std.LawfulEqCmp.compare_eq_iff_eq.mp e)]

theorem mem_of_last_eq_some [DecidableEq α] (h : last l a = some b) : (a, b) ∈ l := by
  induction l using List.reverseRecOn with
  | nil => cases h
  | append_singleton l p ih =>
      rw [last_snoc] at h
      split at h
      · rename_i hp
        cases h
        exact List.mem_append_right _ (List.mem_singleton.mpr (by rw [← hp]))
      · exact List.mem_append_left _ (ih h)

/-- An element with what stands behind it, in a list with one more. -/
theorem exists_split_snoc {γ : Type} {p q : γ → Prop} {l : List γ} {c : γ} :
    (∃ pre d post, l ++ [c] = pre ++ d :: post ∧ p d ∧ ∀ e ∈ post, q e) ↔
      p c ∨ q c ∧ ∃ pre d post, l = pre ++ d :: post ∧ p d ∧ ∀ e ∈ post, q e := by
  constructor
  · rintro ⟨pre, d, post, hsplit, hd, hpost⟩
    cases post using List.reverseRecOn with
    | nil =>
        obtain ⟨-, hcd⟩ := List.append_inj' hsplit rfl
        cases hcd
        exact .inl hd
    | append_singleton post e =>
        have hsplit : l ++ [c] = (pre ++ d :: post) ++ [e] := by simpa using hsplit
        obtain ⟨hl, hce⟩ := List.append_inj' hsplit rfl
        cases hce
        exact .inr ⟨hpost c (by simp), pre, d, post, hl, hd, fun x hx => hpost x (by simp [hx])⟩
  · rintro (hc | ⟨hc, pre, d, post, rfl, hd, hpost⟩)
    · exact ⟨l, c, [], rfl, hc, by simp⟩
    · exact ⟨pre, d, post ++ [c], by simp, hd, List.forall_mem_append.mpr ⟨hpost, by simpa⟩⟩

/-- The last value, by where it stands: `f` makes the pairs, and makes none of the key after it. -/
theorem last_filterMap_eq_some [DecidableEq α] {γ : Type} {f : γ → Option (α × β)} {l : List γ} :
    last (l.filterMap f) a = some b ↔ ∃ pre c post, l = pre ++ c :: post ∧ f c = some (a, b) ∧
      ∀ d ∈ post, ∀ p, f d = some p → p.1 ≠ a := by
  induction l using List.reverseRecOn with
  | nil => simp [last]
  | append_singleton l c ih =>
      rw [exists_split_snoc, ← ih, List.filterMap_append]
      cases hc : f c with
      | none => simp [List.filterMap_cons_none hc]
      | some p =>
          rw [List.filterMap_cons_some hc, List.filterMap_nil, last_snoc]
          by_cases hp : p.1 = a
          · subst hp
            simp [Prod.ext_iff]
          · simp [hp, Prod.ext_iff]

/-- There is a last value for the keys of the list. -/
theorem exists_last_iff [DecidableEq α] {l : List (α × β)} {a : α} :
    (∃ b, last l a = some b) ↔ a ∈ l.map Prod.fst := by
  induction l using List.reverseRecOn with
  | nil => simp [last]
  | append_singleton l p ih =>
      rw [last_snoc, List.map_append, List.mem_append, ← ih, List.map_singleton,
        List.mem_singleton]
      split
      · rename_i hp
        exact ⟨fun _ => .inr hp.symm, fun _ => ⟨p.2, rfl⟩⟩
      · rename_i hp
        exact (or_iff_left (Ne.symm hp)).symm

/-- Renaming keys apart and changing values does not change which value is last. -/
theorem last_map [DecidableEq α] {α' β' : Type} [DecidableEq α'] {f : α → α'}
    (hf : Function.Injective f) (g : β → β') (l : List (α × β)) (a : α) :
    last (l.map (Prod.map f g)) (f a) = (last l a).map g := by
  induction l using List.reverseRecOn with
  | nil => rfl
  | append_singleton l p ih =>
      rw [List.map_append, List.map_singleton, last_snoc, last_snoc, ih, Prod.map_fst]
      by_cases h : p.1 = a
      · rw [if_pos h, if_pos (congrArg f h)]; rfl
      · rw [if_neg h, if_neg fun e => h (hf e)]

/-- What a map of pairs holds was collected. -/
theorem mem_of_mem_toList (h : (a, b) ∈ (ExtTreeMap.ofList l cmp).toList) : (a, b) ∈ l := by
  classical
  rw [ExtTreeMap.mem_toList_iff_getElem?_eq_some, getElem?_ofList] at h
  exact mem_of_last_eq_some h

/-- The keys of a map are distinct. -/
theorem nodup_keys (m : ExtTreeMap α β cmp) : (m.toList.map Prod.fst).Nodup := by
  rw [List.Nodup, List.pairwise_map]
  exact ExtTreeMap.distinct_keys_toList.imp fun h e => h (Std.LawfulEqCmp.compare_eq_iff_eq.mpr e)

theorem toList_ofList_subperm (l : List (α × β)) :
    (ExtTreeMap.ofList l cmp).toList.Subperm l :=
  List.Nodup.subperm (.of_map _ (nodup_keys _)) fun _ h => mem_of_mem_toList h

/-- **Collecting keeps all the pairs exactly when no key is repeated.** -/
theorem toList_ofList_perm_iff :
    (ExtTreeMap.ofList l cmp).toList.Perm l ↔ (l.map Prod.fst).Nodup := by
  refine ⟨fun h => (h.map Prod.fst).nodup_iff.mp (nodup_keys _), fun h => ?_⟩
  refine (List.perm_ext_iff_of_nodup (.of_map _ (nodup_keys _)) (.of_map _ h)).mpr
    fun p => ⟨mem_of_mem_toList, fun hp => ?_⟩
  have hdistinct : l.Pairwise fun a b => ¬ cmp a.1 b.1 = .eq :=
    (List.pairwise_map.mp h).imp fun h e => h (Std.LawfulEqCmp.compare_eq_iff_eq.mp e)
  exact ExtTreeMap.mem_toList_iff_getElem?_eq_some.mpr
    (ExtTreeMap.getElem?_ofList_of_mem Std.ReflCmp.compare_self hdistinct hp)

/-- A map with as many entries as there were pairs holds them all. -/
theorem nodup_of_length_le (h : l.length ≤ (ExtTreeMap.ofList l cmp).toList.length) :
    (l.map Prod.fst).Nodup :=
  toList_ofList_perm_iff.mp ((toList_ofList_subperm l).perm_of_length_le h)

/-- **Two lists are collected to one map exactly when they agree on the last values.** -/
theorem ofList_eq_iff [DecidableEq α] {l l' : List (α × β)} :
    ExtTreeMap.ofList l cmp = ExtTreeMap.ofList l' cmp ↔ ∀ a, last l a = last l' a := by
  constructor
  · intro h a
    have hl : (ExtTreeMap.ofList l cmp)[a]? = last l a := getElem?_ofList l a
    rw [h, getElem?_ofList] at hl
    exact hl.symm
  · intro h
    refine ExtTreeMap.ext_getElem? fun {a} => ?_
    rw [getElem?_ofList, getElem?_ofList, h]

/-- A map is collected again from its entries, in any order. -/
theorem ofList_of_perm_toList {m : ExtTreeMap α β cmp} (h : l.Perm m.toList) :
    ExtTreeMap.ofList l cmp = m := by
  have hnodup : (l.map Prod.fst).Nodup := (h.map Prod.fst).nodup_iff.mpr (nodup_keys m)
  exact ExtTreeMap.ext_toList ((toList_ofList_perm_iff.mpr hnodup).trans h)

/-! ### Renaming the keys -/

/-- **A renaming of finitely many keys moves none of them**, if each of them is the name of one and
a key that is moved, to another of them, becomes smaller. -/
theorem eq_self_of_surjOn {s : Finset α} {f : α → α} {m : α → Nat} (hsurj : Set.SurjOn f s s)
    (hlt : ∀ a ∈ s, f a ∈ s → f a ≠ a → m (f a) < m a) : ∀ a ∈ s, f a = a := by
  classical
  by_contra h
  push Not at h
  obtain ⟨a₀, ha₀, hmoved₀⟩ := h
  -- The largest key that is moved is the name of a larger one, which is moved as well.
  obtain ⟨a, ha, hmax⟩ := (s.filter fun a => f a ≠ a).exists_max_image m
    ⟨a₀, Finset.mem_filter.mpr ⟨ha₀, hmoved₀⟩⟩
  obtain ⟨ha, hmoved⟩ := Finset.mem_filter.mp ha
  obtain ⟨b, hb, rfl⟩ := hsurj ha
  have hb' : f b ≠ b := fun e => hmoved (congrArg f e)
  have hle := hmax b (Finset.mem_filter.mpr ⟨hb, hb'⟩)
  exact absurd (hlt b hb ha hb') (Nat.not_lt.mpr hle)

end Collect
