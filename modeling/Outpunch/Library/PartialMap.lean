import Mathlib

/-!
# Library — partial maps

A map with at most one value at each key, as a function to `Option`, with the updates a
keyed registry makes: `insert`, `erase`, `modify`, and `retain`, which drops the entries a test
rejects.
Two maps are equal when they agree at every key.

`transport f g` is the part of a map that a partial renaming `f` of the keys keeps, under the new
names, with `g` applied to the values.  It commutes with every update of a key that is kept, and
does not see the updates of the others.
-/

variable {κ : Type*} {α β : Type*}

/-- At most one `α` at each key. -/
abbrev PartialMap (κ α : Type*) := κ → Option α

namespace PartialMap

/-- The map with no entry. -/
def empty : PartialMap κ α := fun _ => none

/-- Keeps the entries whose value passes `p`. -/
def retain (p : α → Bool) (m : PartialMap κ α) : PartialMap κ α := fun k => (m k).filter p

@[simp] theorem empty_apply (k : κ) : (empty : PartialMap κ α) k = none := rfl

theorem retain_eq_some {p : α → Bool} {m : PartialMap κ α} {k : κ} {a : α} :
    m.retain p k = some a ↔ m k = some a ∧ p a := by
  simp [retain, Option.filter_eq_some_iff]

/-- An entry every test accepts is kept as it is. -/
theorem retain_of_forall {p : α → Bool} {m : PartialMap κ α} {k : κ}
    (h : ∀ a, m k = some a → p a) : m.retain p k = m k := by
  cases e : m k with
  | none => simp [retain, e]
  | some a => simp [retain, e, h a e]

section Update

variable [DecidableEq κ]

/-- `m` with `a` at `k`. -/
def insert (m : PartialMap κ α) (k : κ) (a : α) : PartialMap κ α := Function.update m k (some a)

/-- `m` without `k`. -/
def erase (m : PartialMap κ α) (k : κ) : PartialMap κ α := Function.update m k none

/-- `m` with `f` applied to the value at `k`, if there is one. -/
def modify (m : PartialMap κ α) (k : κ) (f : α → α) : PartialMap κ α :=
  Function.update m k ((m k).map f)

@[simp] theorem insert_same (m : PartialMap κ α) (k : κ) (a : α) : m.insert k a k = some a :=
  Function.update_self ..

@[simp] theorem erase_same (m : PartialMap κ α) (k : κ) : m.erase k k = none :=
  Function.update_self ..

theorem insert_other {m : PartialMap κ α} {k j : κ} {a : α} (h : j ≠ k) :
    m.insert k a j = m j := Function.update_of_ne h ..

theorem erase_other {m : PartialMap κ α} {k j : κ} (h : j ≠ k) : m.erase k j = m j :=
  Function.update_of_ne h ..

theorem insert_apply (m : PartialMap κ α) (k j : κ) (a : α) :
    m.insert k a j = if j = k then some a else m j := Function.update_apply ..

theorem erase_apply (m : PartialMap κ α) (k j : κ) :
    m.erase k j = if j = k then none else m j := Function.update_apply ..

/-- An entry of `m.erase k` is an entry of `m` at another key. -/
theorem erase_eq_some {m : PartialMap κ α} {k j : κ} {a : α} :
    m.erase k j = some a ↔ j ≠ k ∧ m j = some a := by
  rw [erase_apply]; split <;> simp_all

/-- An entry of `m.insert k a` is the new one or an entry of `m` at another key. -/
theorem insert_eq_some {m : PartialMap κ α} {k j : κ} {a b : α} :
    m.insert k a j = some b ↔ j = k ∧ a = b ∨ j ≠ k ∧ m j = some b := by
  rw [insert_apply]; split <;> simp_all

@[simp] theorem modify_same (m : PartialMap κ α) (k : κ) (f : α → α) :
    m.modify k f k = (m k).map f := Function.update_self ..

theorem modify_other {m : PartialMap κ α} {k j : κ} {f : α → α} (h : j ≠ k) :
    m.modify k f j = m j := Function.update_of_ne h ..

/-- An entry of `m.modify k f` comes from the entry of `m` at its key. -/
theorem modify_eq_some {m : PartialMap κ α} {k j : κ} {f : α → α} {b : α}
    (h : m.modify k f j = some b) : ∃ a, m j = some a ∧ (b = a ∨ j = k ∧ b = f a) := by
  by_cases e : j = k
  · subst e
    rw [modify_same, Option.map_eq_some_iff] at h
    obtain ⟨a, ha, rfl⟩ := h
    exact ⟨a, ha, .inr ⟨rfl, rfl⟩⟩
  · rw [modify_other e] at h
    exact ⟨b, h, .inl rfl⟩

/-- What `f` observes of the values, after a write. -/
theorem bind_insert (m : PartialMap κ α) (k : κ) (a : α) (f : α → Option β) :
    (fun j => (m.insert k a j).bind f) = Function.update (fun j => (m j).bind f) k (f a) := by
  funext j
  by_cases e : j = k
  · subst e; simp
  · rw [insert_other e, Function.update_of_ne e]

/-- A write of a value `f` cannot tell from the one it replaces does not show. -/
theorem bind_insert_of_eq {m : PartialMap κ α} {k : κ} {a a' : α} (f : α → Option β)
    (h : m k = some a) (hf : f a' = f a) :
    (fun j => (m.insert k a' j).bind f) = fun j => (m j).bind f := by
  rw [bind_insert, hf, Function.update_eq_self_iff, h]; rfl

theorem bind_modify_of_eq {m : PartialMap κ α} {k : κ} {g : α → α} (f : α → Option β)
    (hf : ∀ a, f (g a) = f a) : (fun j => (m.modify k g j).bind f) = fun j => (m j).bind f := by
  funext j
  by_cases e : j = k
  · subst e; cases hm : m j <;> simp [hm, hf]
  · rw [modify_other e]

end Update

/-! ### A part of a map, renamed -/

section Transport

variable {κ' : Type*} {f : κ ≃. κ'} {g : α → β} {m : PartialMap κ α} {k : κ} {k' : κ'}

/-- The entries at the keys `f` keeps, under their new names. -/
def transport (f : κ ≃. κ') (g : α → β) (m : PartialMap κ α) : PartialMap κ' β :=
  fun k' => (f.symm k').bind fun k => (m k).map g

/-- An entry of the transported map comes from one of the map. -/
theorem transport_eq_some {b : β} : m.transport f g k' = some b ↔
    ∃ k a, f k = some k' ∧ m k = some a ∧ g a = b := by
  simp only [transport, Option.bind_eq_some_iff, Option.map_eq_some_iff, PEquiv.eq_some_iff]
  exact ⟨fun ⟨k, hk, a, ha, hb⟩ => ⟨k, a, hk, ha, hb⟩, fun ⟨k, a, hk, ha, hb⟩ => ⟨k, hk, a, ha, hb⟩⟩

theorem transport_apply (h : f k = some k') : m.transport f g k' = (m k).map g := by
  rw [transport, (f.eq_some_iff).mpr h, Option.bind_some]

/-- Maps that agree where `f` keeps the key look the same. -/
theorem transport_congr {m' : PartialMap κ α} (h : ∀ k, f k ≠ none → (m k).map g = (m' k).map g) :
    m.transport f g = m'.transport f g := by
  funext k'
  unfold transport
  cases hk : f.symm k' with
  | none => rfl
  | some k => exact h k (by rw [(f.eq_some_iff).mp hk]; simp)

variable [DecidableEq κ]

section

variable [DecidableEq κ']

/-- An update of the value at a kept key, read through the renaming. -/
theorem transport_update (h : f k = some k') (o : Option α) :
    transport f g (Function.update m k o) = Function.update (m.transport f g) k' (o.map g) := by
  funext j'
  by_cases hj : j' = k'
  · subst hj
    rw [transport_apply h, Function.update_self, Function.update_self]
  · rw [Function.update_of_ne hj]
    unfold transport
    cases hf : f.symm j' with
    | none => rfl
    | some j =>
        have hjk : j ≠ k := by
          rintro rfl
          exact hj (Option.some.inj (((f.eq_some_iff).mp hf).symm.trans h))
        rw [Option.bind_some, Option.bind_some, Function.update_of_ne hjk]

theorem transport_insert (h : f k = some k') (a : α) :
    (m.insert k a).transport f g = (m.transport f g).insert k' (g a) := transport_update h _

theorem transport_erase (h : f k = some k') :
    (m.erase k).transport f g = (m.transport f g).erase k' := transport_update h _

theorem transport_modify {u : α → α} {u' : β → β} (h : f k = some k')
    (hu : ∀ a, g (u a) = u' (g a)) :
    (m.modify k u).transport f g = (m.transport f g).modify k' u' := by
  refine (transport_update h _).trans ?_
  rw [modify, transport_apply h]
  cases m k with
  | none => rfl
  | some a => exact congrArg _ (congrArg some (hu a))

end

/-- An update of another key does not show. -/
theorem transport_update_of_none (h : f k = none) (o : Option α) :
    transport f g (Function.update m k o) = m.transport f g :=
  transport_congr fun j hj => by
    rw [Function.update_of_ne]
    rintro rfl
    exact hj h

theorem transport_insert_of_none (h : f k = none) (a : α) :
    (m.insert k a).transport f g = m.transport f g := transport_update_of_none h _

theorem transport_erase_of_none (h : f k = none) :
    (m.erase k).transport f g = m.transport f g := transport_update_of_none h _

theorem transport_modify_of_none (h : f k = none) (u : α → α) :
    (m.modify k u).transport f g = m.transport f g := transport_update_of_none h _

omit [DecidableEq κ] in
/-- A test that agrees with one on the renamed values, where the keys are kept. -/
theorem transport_retain {p : α → Bool} {p' : β → Bool}
    (h : ∀ k a, f k ≠ none → m k = some a → p a = p' (g a)) :
    (m.retain p).transport f g = (m.transport f g).retain p' := by
  refine funext fun k' => Option.ext fun b => ?_
  rw [retain_eq_some, transport_eq_some, transport_eq_some]
  constructor
  · rintro ⟨k, a, hk, ha, rfl⟩
    obtain ⟨ha, hp⟩ := retain_eq_some.mp ha
    exact ⟨⟨k, a, hk, ha, rfl⟩, h k a (by simp [hk]) ha ▸ hp⟩
  · rintro ⟨⟨k, a, hk, ha, rfl⟩, hp⟩
    exact ⟨k, a, hk, retain_eq_some.mpr ⟨ha, (h k a (by simp [hk]) ha).trans hp⟩, rfl⟩

end Transport

end PartialMap
