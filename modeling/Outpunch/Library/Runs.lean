import Mathlib

/-!
# Library — runs of a labelled transition system

A system is a step relation `σ → ε → σ → Prop`: in state `s` the event `e` may lead to `t`.
`Run step s tr t` says that the events `tr`, in order, lead from `s` to `t`.  An interleaving of
several tasks is one such `tr`.

* `Run.split`, `Run.of_mem`: a run passes through a state before and after each of its events.
* `Run.invariant`: what holds of the empty history and is kept by each step holds of every
  history and the state it ends in; `Run.preserves` is the case without history.
* `guarded`: the system whose steps all meet a side condition.
* `record`: what a function of the events keeps of a history.
* `execAll`: the run of a history, where steps can be computed; `guardedExec` computes the steps
  of a guarded system.
* `Run.simulate`: a relation each step of one system keeps, while the other takes the image of
  the event or stays where it is, carries every run to a run over the mapped events.
-/

namespace Lts

variable {σ τ ε ε' : Type*}

/-! ### Records -/

section Record

variable {β : Type*} {f : ε → Option β} {tr : List ε} {e : ε}

/-- What `f` keeps of a history. -/
def record (f : ε → Option β) (tr : List ε) : List β := tr.filterMap f

@[simp] theorem record_nil : record f [] = [] := rfl

theorem record_append (tr₁ tr₂ : List ε) :
    record f (tr₁ ++ tr₂) = record f tr₁ ++ record f tr₂ := List.filterMap_append

@[simp] theorem record_snoc : record f (tr ++ [e]) = record f tr ++ (f e).toList := by
  rw [record_append]
  cases h : f e <;> simp [record, h]

theorem mem_record {b : β} : b ∈ record f tr ↔ ∃ e ∈ tr, f e = some b := List.mem_filterMap

theorem record_eq_nil : record f tr = [] ↔ ∀ e ∈ tr, f e = none := List.filterMap_eq_nil_iff

/-- An event `f` does not keep leaves no record. -/
theorem record_snoc_of_none (h : f e = none) : record f (tr ++ [e]) = record f tr := by
  rw [record_snoc, h]; exact List.append_nil _

theorem record_snoc_of_some {b : β} (h : f e = some b) :
    record f (tr ++ [e]) = record f tr ++ [b] := by
  rw [record_snoc, h]; rfl

end Record

/-! ### Runs -/

/-- `tr`, in order, leads from `s` to `t`. -/
inductive Run (step : σ → ε → σ → Prop) (s : σ) : List ε → σ → Prop where
  | nil : Run step s [] s
  | snoc {tr : List ε} {e : ε} {t t' : σ}
      (h : Run step s tr t) (hs : step t e t') : Run step s (tr ++ [e]) t'

section

variable {step : σ → ε → σ → Prop}

theorem Run.one {s t : σ} {e : ε} (h : step s e t) : Run step s [e] t := .snoc .nil h

theorem Run.append {s t u : σ} {tr₁ tr₂ : List ε} (h₁ : Run step s tr₁ t)
    (h₂ : Run step t tr₂ u) : Run step s (tr₁ ++ tr₂) u := by
  induction h₂ with
  | nil => rwa [List.append_nil]
  | snoc _ hs ih => rw [← List.append_assoc]; exact .snoc ih hs

theorem Run.cons {s t u : σ} {e : ε} {tr : List ε} (hs : step s e t) (h : Run step t tr u) :
    Run step s (e :: tr) u := (Run.one hs).append h

theorem Run.nil_inv {s t : σ} (h : Run step s [] t) : t = s := by
  generalize e : ([] : List ε) = tr at h
  cases h with
  | nil => rfl
  | snoc _ _ => simp at e

theorem Run.snoc_inv {s u : σ} {tr : List ε} {e : ε} (h : Run step s (tr ++ [e]) u) :
    ∃ t, Run step s tr t ∧ step t e u := by
  generalize hl : tr ++ [e] = l at h
  cases h with
  | nil => simp at hl
  | snoc h hs =>
      obtain ⟨rfl, he⟩ := List.append_inj' hl rfl
      cases he
      exact ⟨_, h, hs⟩

/-- A run passes through a state at every cut of its history. -/
theorem Run.split {s u : σ} (tr₁ tr₂ : List ε) (h : Run step s (tr₁ ++ tr₂) u) :
    ∃ t, Run step s tr₁ t ∧ Run step t tr₂ u := by
  induction tr₂ using List.reverseRecOn generalizing u with
  | nil => exact ⟨u, by rwa [List.append_nil] at h, .nil⟩
  | append_singleton tr₂ e ih =>
      rw [← List.append_assoc] at h
      obtain ⟨v, h', hs⟩ := h.snoc_inv
      obtain ⟨t, h₁, h₂⟩ := ih h'
      exact ⟨t, h₁, .snoc h₂ hs⟩

theorem Run.cons_inv {s u : σ} {e : ε} {tr : List ε} (h : Run step s (e :: tr) u) :
    ∃ t, step s e t ∧ Run step t tr u := by
  obtain ⟨t, h₁, h₂⟩ := Run.split [e] tr h
  obtain ⟨s', h₀, hs⟩ := Run.snoc_inv (List.nil_append [e] ▸ h₁)
  cases h₀.nil_inv
  exact ⟨t, hs, h₂⟩

/-- The states around an event of a run. -/
theorem Run.around {s u : σ} {tr₁ tr₂ : List ε} {e : ε} (h : Run step s (tr₁ ++ e :: tr₂) u) :
    ∃ t t', Run step s tr₁ t ∧ step t e t' ∧ Run step t' tr₂ u := by
  obtain ⟨t, h₁, h₂⟩ := Run.split tr₁ (e :: tr₂) h
  obtain ⟨t', hs, h₃⟩ := h₂.cons_inv
  exact ⟨t, t', h₁, hs, h₃⟩

/-- An event of a run was a step of it. -/
theorem Run.of_mem {s u : σ} {tr : List ε} {e : ε} (h : Run step s tr u) (he : e ∈ tr) :
    ∃ tr₁ tr₂ t t', tr = tr₁ ++ e :: tr₂ ∧ Run step s tr₁ t ∧ step t e t' ∧
      Run step t' tr₂ u := by
  obtain ⟨tr₁, tr₂, rfl⟩ := List.append_of_mem he
  obtain ⟨t, t', h₁, hs, h₂⟩ := h.around
  exact ⟨tr₁, tr₂, t, t', rfl, h₁, hs, h₂⟩

/-- **Invariants of histories.**  The step may use that the state before it was reached. -/
theorem Run.invariant {s : σ} (P : List ε → σ → Prop) (h₀ : P [] s)
    (hstep : ∀ {tr t e t'}, Run step s tr t → P tr t → step t e t' → P (tr ++ [e]) t')
    {tr : List ε} {t : σ} (h : Run step s tr t) : P tr t := by
  induction h with
  | nil => exact h₀
  | snoc h hs ih => exact hstep h ih hs

/-- What every step keeps, a run keeps. -/
theorem Run.preserves {P : σ → Prop} (hstep : ∀ {t e t'}, P t → step t e t' → P t')
    {s t : σ} {tr : List ε} (h : Run step s tr t) (hs : P s) : P t :=
  h.invariant (fun _ t => P t) hs fun _ => hstep

theorem Run.mono {step' : σ → ε → σ → Prop} (hsub : ∀ {s e t}, step s e t → step' s e t)
    {s t : σ} {tr : List ε} (h : Run step s tr t) : Run step' s tr t := by
  induction h with
  | nil => exact .nil
  | snoc _ hs ih => exact .snoc ih (hsub hs)

/-- The steps that meet `ok`, a condition on the state before the step and the event. -/
def guarded (step : σ → ε → σ → Prop) (ok : σ → ε → Prop) : σ → ε → σ → Prop :=
  fun s e t => step s e t ∧ ok s e

theorem Run.of_guarded {ok : σ → ε → Prop} {s t : σ} {tr : List ε}
    (h : Run (guarded step ok) s tr t) : Run step s tr t := h.mono And.left

/-- A run whose events all meet the condition, in any state, is a run of the guarded system. -/
theorem Run.guard {ok : σ → ε → Prop} {s t : σ} {tr : List ε} (h : Run step s tr t)
    (hok : ∀ e ∈ tr, ∀ s, ok s e) : Run (guarded step ok) s tr t := by
  induction h with
  | nil => exact .nil
  | snoc _ hs ih =>
      exact .snoc (ih fun e he => hok e (List.mem_append_left _ he)) ⟨hs, hok _ (by simp) _⟩

/-! ### Running a system -/

/-- The state a history leads to, by a function that computes steps. -/
def execAll (exec : σ → ε → Option σ) (s : σ) : List ε → Option σ
  | [] => some s
  | e :: tr => (exec s e).bind fun t => execAll exec t tr

theorem Run.of_execAll {exec : σ → ε → Option σ}
    (hsound : ∀ {s e t}, exec s e = some t → step s e t) {s t : σ} {tr : List ε}
    (h : execAll exec s tr = some t) : Run step s tr t := by
  induction tr generalizing s with
  | nil => cases h; exact .nil
  | cons e tr ih =>
      obtain ⟨u, he, htr⟩ := Option.bind_eq_some_iff.mp h
      exact .cons (hsound he) (ih htr)

/-- A run, from a history that can be run to a state that passes `p`. -/
theorem exists_run_of_execAll {exec : σ → ε → Option σ}
    (hsound : ∀ {s e t}, exec s e = some t → step s e t) {s : σ} {tr : List ε} (p : σ → Bool)
    (h : (execAll exec s tr).any p) : ∃ t, Run step s tr t ∧ p t := by
  cases ht : execAll exec s tr with
  | none => rw [ht] at h; cases h
  | some t => rw [ht] at h; exact ⟨t, .of_execAll hsound ht, h⟩

/-- Computes the steps of a guarded system. -/
def guardedExec (exec : σ → ε → Option σ) (ok : σ → ε → Prop) [∀ s e, Decidable (ok s e)] (s : σ)
    (e : ε) : Option σ :=
  if ok s e then exec s e else none

theorem guardedExec_sound {exec : σ → ε → Option σ} {ok : σ → ε → Prop}
    [∀ s e, Decidable (ok s e)] (hsound : ∀ {s e t}, exec s e = some t → step s e t) {s t : σ}
    {e : ε} (h : guardedExec exec ok s e = some t) : guarded step ok s e t := by
  obtain ⟨hok, h⟩ := Option.ite_none_right_eq_some.mp h
  exact ⟨hsound h, hok⟩

/-! ### Simulation -/

/-- **Forward simulation, with erased events.**  `R` relates the two systems; `f` maps an event
of the first to the event the second takes, or to `none` where the second stays.  The simulation
may assume `I` of the states this history passes, and of the event that it is one of it. -/
theorem Run.simulate {step' : τ → ε' → τ → Prop} (f : ε → Option ε') (R : σ → τ → Prop)
    (I : σ → Prop) {s s' : σ} {t : τ} {tr : List ε} (h : Run step s tr s')
    (hI : ∀ {tr₁ tr₂ u}, tr = tr₁ ++ tr₂ → Run step s tr₁ u → I u)
    (hstep : ∀ {u v e u'}, R u v → I u → e ∈ tr → step u e u' →
      match f e with
      | none => R u' v
      | some e' => ∃ v', step' v e' v' ∧ R u' v')
    (hR : R s t) : ∃ t', Run step' t (tr.filterMap f) t' ∧ R s' t' := by
  -- at every cut of the history
  suffices hcut : ∀ {tr₁ u}, Run step s tr₁ u → ∀ tr₂, tr = tr₁ ++ tr₂ →
      ∃ t', Run step' t (tr₁.filterMap f) t' ∧ R u t' from
    hcut h [] (List.append_nil tr).symm
  intro tr₁ u hu
  induction hu with
  | nil => exact fun _ _ => ⟨t, .nil, hR⟩
  | @snoc tr₁ e u u' hu hs ih =>
      intro tr₂ htr
      rw [List.append_assoc] at htr
      obtain ⟨v, hv, hRv⟩ := ih _ htr
      have hk := hstep hRv (hI htr hu) (by simp [htr]) hs
      rw [List.filterMap_append]
      cases hf : f e with
      | none =>
          rw [hf] at hk
          exact ⟨v, by simpa [hf] using hv, hk⟩
      | some e' =>
          rw [hf] at hk
          obtain ⟨v', hs', hR'⟩ := hk
          refine ⟨v', ?_, hR'⟩
          simpa [hf] using Run.snoc hv hs'

end

end Lts
