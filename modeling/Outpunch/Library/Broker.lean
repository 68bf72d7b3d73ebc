import Outpunch.Library.PartialMap
import Outpunch.Library.Runs

/-!
# Library — a broker

Workers enroll under a name, and jobs are submitted for a name.  A broker gives a job to the worker
that holds its name at that moment, and to no other later on; a worker that enrolls takes its name
from whoever holds it, and one that leaves loses the jobs it has.  What is collected of a job is
the answer its worker gave.

`Sound` says what holds of every run (`sound_of_run`): who holds a name is present and enrolled
under it, a job is given once and collected once, and every job has the history its state tells of
(`Trail`).
-/

variable {ν κ ι ρ : Type*}

/-- Where a job stands; `ν` are names, `κ` workers, `ρ` results. -/
inductive Job (ν κ ρ : Type*) where
  | waiting (name : ν)
  | given (worker : κ)
  | answered (worker : κ) (result : ρ)
  /-- Its worker left. -/
  | lost
  | done (result : ρ)
  /-- Over without a result. -/
  | failed

@[ext]
structure Broker (ν κ ι ρ : Type*) where
  /-- The worker that holds a name. -/
  holder : PartialMap ν κ
  /-- The name a worker enrolled under. -/
  enrolled : PartialMap κ ν
  /-- The same, of those that have not left. -/
  present : PartialMap κ ν
  jobs : PartialMap ι (Job ν κ ρ)

namespace Broker

inductive Action (ν κ ι ρ : Type*) where
  | enroll (k : κ) (n : ν)
  | leave (k : κ)
  | submit (i : ι) (n : ν)
  /-- Nobody holds the name of the job. -/
  | refuse (i : ι)
  | give (i : ι) (k : κ)
  | answer (i : ι) (k : κ) (r : ρ)
  | collect (i : ι) (r : ρ)
  /-- The job is given up. -/
  | close (i : ι)

def empty : Broker ν κ ι ρ where
  holder := PartialMap.empty
  enrolled := PartialMap.empty
  present := PartialMap.empty
  jobs := PartialMap.empty

section

variable [DecidableEq ν] [DecidableEq κ] [DecidableEq ι]

/-- A job after the worker `k` left. -/
def lose (k : κ) : Job ν κ ρ → Job ν κ ρ
  | .given k' => if k' = k then .lost else .given k'
  | j => j

/-- The holders after `k` gave up the name `n`. -/
def released (holder : PartialMap ν κ) (k : κ) (n : ν) : PartialMap ν κ :=
  if holder n = some k then holder.erase n else holder

/-- The steps of a broker. -/
inductive Step : Broker ν κ ι ρ → Action ν κ ι ρ → Broker ν κ ι ρ → Prop where
  | enroll {b : Broker ν κ ι ρ} {k : κ} {n : ν} (hk : b.enrolled k = none) :
      Step b (.enroll k n)
        { b with
          holder := b.holder.insert n k
          enrolled := b.enrolled.insert k n
          present := b.present.insert k n }
  | leave {b : Broker ν κ ι ρ} {k : κ} {n : ν} (hk : b.present k = some n) :
      Step b (.leave k)
        { b with
          holder := released b.holder k n
          present := b.present.erase k
          jobs := fun i => (b.jobs i).map (lose k) }
  | submit {b : Broker ν κ ι ρ} {i : ι} {n : ν} (hi : b.jobs i = none) :
      Step b (.submit i n) { b with jobs := b.jobs.insert i (.waiting n) }
  | refuse {b : Broker ν κ ι ρ} {i : ι} {n : ν} (hi : b.jobs i = some (.waiting n))
      (hn : b.holder n = none) : Step b (.refuse i) { b with jobs := b.jobs.insert i .failed }
  | give {b : Broker ν κ ι ρ} {i : ι} {n : ν} {k : κ} (hi : b.jobs i = some (.waiting n))
      (hn : b.holder n = some k) :
      Step b (.give i k) { b with jobs := b.jobs.insert i (.given k) }
  | answer {b : Broker ν κ ι ρ} {i : ι} {k : κ} {r : ρ} (hi : b.jobs i = some (.given k)) :
      Step b (.answer i k r) { b with jobs := b.jobs.insert i (.answered k r) }
  /-- An answer to a job that was given up. -/
  | late {b : Broker ν κ ι ρ} {i : ι} {k : κ} {r : ρ} (hi : b.jobs i = some .failed) :
      Step b (.answer i k r) b
  | collect {b : Broker ν κ ι ρ} {i : ι} {k : κ} {r : ρ} (hi : b.jobs i = some (.answered k r)) :
      Step b (.collect i r) { b with jobs := b.jobs.insert i (.done r) }
  | close {b : Broker ν κ ι ρ} {i : ι} {j : Job ν κ ρ} (hi : b.jobs i = some j)
      (hj : ∀ r, j ≠ .done r) : Step b (.close i) { b with jobs := b.jobs.insert i .failed }

end

/-! ### One job -/

section

variable {b : Broker ν κ ι ρ} {a : Action ν κ ι ρ} {l t : List (Action ν κ ι ρ)} {i : ι} {k : κ}
  {r : ρ} {j j' : Job ν κ ρ}

theorem lose_of_ne [DecidableEq κ] (hj : j ≠ .given k) : lose k j = j := by
  cases j with
  | given k' =>
      refine if_neg fun e => hj ?_
      rw [e]
  | _ => rfl

/-- The action is one on the job `i`, which stands at `j`. -/
def Action.Moves (i : ι) (j : Job ν κ ρ) : Action ν κ ι ρ → Prop
  | .refuse i' | .give i' _ | .answer i' _ _ | .collect i' _ | .close i' => i' = i
  | .leave k => j = .given k
  | _ => False

/-- What an action makes of the job `i`. -/
inductive Move (b : Broker ν κ ι ρ) (i : ι) : Job ν κ ρ → Action ν κ ι ρ → Job ν κ ρ → Prop where
  | refuse {n : ν} : Move b i (.waiting n) (.refuse i) .failed
  | give {n : ν} {k : κ} (hn : b.holder n = some k) : Move b i (.waiting n) (.give i k) (.given k)
  | answer {k : κ} {r : ρ} : Move b i (.given k) (.answer i k r) (.answered k r)
  | late {k : κ} {r : ρ} : Move b i .failed (.answer i k r) .failed
  | collect {k : κ} {r : ρ} : Move b i (.answered k r) (.collect i r) (.done r)
  | close {j : Job ν κ ρ} (hj : ∀ r, j ≠ .done r) : Move b i j (.close i) .failed
  | lost {k : κ} : Move b i (.given k) (.leave k) .lost
  | other {a : Action ν κ ι ρ} {j : Job ν κ ρ} (h : ¬ a.Moves i j) : Move b i j a j

/-- The actions that brought the job `i` to where it stands. -/
inductive Trail (i : ι) : Job ν κ ρ → List (Action ν κ ι ρ) → Prop where
  | waiting {n : ν} : Trail i (.waiting n) [.submit i n]
  | given {n : ν} {k : κ} {t : List (Action ν κ ι ρ)} (h : Trail i (.waiting n) t) :
      Trail i (.given k) (t ++ [.give i k])
  | answered {k : κ} {r : ρ} {t : List (Action ν κ ι ρ)} (h : Trail i (.given k) t) :
      Trail i (.answered k r) (t ++ [.answer i k r])
  | lost {k : κ} {t : List (Action ν κ ι ρ)} (h : Trail i (.given k) t) :
      Trail i .lost (t ++ [.leave k])
  | done {k : κ} {r : ρ} {t : List (Action ν κ ι ρ)} (h : Trail i (.answered k r) t) :
      Trail i (.done r) (t ++ [.collect i r])
  | refused {n : ν} {t : List (Action ν κ ι ρ)} (h : Trail i (.waiting n) t) :
      Trail i .failed (t ++ [.refuse i])
  | closed {j : Job ν κ ρ} {t : List (Action ν κ ι ρ)} (h : Trail i j t) :
      Trail i .failed (t ++ [.close i])

theorem Trail.of_waiting {n : ν} (h : Trail i (.waiting n : Job ν κ ρ) t) : t = [.submit i n] := by
  cases h with | waiting => rfl

theorem Trail.of_answered (h : Trail i (.answered k r : Job ν κ ρ) t) :
    ∃ n, t = [.submit i n, .give i k, .answer i k r] := by
  cases h with
  | answered h =>
      cases h with
      | given h => exact ⟨_, by rw [h.of_waiting]; rfl⟩

/-- The trail of a job grows by what moves it. -/
theorem Move.trail (hm : Move b i j a j') (h : Trail i j t) (ht : t.Sublist l) :
    ∃ t', Trail i j' t' ∧ t'.Sublist (l ++ [a]) := by
  have grow : ∀ {j'}, Trail i j' (t ++ [a]) → ∃ t', Trail i j' t' ∧ t'.Sublist (l ++ [a]) :=
    fun h' => ⟨_, h', ht.append_right [a]⟩
  have stay : ∃ t', Trail i j t' ∧ t'.Sublist (l ++ [a]) :=
    ⟨t, h, ht.trans (List.sublist_append_left ..)⟩
  cases hm with
  | refuse => exact grow (.refused h)
  | give _ => exact grow (.given h)
  | answer => exact grow (.answered h)
  | collect => exact grow (.done h)
  | close _ => exact grow (.closed h)
  | lost => exact grow (.lost h)
  | late | other _ => exact stay

theorem Move.not_waiting (hm : Move b i j a j') (hj : ∀ n, j ≠ .waiting n) (n : ν) :
    j' ≠ .waiting n := by
  cases hm with
  | late | other _ => exact hj n
  | _ => simp

theorem Move.of_done (hm : Move b i (.done r) a j') : j' = .done r := by
  cases hm with
  | close hj => exact absurd rfl (hj r)
  | other _ => rfl

end

/-! ### One step -/

section

variable [DecidableEq ν] [DecidableEq κ] [DecidableEq ι]
  {b b' : Broker ν κ ι ρ} {a : Action ν κ ι ρ} {i : ι} {k : κ} {n : ν} {r : ρ} {j j' : Job ν κ ρ}

/-- A job stays, and makes one move. -/
theorem Step.job_move (h : Step b a b') (hi : b.jobs i = some j) :
    ∃ j', b'.jobs i = some j' ∧ Move b i j a j' := by
  -- a write to the job `i'`
  have write : ∀ {i' j₁ j₂}, b.jobs i' = some j₁ → (i' = i → Move b i j₁ a j₂) →
      (i' ≠ i → ¬ a.Moves i j) → ∃ j', (b.jobs.insert i' j₂) i = some j' ∧ Move b i j a j' := by
    intro i' j₁ j₂ hi' hsame hother
    by_cases hc : i' = i
    · subst hc
      cases hi.symm.trans hi'
      exact ⟨j₂, PartialMap.insert_same .., hsame rfl⟩
    · exact ⟨j, (PartialMap.insert_other (Ne.symm hc)).trans hi, .other (hother hc)⟩
  cases h with
  | enroll _ => exact ⟨j, hi, .other not_false⟩
  | @leave k n _ =>
      refine ⟨_, congrArg (Option.map (lose k)) hi, ?_⟩
      by_cases hj : j = .given k
      · subst hj
        rw [lose, if_pos rfl]
        exact .lost
      · rw [lose_of_ne hj]
        exact .other hj
  | @submit i' n hi' =>
      have hne : i ≠ i' := by
        rintro rfl
        rw [hi'] at hi; cases hi
      exact ⟨j, (PartialMap.insert_other hne).trans hi, .other not_false⟩
  | refuse hi' _ => exact write hi' (fun hc => hc ▸ .refuse) id
  | give hi' hn => exact write hi' (fun hc => hc ▸ .give hn) id
  | answer hi' => exact write hi' (fun hc => hc ▸ .answer) id
  | @late i' k r hi' =>
      refine ⟨j, hi, ?_⟩
      by_cases hc : i' = i
      · subst hc
        cases hi.symm.trans hi'
        exact .late
      · exact .other hc
  | collect hi' => exact write hi' (fun hc => hc ▸ .collect) id
  | close hi' hj => exact write hi' (fun hc => hc ▸ .close hj) id

/-- A job is there after a step only if it was, or was submitted. -/
theorem Step.job_move_inv (h : Step b a b') (hi : b'.jobs i = some j') :
    (∃ n, a = .submit i n ∧ j' = .waiting n) ∨ ∃ j, b.jobs i = some j ∧ Move b i j a j' := by
  cases hj : b.jobs i with
  | some j =>
      obtain ⟨j₁, hj₁, hm⟩ := h.job_move hj
      cases hj₁.symm.trans hi
      exact .inr ⟨j, rfl, hm⟩
  | none =>
      have absent : ∀ {i' j₁ j₂}, b.jobs i' = some j₁ → (b.jobs.insert i' j₂) i ≠ some j' := by
        intro i' j₁ j₂ hi' h
        rcases PartialMap.insert_eq_some.mp h with ⟨rfl, -⟩ | ⟨-, h⟩
        · rw [hj] at hi'; cases hi'
        · rw [hj] at h; cases h
      cases h with
      | enroll _ | late _ => rw [hj] at hi; cases hi
      | @leave k n _ => cases (congrArg (Option.map (lose k)) hj).symm.trans hi
      | submit _ =>
          rcases PartialMap.insert_eq_some.mp hi with ⟨rfl, rfl⟩ | ⟨-, hi⟩
          · exact .inl ⟨_, rfl, rfl⟩
          · rw [hj] at hi; cases hi
      | refuse hi' _ | give hi' _ | answer hi' | collect hi' | close hi' _ =>
          exact absurd hi (absent hi')

/-- Who holds a name is present, who is present has enrolled, and who has a job is present. -/
structure Wf (b : Broker ν κ ι ρ) : Prop where
  holder : ∀ {n k}, b.holder n = some k → b.present k = some n
  present : ∀ {k n}, b.present k = some n → b.enrolled k = some n
  given : ∀ {i k}, b.jobs i = some (.given k) → ∃ n, b.present k = some n

theorem Step.enrolled (h : Step b a b') (hk : b.enrolled k = some n) : b'.enrolled k = some n := by
  cases h with
  | enroll hk' =>
      refine (PartialMap.insert_other ?_).trans hk
      rintro rfl
      rw [hk'] at hk; cases hk
  | _ => exact hk

/-- A worker has just enrolled, or was present and has not left. -/
theorem Step.present_inv (h : Step b a b') (hk : b'.present k = some n) :
    a = .enroll k n ∨ b.present k = some n ∧ a ≠ .leave k := by
  cases h with
  | enroll _ =>
      rcases PartialMap.insert_eq_some.mp hk with ⟨rfl, rfl⟩ | ⟨-, hk⟩
      · exact .inl rfl
      · exact .inr ⟨hk, by simp⟩
  | leave _ =>
      obtain ⟨hne, hk⟩ := PartialMap.erase_eq_some.mp hk
      exact .inr ⟨hk, by simpa using hne.symm⟩
  | _ => exact .inr ⟨hk, by simp⟩

/-- A worker is present until it leaves. -/
theorem Step.present (h : Step b a b') (hb : Wf b) (hk : b.present k = some n)
    (ha : a ≠ .leave k) : b'.present k = some n := by
  cases h with
  | enroll hk' =>
      refine (PartialMap.insert_other ?_).trans hk
      rintro rfl
      rw [hb.present hk] at hk'; cases hk'
  | leave _ => exact (PartialMap.erase_other fun e => ha (congrArg _ e.symm)).trans hk
  | _ => exact hk

/-- Who holds a name has just enrolled, or held it and has not left. -/
theorem Step.holder_inv (h : Step b a b') (hb : Wf b) (hn : b'.holder n = some k) :
    a = .enroll k n ∨ b.holder n = some k ∧ a ≠ .leave k := by
  cases h with
  | enroll _ =>
      rcases PartialMap.insert_eq_some.mp hn with ⟨rfl, rfl⟩ | ⟨-, hn⟩
      · exact .inl rfl
      · exact .inr ⟨hn, by simp⟩
  | @leave k' n' hk =>
      refine .inr ?_
      change released b.holder k' n' n = some k at hn
      unfold released at hn
      split at hn
      · obtain ⟨hne, hn⟩ := PartialMap.erase_eq_some.mp hn
        refine ⟨hn, fun e => hne ?_⟩
        cases e
        exact Option.some.inj ((hb.holder hn).symm.trans hk)
      · rename_i hn'
        refine ⟨hn, fun e => hn' ?_⟩
        cases e
        cases (hb.holder hn).symm.trans hk
        exact hn
  | _ => exact .inr ⟨hn, by simp⟩

theorem Step.enroll_inv (h : Step b (.enroll k n) b') :
    b.enrolled k = none ∧ b'.enrolled k = some n ∧ b'.present k = some n := by
  cases h with
  | enroll hk => exact ⟨hk, PartialMap.insert_same .., PartialMap.insert_same ..⟩

theorem Step.leave_inv (h : Step b (.leave k) b') :
    b'.present k = none ∧ ∃ n, b.present k = some n := by
  cases h with | leave hk => exact ⟨PartialMap.erase_same .., _, hk⟩

theorem Step.wf (h : Step b a b') (hb : Wf b) : Wf b' where
  holder hn := by
    rcases h.holder_inv hb hn with rfl | ⟨hn, ha⟩
    · exact h.enroll_inv.2.2
    · exact h.present hb (hb.holder hn) ha
  present hk := by
    rcases h.present_inv hk with rfl | ⟨hk, -⟩
    · exact h.enroll_inv.2.1
    · exact h.enrolled (hb.present hk)
  given {i k} hi := by
    rcases h.job_move_inv hi with ⟨n, -, hj⟩ | ⟨j, hj, hm⟩
    · cases hj
    · cases hm with
      | give hn => exact ⟨_, h.present hb (hb.holder hn) (by simp)⟩
      | other ha =>
          obtain ⟨n, hk⟩ := hb.given hj
          exact ⟨n, h.present hb hk fun e => ha (by rw [e]; rfl)⟩

end

/-! ### Every run -/

section

variable {b : Broker ν κ ι ρ} {a : Action ν κ ι ρ} {l : List (Action ν κ ι ρ)} {i : ι} {r : ρ}

/-- The job of an action that gives one. -/
def Action.gives : Action ν κ ι ρ → Option ι
  | .give i _ => some i
  | _ => none

/-- The job of an action that collects one. -/
def Action.collects : Action ν κ ι ρ → Option ι
  | .collect i _ => some i
  | _ => none

theorem Action.gives_eq_some : a.gives = some i ↔ ∃ k, a = .give i k := by
  cases a <;> simp [Action.gives]

theorem Action.collects_eq_some : a.collects = some i ↔ ∃ r, a = .collect i r := by
  cases a <;> simp [Action.collects]

/-- What holds after the actions `l`. -/
structure Sound (l : List (Action ν κ ι ρ)) (b : Broker ν κ ι ρ) : Prop where
  wf : Wf b
  enrolled : ∀ {k n}, b.enrolled k = some n → .enroll k n ∈ l
  left : ∀ {k}, .leave k ∈ l → b.present k = none ∧ ∃ n, b.enrolled k = some n
  /-- Every job has the history its state tells of. -/
  trail : ∀ {i j}, b.jobs i = some j → ∃ t, Trail i j t ∧ t.Sublist l
  given : ∀ {i k}, .give i k ∈ l → ∃ j, b.jobs i = some j ∧ ∀ n, j ≠ .waiting n
  collected : ∀ {i r}, .collect i r ∈ l → b.jobs i = some (.done r)
  /-- A job is given for the name it was submitted for, to a worker that enrolled under it and has
  not left. -/
  order : ∀ {i k}, .give i k ∈ l → ∃ n, [.submit i n, .give i k].Sublist l ∧
    [.enroll k n, .give i k].Sublist l ∧ ¬ [.leave k, .give i k].Sublist l
  /-- A job is given once. -/
  gives : (l.filterMap Action.gives).Nodup
  /-- A job is collected once. -/
  collects : (l.filterMap Action.collects).Nodup

theorem sound_empty : Sound [] (empty : Broker ν κ ι ρ) where
  wf := ⟨by rintro _ _ ⟨⟩, by rintro _ _ ⟨⟩, by rintro _ _ ⟨⟩⟩
  enrolled := by rintro _ _ ⟨⟩
  left := by rintro _ ⟨⟩
  trail := by rintro _ _ ⟨⟩
  given := by rintro _ _ ⟨⟩
  collected := by rintro _ _ ⟨⟩
  order := by rintro _ _ ⟨⟩
  gives := .nil
  collects := .nil

/-- What is collected of a job is what the worker it was given to answered. -/
theorem Sound.answered_of_collected (hb : Sound l b) (hi : .collect i r ∈ l) :
    ∃ n k, [.submit i n, .give i k, .answer i k r, .collect i r].Sublist l := by
  obtain ⟨t, ht, hl⟩ := hb.trail (hb.collected hi)
  cases ht with
  | @done k _ t h =>
      obtain ⟨n, rfl⟩ := h.of_answered
      exact ⟨n, k, hl⟩

end

theorem sublist_left {α : Type*} {xs l : List α} {x : α} (h : xs.Sublist l) :
    xs.Sublist (l ++ [x]) := h.trans (List.sublist_append_left ..)

theorem pair_sublist_snoc {α : Type*} {l : List α} {x y z : α} (h : [x, y].Sublist (l ++ [z])) :
    [x, y].Sublist l ∨ y = z ∧ x ∈ l := by
  obtain ⟨l₁, l₂, he, h₁, h₂⟩ := List.sublist_append_iff.mp h
  rcases List.sublist_singleton.mp h₂ with rfl | rfl
  · rw [List.append_nil] at he
    exact .inl (he ▸ h₁)
  · obtain ⟨rfl, hz⟩ := List.append_inj' (show [x] ++ [y] = l₁ ++ [z] from he) rfl
    cases hz
    exact .inr ⟨rfl, List.singleton_sublist.mp h₁⟩

/-- A record without repetition stays so when what is new is not in it. -/
theorem nodup_filterMap_snoc {α β : Type*} {f : α → Option β} {l : List α} {x : α}
    (hl : (l.filterMap f).Nodup) (hx : ∀ b, f x = some b → ∀ y ∈ l, f y ≠ some b) :
    ((l ++ [x]).filterMap f).Nodup := by
  rw [List.filterMap_append]
  cases hf : f x with
  | none => simpa [hf] using hl
  | some b =>
      refine List.Nodup.append hl (by simp [hf]) ?_
      intro c hc hb
      obtain ⟨y, hy, hfy⟩ := List.mem_filterMap.mp hc
      obtain rfl : b = c := by simpa [hf, eq_comm] using hb
      exact hx b hf y hy hfy

section

variable [DecidableEq ν] [DecidableEq κ] [DecidableEq ι]
  {b b' : Broker ν κ ι ρ} {a : Action ν κ ι ρ} {l : List (Action ν κ ι ρ)} {i : ι} {k : κ} {n : ν}
  {r : ρ} {j : Job ν κ ρ}

theorem Sound.enrolled_step (h : Step b a b') (hb : Sound l b) (hk : b'.enrolled k = some n) :
    .enroll k n ∈ l ++ [a] := by
  cases h with
  | enroll _ =>
      rcases PartialMap.insert_eq_some.mp hk with ⟨rfl, rfl⟩ | ⟨-, hk⟩
      · simp
      · exact List.mem_append_left _ (hb.enrolled hk)
  | _ => exact List.mem_append_left _ (hb.enrolled hk)

theorem Sound.left_step (h : Step b a b') (hb : Sound l b) (hk : .leave k ∈ l ++ [a]) :
    b'.present k = none ∧ ∃ n, b'.enrolled k = some n := by
  rcases List.mem_append.mp hk with hk | hk
  · obtain ⟨hp, n, hn⟩ := hb.left hk
    refine ⟨Option.eq_none_iff_forall_ne_some.mpr fun n' hn' => ?_, n, h.enrolled hn⟩
    rcases h.present_inv hn' with rfl | ⟨hn', -⟩
    · rw [h.enroll_inv.1] at hn; cases hn
    · rw [hp] at hn'; cases hn'
  · obtain rfl := List.mem_singleton.mp hk
    obtain ⟨hp, n, hn⟩ := h.leave_inv
    exact ⟨hp, n, h.enrolled (hb.wf.present hn)⟩

theorem Sound.trail_step (h : Step b a b') (hb : Sound l b) (hi : b'.jobs i = some j) :
    ∃ t, Trail i j t ∧ t.Sublist (l ++ [a]) := by
  rcases h.job_move_inv hi with ⟨n, rfl, rfl⟩ | ⟨j₀, hj₀, hm⟩
  · exact ⟨_, .waiting, List.sublist_append_right ..⟩
  · obtain ⟨t, ht, hl⟩ := hb.trail hj₀
    exact hm.trail ht hl

theorem Step.give_inv (h : Step b (.give i k) b') :
    ∃ n, b.jobs i = some (.waiting n) ∧ b.holder n = some k ∧ b'.jobs i = some (.given k) := by
  cases h with | give hi hn => exact ⟨_, hi, hn, PartialMap.insert_same ..⟩

theorem Step.collect_inv (h : Step b (.collect i r) b') :
    ∃ k, b.jobs i = some (.answered k r) ∧ b'.jobs i = some (.done r) := by
  cases h with | collect hi => exact ⟨_, hi, PartialMap.insert_same ..⟩

theorem Sound.given_step (h : Step b a b') (hb : Sound l b) (hi : .give i k ∈ l ++ [a]) :
    ∃ j, b'.jobs i = some j ∧ ∀ n, j ≠ .waiting n := by
  rcases List.mem_append.mp hi with hi | hi
  · obtain ⟨j, hj, hne⟩ := hb.given hi
    obtain ⟨j', hj', hm⟩ := h.job_move hj
    exact ⟨j', hj', hm.not_waiting hne⟩
  · obtain rfl := List.mem_singleton.mp hi
    obtain ⟨-, -, -, hj⟩ := h.give_inv
    exact ⟨_, hj, by simp⟩

theorem Sound.collected_step (h : Step b a b') (hb : Sound l b) (hi : .collect i r ∈ l ++ [a]) :
    b'.jobs i = some (.done r) := by
  rcases List.mem_append.mp hi with hi | hi
  · obtain ⟨j', hj', hm⟩ := h.job_move (hb.collected hi)
    rw [hj', hm.of_done]
  · obtain rfl := List.mem_singleton.mp hi
    obtain ⟨-, -, hj⟩ := h.collect_inv
    exact hj

theorem Sound.order_step (h : Step b a b') (hb : Sound l b) (hi : .give i k ∈ l ++ [a]) :
    ∃ n, [.submit i n, .give i k].Sublist (l ++ [a]) ∧
      [.enroll k n, .give i k].Sublist (l ++ [a]) ∧
      ¬ [.leave k, .give i k].Sublist (l ++ [a]) := by
  by_cases ha : a = .give i k
  · subst ha
    obtain ⟨n, hw, hn, -⟩ := h.give_inv
    obtain ⟨t, ht, hl⟩ := hb.trail hw
    rw [ht.of_waiting] at hl
    have hp := hb.wf.holder hn
    have he := hb.enrolled (hb.wf.present hp)
    refine ⟨n, hl.append_right _, (List.singleton_sublist.mpr he).append_right _, fun hs => ?_⟩
    have hleft : .leave k ∈ l := by
      rcases pair_sublist_snoc hs with hs | ⟨-, hmem⟩
      · exact hs.subset (by simp)
      · exact hmem
    rw [(hb.left hleft).1] at hp; cases hp
  · have hi' : .give i k ∈ l := by
      rcases List.mem_append.mp hi with hi | hi
      · exact hi
      · exact absurd (List.mem_singleton.mp hi).symm ha
    obtain ⟨n, h₁, h₂, h₃⟩ := hb.order hi'
    refine ⟨n, sublist_left h₁, sublist_left h₂, fun hs => ?_⟩
    rcases pair_sublist_snoc hs with hs | ⟨e, -⟩
    · exact h₃ hs
    · exact ha e.symm

theorem Sound.gives_step (h : Step b a b') (hb : Sound l b) :
    ((l ++ [a]).filterMap Action.gives).Nodup := by
  refine nodup_filterMap_snoc hb.gives fun i ha y hy hyi => ?_
  obtain ⟨k, rfl⟩ := Action.gives_eq_some.mp ha
  obtain ⟨k', rfl⟩ := Action.gives_eq_some.mp hyi
  obtain ⟨n, hw, -⟩ := h.give_inv
  obtain ⟨j, hj, hne⟩ := hb.given hy
  cases hw.symm.trans hj
  exact hne n rfl

theorem Sound.collects_step (h : Step b a b') (hb : Sound l b) :
    ((l ++ [a]).filterMap Action.collects).Nodup := by
  refine nodup_filterMap_snoc hb.collects fun i ha y hy hyi => ?_
  obtain ⟨r, rfl⟩ := Action.collects_eq_some.mp ha
  obtain ⟨r', rfl⟩ := Action.collects_eq_some.mp hyi
  obtain ⟨k, hk, -⟩ := h.collect_inv
  cases hk.symm.trans (hb.collected hy)

/-- **Every run of a broker is sound.** -/
theorem sound_of_run (h : Lts.Run Step empty l b) : Sound l b := by
  refine h.invariant Sound sound_empty fun _ hb hs => ?_
  exact
    { wf := hs.wf hb.wf
      enrolled := hb.enrolled_step hs
      left := hb.left_step hs
      trail := hb.trail_step hs
      given := hb.given_step hs
      collected := hb.collected_step hs
      order := hb.order_step hs
      gives := hb.gives_step hs
      collects := hb.collects_step hs }

end

end Broker
