import Mathlib

/-!
# Ruby — calls without the GVL

`without_gvl` of the extension and the loop its callers put around it.  A `Call` is a call of a
native method on its Ruby thread: the interrupts that are pending there, and where the call stands.
`func` is left open: `ω` is what it may be doing, `α` what it gives.

`rb_thread_call_without_gvl2` does not call `func` while an interrupt is pending, and an interrupt
that comes while `func` runs notifies `cancel`.  What `func` gave is returned without a look at the
interrupts; where it gave nothing or was not called, they are handled, and the next attempt begins
unless one of them raises (`Call.settle_inv`).  So what is raised has hit the thread
(`Call.Struck`).
-/

namespace Outpunch.Gvl

variable {ε ω α : Type}

/-- What hits a Ruby thread. -/
inductive Interrupt (ε : Type) where
  /-- It raises nothing: `Thread#wakeup`, the VM timer, a signal. -/
  | quiet
  /-- An exception the thread defers (`Thread.handle_interrupt`). -/
  | deferred (err : ε)
  /-- `Thread#raise`, `Thread#kill`, `Timeout`. -/
  | raises (err : ε)
  deriving DecidableEq

/-- `thread_check_ints`: the first exception that is not deferred is raised. -/
def checkInts : List (Interrupt ε) → Except ε Unit × List (Interrupt ε)
  | [] => (.ok (), [])
  | .raises err :: rest => (.error err, rest)
  | .quiet :: rest | .deferred _ :: rest => checkInts rest

/-- The check, which is not made where `func` gave a value. -/
def checked (result : Option (Option α)) (pending : List (Interrupt ε)) :
    Except ε Unit × List (Interrupt ε) :=
  match result with
  | some (some _) => (.ok (), pending)
  | _ => checkInts pending

/-- The end of the loop body of `without_gvl`: `result` is `None` where `func` was not called, and
`checked` what the check gives; `none` where the loop goes on. -/
def withoutGvl (result : Option (Option α)) (checked : Except ε Unit) :
    Option (Except ε (Option α)) :=
  match result, checked with
  | some (some value), _ => some (.ok (some value))
  | some none, .ok () => some (.ok none)
  | none, .ok () => none
  | _, .error err => some (.error err)

/-- The end of the loop body of `push_message` and `next_outgoing`; `none` where it goes on. -/
def retry : Except ε (Option α) → Option (Except ε α)
  | .ok (some value) => some (.ok value)
  | .ok none => none
  | .error err => some (.error err)

/-- Where a call stands. -/
inductive CallPhase (ε ω α : Type) where
  /-- At `rb_thread_call_without_gvl2`, with a new `cancel`. -/
  | entering
  /-- In `func`; `permit` says that `cancel` was notified. -/
  | inside (work : ω) (permit : Bool)
  /-- After it. -/
  | left (result : Option (Option α))
  | returned (value : α)
  | raised (err : ε)
  deriving DecidableEq

/-- What `func` gave, once it gave something. -/
def CallPhase.result : CallPhase ε ω α → Option α
  | .left (some (some value)) | .returned value => some value
  | _ => none

/-- A call of a native method. -/
structure Call (ε ω α : Type) where
  pending : List (Interrupt ε)
  phase : CallPhase ε ω α

namespace Call

def new : Call ε ω α where
  pending := []
  phase := .entering

/-- An interrupt hits the thread. -/
def interrupt (k : Call ε ω α) (i : Interrupt ε) : Option (Call ε ω α) :=
  match k.phase with
  | .inside work _ => some { pending := k.pending ++ [i], phase := .inside work true }
  | .entering | .left _ => some { k with pending := k.pending ++ [i] }
  | .returned _ | .raised _ => none

/-- `rb_thread_call_without_gvl2` calls `func`, which begins with `work`, or does not. -/
def enter (k : Call ε ω α) (work : ω) : Option (Call ε ω α) :=
  match k.phase with
  | .entering =>
    some { k with phase := if k.pending.isEmpty then .inside work false else .left none }
  | _ => none

/-- `func` is over, the interrupts are checked where they are, and the loops go on or end. -/
def settle (k : Call ε ω α) : Option (Call ε ω α) :=
  match k.phase with
  | .left result =>
    some {
      pending := (checked result k.pending).2
      phase := match (withoutGvl result (checked result k.pending).1).bind retry with
        | none => .entering
        | some (.ok value) => .returned value
        | some (.error err) => .raised err }
  | _ => none

section

variable [DecidableEq ω]

/-- `func` goes on from `work` to `work'`. -/
def advance (k : Call ε ω α) (work work' : ω) : Option (Call ε ω α) :=
  match k.phase with
  | .inside w permit => if w = work then some { k with phase := .inside work' permit } else none
  | _ => none

/-- `func` gives `value`. -/
def finish (k : Call ε ω α) (work : ω) (value : α) : Option (Call ε ω α) :=
  match k.phase with
  | .inside w _ => if w = work then some { k with phase := .left (some (some value)) } else none
  | _ => none

/-- `func` finds `cancel` notified, and gives nothing. -/
def cancel (k : Call ε ω α) (work : ω) : Option (Call ε ω α) :=
  match k.phase with
  | .inside w true => if w = work then some { k with phase := .left (some none) } else none
  | _ => none

end

end Call

/-! ### The check -/

theorem raises_mem_of_checkInts {l : List (Interrupt ε)} {err : ε}
    (h : (checkInts l).1 = .error err) : .raises err ∈ l := by
  fun_induction checkInts l with
  | case1 => cases h
  | case2 err' rest =>
      cases h
      exact List.mem_cons_self
  | case3 rest ih | case4 _ rest ih => exact List.mem_cons_of_mem _ (ih h)

theorem checkInts_subset (l : List (Interrupt ε)) : (checkInts l).2 ⊆ l := by
  fun_induction checkInts l with
  | case1 => exact List.Subset.refl _
  | case2 err rest => exact List.subset_cons_self _ _
  | case3 rest ih | case4 _ rest ih => exact List.subset_cons_of_subset _ ih

namespace Call

variable {k k' : Call ε ω α}

/-! ### What the steps of a call do -/

/-- What is returned was given by `func`; else the pending interrupts decide. -/
theorem settle_inv (h : k.settle = some k') :
    (∃ value, k.phase = .left (some (some value)) ∧
      k' = { k with phase := .returned value }) ∨
    ((k.phase = .left none ∨ k.phase = .left (some none)) ∧ k'.pending ⊆ k.pending ∧
      (k'.phase = .entering ∨ ∃ err, .raises err ∈ k.pending ∧ k'.phase = .raised err)) := by
  obtain ⟨pending, phase⟩ := k
  cases phase with
  | entering | inside _ _ | returned _ | raised _ => cases h
  | left result =>
      have hsub : (checkInts pending).2 ⊆ pending := checkInts_subset pending
      rcases result with - | - | value
      · cases hc : (checkInts pending).1 with
        | ok u =>
            cases h
            exact .inr ⟨.inl rfl, hsub, .inl (by simp [checked, hc, withoutGvl])⟩
        | error err =>
            cases h
            exact .inr ⟨.inl rfl, hsub, .inr ⟨err, raises_mem_of_checkInts hc,
              by simp [checked, hc, withoutGvl, retry]⟩⟩
      · cases hc : (checkInts pending).1 with
        | ok u =>
            cases h
            exact .inr ⟨.inr rfl, hsub, .inl (by simp [checked, hc, withoutGvl, retry])⟩
        | error err =>
            cases h
            exact .inr ⟨.inr rfl, hsub, .inr ⟨err, raises_mem_of_checkInts hc,
              by simp [checked, hc, withoutGvl, retry]⟩⟩
      · cases h
        exact .inl ⟨value, rfl, rfl⟩

/-- An interrupt is kept for the check, and notifies a `func` that runs. -/
theorem interrupt_inv {i : Interrupt ε} (h : k.interrupt i = some k') :
    k'.pending = k.pending ++ [i] ∧
      ((∃ work permit, k.phase = .inside work permit ∧ k'.phase = .inside work true) ∨
        (k.phase = .entering ∨ ∃ result, k.phase = .left result) ∧ k'.phase = k.phase) := by
  obtain ⟨pending, phase⟩ := k
  cases phase with
  | entering => cases h; exact ⟨rfl, .inr ⟨.inl rfl, rfl⟩⟩
  | inside work permit => cases h; exact ⟨rfl, .inl ⟨work, permit, rfl, rfl⟩⟩
  | left result => cases h; exact ⟨rfl, .inr ⟨.inr ⟨result, rfl⟩, rfl⟩⟩
  | returned _ | raised _ => cases h

theorem enter_inv {work : ω} (h : k.enter work = some k') :
    k.phase = .entering ∧ k'.pending = k.pending ∧
      (k'.phase = .inside work false ∨ k'.phase = .left none) := by
  obtain ⟨pending, phase⟩ := k
  cases phase with
  | entering =>
      cases h
      refine ⟨rfl, rfl, ?_⟩
      by_cases hp : pending.isEmpty
      · exact .inl (if_pos hp)
      · exact .inr (if_neg hp)
  | inside _ _ | left _ | returned _ | raised _ => cases h

section

variable [DecidableEq ω] {work work' : ω}

theorem advance_inv (h : k.advance work work' = some k') :
    ∃ permit, k.phase = .inside work permit ∧ k' = { k with phase := .inside work' permit } := by
  obtain ⟨pending, phase⟩ := k
  cases phase with
  | inside w permit =>
      obtain ⟨rfl, hk⟩ := Option.ite_none_right_eq_some.mp h
      cases hk
      exact ⟨permit, rfl, rfl⟩
  | entering | left _ | returned _ | raised _ => cases h

theorem finish_inv {value : α} (h : k.finish work value = some k') :
    ∃ permit, k.phase = .inside work permit ∧
      k' = { k with phase := .left (some (some value)) } := by
  obtain ⟨pending, phase⟩ := k
  cases phase with
  | inside w permit =>
      obtain ⟨rfl, hk⟩ := Option.ite_none_right_eq_some.mp h
      cases hk
      exact ⟨permit, rfl, rfl⟩
  | entering | left _ | returned _ | raised _ => cases h

/-- `func` gives nothing only where `cancel` was notified. -/
theorem cancel_inv (h : k.cancel work = some k') :
    k.phase = .inside work true ∧ k' = { k with phase := .left (some none) } := by
  obtain ⟨pending, phase⟩ := k
  cases phase with
  | inside w permit =>
      cases permit with
      | false => cases h
      | true =>
          obtain ⟨rfl, hk⟩ := Option.ite_none_right_eq_some.mp h
          cases hk
          exact ⟨rfl, rfl⟩
  | entering | left _ | returned _ | raised _ => cases h

end

/-! ### What `func` gave -/

theorem interrupt_result {i : Interrupt ε} (h : k.interrupt i = some k') :
    k'.phase.result = k.phase.result := by
  rcases (interrupt_inv h).2 with ⟨_, _, hp, hp'⟩ | ⟨-, hp'⟩
  · rw [hp, hp']; rfl
  · rw [hp']

theorem enter_result {work : ω} (h : k.enter work = some k') :
    k'.phase.result = k.phase.result := by
  obtain ⟨hp, -, hp' | hp'⟩ := enter_inv h <;> rw [hp, hp'] <;> rfl

/-- What is given is returned, and where nothing is given nothing is. -/
theorem settle_result (h : k.settle = some k') : k'.phase.result = k.phase.result := by
  rcases settle_inv h with ⟨value, hp, rfl⟩ | ⟨hp, -, hp'⟩
  · rw [hp]; rfl
  · rcases hp with hp | hp <;> rcases hp' with hp' | ⟨err, -, hp'⟩ <;> rw [hp, hp'] <;> rfl

/-- Nothing but the return is left to a call whose `func` gave something. -/
theorem settle_of_value {value : α} (hp : k.phase = .left (some (some value))) :
    k.settle = some { k with phase := .returned value } := by
  obtain ⟨pending, phase⟩ := k
  subst hp
  rfl

/-! ### Where the interrupts come from -/

/-- What is pending or was raised has hit the thread. -/
structure Struck (hit : Interrupt ε → Prop) (k : Call ε ω α) : Prop where
  pending : ∀ i ∈ k.pending, hit i
  raised : ∀ err, k.phase = .raised err → hit (.raises err)

namespace Struck

variable {hit hit' : Interrupt ε → Prop}

theorem new (hit : Interrupt ε → Prop) : Struck hit (new : Call ε ω α) where
  pending _ hi := by cases hi
  raised _ he := by cases he

theorem mono (h : Struck hit k) (hsub : ∀ i, hit i → hit' i) : Struck hit' k where
  pending i hi := hsub i (h.pending i hi)
  raised err he := hsub _ (h.raised err he)

/-- A step that raises nothing and adds no interrupt. -/
theorem keep (h : Struck hit k) (hp : k'.pending = k.pending)
    (hr : ∀ err, k'.phase ≠ .raised err) : Struck hit k' where
  pending i hi := h.pending i (hp ▸ hi)
  raised err he := absurd he (hr err)

theorem interrupt {i : Interrupt ε} (h : Struck hit k) (hi : hit i)
    (hk : k.interrupt i = some k') : Struck hit k' := by
  obtain ⟨hp, hphase⟩ := interrupt_inv hk
  constructor
  · intro j hj
    rw [hp] at hj
    rcases List.mem_append.mp hj with hj | hj
    · exact h.pending j hj
    · exact List.mem_singleton.mp hj ▸ hi
  · intro err he
    rcases hphase with ⟨_, _, -, hphase⟩ | ⟨-, hphase⟩
    · rw [hphase] at he; cases he
    · exact h.raised err (hphase ▸ he)

theorem settle (h : Struck hit k) (hk : k.settle = some k') : Struck hit k' := by
  rcases settle_inv hk with ⟨value, -, rfl⟩ | ⟨-, hsub, hphase⟩
  · exact h.keep rfl fun _ he => by cases he
  · refine ⟨fun i hi => h.pending i (hsub hi), fun err he => ?_⟩
    rcases hphase with hphase | ⟨err', hmem, hphase⟩
    · rw [hphase] at he; cases he
    · cases hphase.symm.trans he
      exact h.pending _ hmem

end Struck

end Call

end Outpunch.Gvl
