import Mathlib

/-!
# Library — computations that call out and may raise

`Traced κ ε α` is what a computation did: the calls it made, in order, and its value or what it
raised.  The calls made before something was raised stay made.  `rescue` catches;
`each` runs handlers one after the other on a value they hand on, and stops at the first that
raises.  `InTurn` says the same as a relation, and `each_inTurn` that `each` does it.

`eachSelected` first tests which handlers are to run; a test may raise as well, and then none runs
(`Selected`, `eachSelected_selected`).
-/

/-- A computation that is over: its calls, and its value or what it raised. -/
structure Traced (κ ε α : Type) where
  calls : List κ
  result : Except ε α

namespace Traced

variable {κ ε ε' α β η σ : Type}

instance : Monad (Traced κ ε) where
  pure a := { calls := [], result := .ok a }
  bind x f :=
    match x.result with
    | .ok a => { calls := x.calls ++ (f a).calls, result := (f a).result }
    | .error e => { calls := x.calls, result := .error e }

/-- Raises `e`. -/
def raise (e : ε) : Traced κ ε α where
  calls := []
  result := .error e

/-- One call, and what comes of it. -/
def call (k : κ) (result : Except ε α) : Traced κ ε α where
  calls := [k]
  result := result

/-- What is raised is handled. -/
def rescue (x : Traced κ ε α) (handler : ε → Except ε' α) : Traced κ ε' α where
  calls := x.calls
  result := match x.result with
    | .ok a => .ok a
    | .error e => handler e

/-! ### What a computation does after another -/

@[simp] theorem calls_pure (a : α) : (pure a : Traced κ ε α).calls = [] := rfl

@[simp] theorem result_pure (a : α) : (pure a : Traced κ ε α).result = .ok a := rfl

@[simp] theorem calls_call (k : κ) (r : Except ε α) : (call k r).calls = [k] := rfl

@[simp] theorem result_call (k : κ) (r : Except ε α) : (call k r).result = r := rfl

@[simp] theorem calls_rescue (x : Traced κ ε α) (handler : ε → Except ε' α) :
    (x.rescue handler).calls = x.calls := rfl

section

variable {x : Traced κ ε α} {f : α → Traced κ ε β}

theorem bind_of_ok {a : α} (h : x.result = .ok a) :
    x >>= f = { calls := x.calls ++ (f a).calls, result := (f a).result } := by
  show (match x.result with
    | .ok a => _
    | .error e => _) = _
  rw [h]

theorem bind_of_error {e : ε} (h : x.result = .error e) :
    x >>= f = { calls := x.calls, result := .error e } := by
  show (match x.result with
    | .ok a => _
    | .error e => _) = _
  rw [h]

theorem result_rescue_of_ok {handler : ε → Except ε' α} {a : α} (h : x.result = .ok a) :
    (x.rescue handler).result = .ok a := by
  rw [rescue, h]

theorem result_rescue_of_error {handler : ε → Except ε' α} {e : ε} (h : x.result = .error e) :
    (x.rescue handler).result = handler e := by
  rw [rescue, h]

end

/-! ### Handlers in turn -/

/-- Runs handlers in order on a value they hand on. -/
def each (record : η → Except ε σ → κ) (run : η → σ → Except ε σ) : List η → σ → Traced κ ε σ
  | [], s => pure s
  | h :: hs, s => do
    let s' ← call (record h (run h s)) (run h s)
    each record run hs s'

/-- These handlers run one after the other, each with its outcome, until one raises. -/
inductive InTurn (run : η → σ → Except ε σ) :
    List η → σ → List (η × Except ε σ) → Except ε σ → Prop where
  | done {s : σ} : InTurn run [] s [] (.ok s)
  | next {h : η} {hs : List η} {s s' : σ} {ran : List (η × Except ε σ)} {out : Except ε σ}
      (hr : run h s = .ok s') (ht : InTurn run hs s' ran out) :
      InTurn run (h :: hs) s ((h, .ok s') :: ran) out
  | stop {h : η} {hs : List η} {s : σ} {e : ε} (hr : run h s = .error e) :
      InTurn run (h :: hs) s [(h, .error e)] (.error e)

section

variable {record : η → Except ε σ → κ} {run : η → σ → Except ε σ} {hs : List η} {s : σ}
  {ran ran' : List (η × Except ε σ)} {out out' : Except ε σ}

/-- **`each` runs its handlers in turn.** -/
theorem each_inTurn (record : η → Except ε σ → κ) (run : η → σ → Except ε σ) (hs : List η)
    (s : σ) : ∃ ran, InTurn run hs s ran (each record run hs s).result ∧
      (each record run hs s).calls = ran.map fun p => record p.1 p.2 := by
  induction hs generalizing s with
  | nil => exact ⟨[], .done, rfl⟩
  | cons h hs ih =>
      cases hr : run h s with
      | error e =>
          have heach : each record run (h :: hs) s =
              { calls := [record h (.error e)], result := .error e } := by
            rw [each, hr, bind_of_error (result_call ..), calls_call]
          rw [heach]
          exact ⟨_, .stop hr, rfl⟩
      | ok s' =>
          obtain ⟨ran, hturn, hcalls⟩ := ih s'
          have heach : each record run (h :: hs) s =
              { calls := record h (.ok s') :: (each record run hs s').calls
                result := (each record run hs s').result } := by
            rw [each, hr, bind_of_ok (result_call ..), calls_call, List.singleton_append]
          rw [heach, hcalls]
          exact ⟨_, .next hr hturn, rfl⟩

namespace InTurn

/-- There is one way to run handlers in turn. -/
theorem unique (h : InTurn run hs s ran out) (h' : InTurn run hs s ran' out') :
    ran = ran' ∧ out = out' := by
  induction h generalizing ran' with
  | done => cases h'; exact ⟨rfl, rfl⟩
  | next hr _ ih =>
      cases h' with
      | next hr' h' =>
          cases hr.symm.trans hr'
          obtain ⟨rfl, rfl⟩ := ih h'
          exact ⟨rfl, rfl⟩
      | stop hr' => cases hr.symm.trans hr'
  | stop hr =>
      cases h' with
      | next hr' _ => cases hr.symm.trans hr'
      | stop hr' => cases hr.symm.trans hr'; exact ⟨rfl, rfl⟩

/-- The handlers that ran are the first ones, each once. -/
theorem isPrefix (h : InTurn run hs s ran out) : (ran.map Prod.fst).IsPrefix hs := by
  induction h with
  | done => exact List.nil_prefix
  | next _ _ ih => exact List.cons_prefix_cons.mpr ⟨rfl, ih⟩
  | stop _ => exact List.cons_prefix_cons.mpr ⟨rfl, List.nil_prefix⟩

/-- When none raised, all ran. -/
theorem all_ran {s' : σ} (h : InTurn run hs s ran (.ok s')) : ran.map Prod.fst = hs := by
  generalize hout : (.ok s' : Except ε σ) = out at h
  induction h with
  | done => rfl
  | next _ _ ih => rw [List.map_cons, ih hout]
  | stop _ => cases hout

/-- What one raised ended the run. -/
theorem result_of_raised (h : InTurn run hs s ran out) {g : η} {e : ε}
    (hg : (g, .error e) ∈ ran) : out = .error e := by
  induction h with
  | done => cases hg
  | next _ _ ih =>
      rcases List.mem_cons.mp hg with heq | hg
      · cases heq
      · exact ih hg
  | stop _ =>
      cases List.mem_singleton.mp hg
      rfl

end InTurn

end

/-! ### Handlers that are tested first -/

/-- The handlers that pass a test, unless a test raises. -/
def select (test : η → Except ε Bool) : List η → Except ε (List η)
  | [] => .ok []
  | h :: hs => do
    let passed ← test h
    let rest ← select test hs
    return if passed then h :: rest else rest

/-- The test accepts the handler. -/
def passes (test : η → Except ε Bool) (h : η) : Bool :=
  match test h with
  | .ok passed => passed
  | .error _ => false

/-- The tests of these handlers return. -/
def Tested (test : η → Except ε Bool) (hs : List η) : Prop :=
  ∀ h ∈ hs, ∃ passed, test h = .ok passed

/-- Runs the handlers that pass a test, in order. -/
def eachSelected (record : η → Except ε σ → κ) (test : η → Except ε Bool)
    (run : η → σ → Except ε σ) (hs : List η) (s : σ) : Traced κ ε σ :=
  match select test hs with
  | .ok selected => each record run selected s
  | .error e => raise e

/-- Of these handlers, those that pass the test run in turn; where a test raises, none does. -/
inductive Selected (test : η → Except ε Bool) (run : η → σ → Except ε σ) (hs : List η) (s : σ) :
    List (η × Except ε σ) → Except ε σ → Prop where
  | untested {pre post : List η} {h : η} {e : ε} (hsplit : hs = pre ++ h :: post)
      (hpre : Tested test pre) (he : test h = .error e) : Selected test run hs s [] (.error e)
  | tested {ran : List (η × Except ε σ)} {out : Except ε σ} (ht : Tested test hs)
      (hr : InTurn run (hs.filter (passes test)) s ran out) : Selected test run hs s ran out

section

variable {record : η → Except ε σ → κ} {test : η → Except ε Bool} {run : η → σ → Except ε σ}
  {hs : List η} {s : σ} {ran ran' : List (η × Except ε σ)} {out out' : Except ε σ}

theorem select_cases (test : η → Except ε Bool) (hs : List η) :
    (select test hs = .ok (hs.filter (passes test)) ∧ Tested test hs) ∨
      ∃ pre h post e, select test hs = .error e ∧ hs = pre ++ h :: post ∧ Tested test pre ∧
        test h = .error e := by
  induction hs with
  | nil => exact .inl ⟨rfl, by simp [Tested]⟩
  | cons h hs ih =>
      cases ht : test h with
      | error e => exact .inr ⟨[], h, hs, e, by rw [select, ht]; rfl, rfl, by simp [Tested], ht⟩
      | ok passed =>
          have hp : passes test h = passed := by rw [passes, ht]
          rcases ih with ⟨hsel, htested⟩ | ⟨pre, g, post, e, hsel, rfl, hpre, hg⟩
          · refine .inl ⟨?_, List.forall_mem_cons.mpr ⟨⟨passed, ht⟩, htested⟩⟩
            rw [select, ht, hsel, List.filter_cons, hp]
            rfl
          · refine .inr ⟨h :: pre, g, post, e, ?_, rfl,
              List.forall_mem_cons.mpr ⟨⟨passed, ht⟩, hpre⟩, hg⟩
            rw [select, ht, hsel]
            rfl

/-- **`eachSelected` runs the handlers that pass, in turn.** -/
theorem eachSelected_selected (record : η → Except ε σ → κ) (test : η → Except ε Bool)
    (run : η → σ → Except ε σ) (hs : List η) (s : σ) :
    ∃ ran, Selected test run hs s ran (eachSelected record test run hs s).result ∧
      (eachSelected record test run hs s).calls = ran.map fun p => record p.1 p.2 := by
  rcases select_cases test hs with ⟨hsel, htested⟩ | ⟨pre, h, post, e, hsel, hsplit, hpre, he⟩
  · have heach : eachSelected record test run hs s =
        each record run (hs.filter (passes test)) s := by rw [eachSelected, hsel]
    obtain ⟨ran, hturn, hcalls⟩ := each_inTurn record run (hs.filter (passes test)) s
    rw [heach]
    exact ⟨ran, .tested htested hturn, hcalls⟩
  · have heach : eachSelected record test run hs s = raise e := by rw [eachSelected, hsel]
    rw [heach]
    exact ⟨[], .untested hsplit hpre he, rfl⟩

namespace Selected

theorem not_tested {pre post : List η} {h : η} {e : ε} (hsplit : hs = pre ++ h :: post)
    (he : test h = .error e) : ¬ Tested test hs := by
  intro ht
  obtain ⟨passed, hp⟩ := ht h (by rw [hsplit]; simp)
  cases he.symm.trans hp

/-- The test that raises first is one. -/
theorem untested_unique {pre pre' post post' : List η} {h h' : η} {e e' : ε}
    (hsplit : pre ++ h :: post = pre' ++ h' :: post') (hpre : Tested test pre)
    (hpre' : Tested test pre') (he : test h = .error e) (he' : test h' = .error e') : e = e' := by
  rcases List.append_eq_append_iff.mp hsplit with ⟨m, rfl, hm⟩ | ⟨m, rfl, hm⟩
  · cases m with
    | nil =>
        cases hm
        exact Except.error.inj (he.symm.trans he')
    | cons c m =>
        obtain ⟨rfl, -⟩ := List.cons.inj hm
        obtain ⟨_, hp⟩ := hpre' h (by simp)
        cases he.symm.trans hp
  · cases m with
    | nil =>
        cases hm
        exact Except.error.inj (he.symm.trans he')
    | cons c m =>
        obtain ⟨rfl, -⟩ := List.cons.inj hm
        obtain ⟨_, hp⟩ := hpre h' (by simp)
        cases he'.symm.trans hp

/-- There is one way to do so. -/
theorem unique (h : Selected test run hs s ran out) (h' : Selected test run hs s ran' out') :
    ran = ran' ∧ out = out' := by
  cases h with
  | untested hsplit hpre he =>
      cases h' with
      | tested ht _ => exact absurd ht (not_tested hsplit he)
      | untested hsplit' hpre' he' =>
          rw [untested_unique (hsplit.symm.trans hsplit') hpre hpre' he he']
          exact ⟨rfl, rfl⟩
  | tested ht hr =>
      cases h' with
      | tested _ hr' => exact hr.unique hr'
      | untested hsplit _ he => exact absurd ht (not_tested hsplit he)

/-- The handlers that ran are the first ones that pass, each once. -/
theorem isPrefix (h : Selected test run hs s ran out) :
    (ran.map Prod.fst).IsPrefix (hs.filter (passes test)) := by
  cases h with
  | untested _ _ _ => exact List.nil_prefix
  | tested _ hr => exact hr.isPrefix

/-- When none raised, all that pass ran. -/
theorem all_ran {s' : σ} (h : Selected test run hs s ran (.ok s')) :
    ran.map Prod.fst = hs.filter (passes test) := by
  cases h with
  | tested _ hr => exact hr.all_ran

/-- What one raised ended the run. -/
theorem result_of_raised (h : Selected test run hs s ran out) {g : η} {e : ε}
    (hg : (g, .error e) ∈ ran) : out = .error e := by
  cases h with
  | untested _ _ _ => cases hg
  | tested _ hr => exact hr.result_of_raised hg

end Selected

end

end Traced
