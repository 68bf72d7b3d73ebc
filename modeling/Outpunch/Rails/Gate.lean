import Outpunch.Rails.Controller

/-!
# Rails — the gate and the order of the hooks

What the calls of `TunnelController#proxy` are, for every configuration and every behaviour of the
handlers (`proxy_gated`): the request is forwarded once at most, and exactly when the gate is
passed, the patterns of the service's hooks can be tested and every matching handler before it
returned; the handlers run in the order of registration, each once, up to the first that raises;
and what is forwarded is the payload as they left it.

The path that the hooks are matched with is a String the handlers hold, so the handlers after the
request are matched with what those before it made of it (`hooks_by_path_left`).
-/

namespace Outpunch

namespace TunnelCall

/-- What a call of `handle_request` was given. -/
def forwarded : TunnelCall → Option ForwardArgs
  | .forward args _ => some args
  | _ => none

def beforeOf : TunnelCall → Option (Hook × Except RubyError HookState)
  | .before h out => some (h, out)
  | _ => none

def afterOf : TunnelCall → Option (Hook × Except RubyError (HookState × TunnelResult))
  | .after h out => some (h, out)
  | _ => none

end TunnelCall

/-- The calls of `handle_request`. -/
abbrev forwards (calls : List TunnelCall) : List ForwardArgs :=
  calls.filterMap TunnelCall.forwarded

/-- The `before_proxy` handlers that ran, with their outcomes. -/
abbrev befores (calls : List TunnelCall) : List (Hook × Except RubyError HookState) :=
  calls.filterMap TunnelCall.beforeOf

abbrev afters (calls : List TunnelCall) :
    List (Hook × Except RubyError (HookState × TunnelResult)) :=
  calls.filterMap TunnelCall.afterOf

theorem mem_befores {calls : List TunnelCall} {h : Hook} {out : Except RubyError HookState} :
    (h, out) ∈ befores calls ↔ .before h out ∈ calls := by
  rw [befores, List.mem_filterMap]
  constructor
  · rintro ⟨call, hmem, hcall⟩
    cases call with
    | before _ _ => cases hcall; exact hmem
    | _ => cases hcall
  · exact fun hmem => ⟨_, hmem, rfl⟩

theorem mem_afters {calls : List TunnelCall} {h : Hook}
    {out : Except RubyError (HookState × TunnelResult)} :
    (h, out) ∈ afters calls ↔ .after h out ∈ calls := by
  rw [afters, List.mem_filterMap]
  constructor
  · rintro ⟨call, hmem, hcall⟩
    cases call with
    | after _ _ => cases hcall; exact hmem
    | _ => cases hcall
  · exact fun hmem => ⟨_, hmem, rfl⟩

namespace TunnelApp

variable {app : TunnelApp} {req : ProxyRequest} {ran : List (Hook × Except RubyError HookState)}
  {ran' : List (Hook × Except RubyError (HookState × TunnelResult))}

/-! ### The calls by kind -/

/-- Calls of one kind hold none of another. -/
theorem filterMap_map_none {α β γ : Type} {f : β → Option γ} {g : α → β}
    (h : ∀ a, f (g a) = none) (l : List α) : (l.map g).filterMap f = [] := by
  rw [List.filterMap_map]
  exact List.filterMap_eq_nil_iff.mpr fun a _ => h a

@[simp] theorem forwards_authCalls : forwards (app.authCalls req) = [] :=
  filterMap_map_none (fun _ => rfl) _

@[simp] theorem befores_authCalls : befores (app.authCalls req) = [] :=
  filterMap_map_none (fun _ => rfl) _

@[simp] theorem afters_authCalls : afters (app.authCalls req) = [] :=
  filterMap_map_none (fun _ => rfl) _

@[simp] theorem forwards_beforeCalls : forwards (beforeCalls ran) = [] :=
  filterMap_map_none (fun _ => rfl) _

@[simp] theorem befores_beforeCalls : befores (beforeCalls ran) = ran := by
  rw [befores, beforeCalls, List.filterMap_map]
  exact List.filterMap_some

@[simp] theorem afters_beforeCalls : afters (beforeCalls ran) = [] :=
  filterMap_map_none (fun _ => rfl) _

@[simp] theorem forwards_afterCalls : forwards (afterCalls ran') = [] :=
  filterMap_map_none (fun _ => rfl) _

@[simp] theorem befores_afterCalls : befores (afterCalls ran') = [] :=
  filterMap_map_none (fun _ => rfl) _

@[simp] theorem afters_afterCalls : afters (afterCalls ran') = ran' := by
  rw [afters, afterCalls, List.filterMap_map]
  exact List.filterMap_some

section

variable (args : ForwardArgs) (out : Except RubyError TunnelResponse)

/-- The calls of a request that was forwarded, by kind. -/
theorem forwards_forwarded :
    forwards (app.authCalls req ++ beforeCalls ran ++ .forward args out :: afterCalls ran') =
      [args] := by
  simp only [forwards, List.filterMap_append, List.filterMap_cons]
  simp [TunnelCall.forwarded]

theorem befores_forwarded :
    befores (app.authCalls req ++ beforeCalls ran ++ .forward args out :: afterCalls ran') =
      ran := by
  simp only [befores, List.filterMap_append, List.filterMap_cons]
  simp [TunnelCall.beforeOf]

theorem afters_forwarded :
    afters (app.authCalls req ++ beforeCalls ran ++ .forward args out :: afterCalls ran') =
      ran' := by
  simp only [afters, List.filterMap_append, List.filterMap_cons]
  simp [TunnelCall.afterOf]

end

theorem mem_authCalls {call : TunnelCall} (h : call ∈ app.authCalls req) :
    ∃ out, call = .authorize out := by
  obtain ⟨_, -, rfl⟩ := List.mem_map.mp h
  exact ⟨_, rfl⟩

/-- What is called before the request. -/
theorem mem_beforeCalls {call : TunnelCall} (h : call ∈ app.authCalls req ++ beforeCalls ran) :
    (∃ out, call = .authorize out) ∨ ∃ h out, call = .before h out := by
  rcases List.mem_append.mp h with h | h
  · exact .inl (mem_authCalls h)
  · obtain ⟨_, -, rfl⟩ := List.mem_map.mp h
    exact .inr ⟨_, _, rfl⟩

theorem forward_notMem_beforeCalls {args : ForwardArgs} {out : Except RubyError TunnelResponse} :
    .forward args out ∉ app.authCalls req ++ beforeCalls ran := by
  intro h
  rcases mem_beforeCalls h with ⟨_, h⟩ | ⟨_, _, h⟩ <;> cases h

theorem after_notMem_beforeCalls {h : Hook} {out : Except RubyError (HookState × TunnelResult)} :
    .after h out ∉ app.authCalls req ++ beforeCalls ran := by
  intro h
  rcases mem_beforeCalls h with ⟨_, h⟩ | ⟨_, _, h⟩ <;> cases h

theorem forward_notMem_afterCalls {args : ForwardArgs} {out : Except RubyError TunnelResponse} :
    .forward args out ∉ afterCalls ran' := by
  intro h
  obtain ⟨_, -, h⟩ := List.mem_map.mp h
  cases h

theorem mem_forwarded {args args' : ForwardArgs} {out out' : Except RubyError TunnelResponse} :
    .forward args out ∈
      app.authCalls req ++ beforeCalls ran ++ .forward args' out' :: afterCalls ran' ↔
    args = args' ∧ out = out' := by
  rw [List.mem_append, List.mem_cons, TunnelCall.forward.injEq]
  simp only [forward_notMem_beforeCalls, forward_notMem_afterCalls, false_or, or_false]

theorem BeforeRun.unique {ran₁ ran₂ : List (Hook × Except RubyError HookState)}
    {out₁ out₂ : Except RubyError HookState} (h₁ : app.BeforeRun req ran₁ out₁)
    (h₂ : app.BeforeRun req ran₂ out₂) : ran₁ = ran₂ ∧ out₁ = out₂ :=
  Traced.Selected.unique h₁ h₂

/-! ### The gate -/

/-- What `handle_request` is given is the service of the request and what the payload holds. -/
structure ForwardsPayload (req : ProxyRequest) (payload : Payload) (args : ForwardArgs) : Prop where
  service : args.service = req.service
  method : args.method = payload.method
  path : args.path = payload.path
  query : args.query = payload.query
  headers : args.headers = payload.headers
  body : args.body = payload.body

/-- What the calls of `proxy` are. -/
structure Gated (app : TunnelApp) (req : ProxyRequest) (calls : List TunnelCall) : Prop where
  once : (forwards calls).length ≤ 1
  forwarded_iff : forwards calls ≠ [] ↔
    app.Admits req ∧ ∃ ran state, app.BeforeRun req ran (.ok state)
  /-- What is forwarded is the payload as the handlers before left it. -/
  forwarded : ∀ l₁ args out l₂, calls = l₁ ++ .forward args out :: l₂ →
    ∃ state, app.BeforeRun req (befores l₁) (.ok state) ∧ ForwardsPayload req state.payload args
  before : app.Admits req → ∃ out, app.BeforeRun req (befores calls) out
  notBefore : ¬ app.Admits req → befores calls = []
  after : ∀ args data, .forward args (.ok data) ∈ calls → ∃ state out,
    app.BeforeRun req (befores calls) (.ok state) ∧ app.AfterRun req state data (afters calls) out
  /-- A handler after the request runs when `handle_request` has returned. -/
  afterForward : ∀ l₁ h out l₂, calls = l₁ ++ .after h out :: l₂ →
    ∃ args data, .forward args (.ok data) ∈ l₁

/-- The hooks of the service that match a path, in the order of registration. -/
def matching (app : TunnelApp) (req : ProxyRequest) (path : String) : List Hook :=
  (app.registered req).filter (Traced.passes fun h => h.pattern path)

/-- The handlers that ran are those that match, one after the other, each once. -/
structure InOrder (app : TunnelApp) (req : ProxyRequest) (calls : List TunnelCall) : Prop where
  /-- Before the request they are the first ones. -/
  before : ((befores calls).map Prod.fst).IsPrefix (app.matching req req.path)
  /-- Where it was forwarded, all of them ran. -/
  allBefore : forwards calls ≠ [] → (befores calls).map Prod.fst = app.matching req req.path
  /-- After it they match the path as those before left it. -/
  after : ∀ args data, .forward args (.ok data) ∈ calls → ∃ state,
    app.BeforeRun req (befores calls) (.ok state) ∧
      ((afters calls).map Prod.fst).IsPrefix (app.matching req state.path)

theorem Gated.inOrder {calls : List TunnelCall} (h : app.Gated req calls) :
    app.InOrder req calls := by
  constructor
  case before =>
    by_cases hg : app.Admits req
    · obtain ⟨_, hr⟩ := h.before hg
      exact hr.isPrefix
    · rw [h.notBefore hg]
      exact List.nil_prefix
  case allBefore =>
    intro hf
    obtain ⟨hg, _, _, hr⟩ := h.forwarded_iff.mp hf
    obtain ⟨_, hr'⟩ := h.before hg
    obtain ⟨rfl, rfl⟩ := hr.unique hr'
    exact hr.all_ran
  case after =>
    intro args data hf
    obtain ⟨state, _, hr, hr'⟩ := h.after args data hf
    exact ⟨state, hr, hr'.isPrefix⟩

/-- What comes behind an element that is not among the first ones has it before. -/
theorem mem_of_append_cons_eq {α : Type} {l l' m m' : List α} {a b : α}
    (h : l ++ a :: m = l' ++ b :: m') (hl : b ∉ l) (hne : b ≠ a) : a ∈ l' := by
  rcases List.append_eq_append_iff.mp h with ⟨k, rfl, hk⟩ | ⟨k, rfl, hk⟩
  · cases k with
    | nil => exact absurd (List.cons.inj hk).1.symm hne
    | cons c k =>
        obtain ⟨rfl, -⟩ := List.cons.inj hk
        simp
  · cases k with
    | nil => exact absurd (List.cons.inj hk).1 hne
    | cons c k =>
        obtain ⟨rfl, -⟩ := List.cons.inj hk
        exact absurd (by simp) hl

/-- An authorisation that does not accept closes the gate. -/
theorem not_admits_of_authorize {auth : String → Except RubyError Bool}
    {out : Except RubyError Bool} (ha : app.authorize = some auth) (he : auth req.service = out)
    (hne : out ≠ .ok true) : ¬ app.Admits req :=
  fun hg => hne (he.symm.trans (hg.2.1 _ ha))

/-- A gate that is closed: nothing was called but the authorisation. -/
theorem gated_closed (hg : ¬ app.Admits req) {calls : List TunnelCall}
    (hcalls : ∀ call ∈ calls, ∃ out, call = .authorize out) : app.Gated req calls := by
  have hforwards : forwards calls = [] := List.filterMap_eq_nil_iff.mpr fun call hcall => by
    obtain ⟨_, rfl⟩ := hcalls call hcall
    rfl
  have hbefores : befores calls = [] := List.filterMap_eq_nil_iff.mpr fun call hcall => by
    obtain ⟨_, rfl⟩ := hcalls call hcall
    rfl
  constructor
  case once => simp [hforwards]
  case forwarded_iff => simp [hforwards, hg]
  case forwarded =>
    rintro l₁ args out l₂ rfl
    obtain ⟨_, h⟩ := hcalls (.forward args out) (by simp)
    cases h
  case before => exact fun h => absurd h hg
  case notBefore => exact fun _ => hbefores
  case after =>
    intro args data h
    obtain ⟨_, h⟩ := hcalls _ h
    cases h
  case afterForward =>
    rintro l₁ h out l₂ rfl
    obtain ⟨_, h⟩ := hcalls (.after h out) (by simp)
    cases h

/-- A gate that is passed, and a handler before the request that raised. -/
theorem gated_stopped (hg : app.Admits req) {e : RubyError}
    (hr : app.BeforeRun req ran (.error e)) :
    app.Gated req (app.authCalls req ++ beforeCalls ran) := by
  constructor
  case once => simp
  case forwarded_iff =>
    refine ⟨fun h => absurd (by simp) h, ?_⟩
    rintro ⟨-, _, _, hr'⟩
    cases (hr.unique hr').2
  case forwarded =>
    intro l₁ args out l₂ h
    have hmem : .forward args out ∈ app.authCalls req ++ beforeCalls ran := by simp [h]
    exact absurd hmem forward_notMem_beforeCalls
  case before => exact fun _ => ⟨_, by simpa using hr⟩
  case notBefore => exact fun h => absurd hg h
  case after =>
    intro args data h
    exact absurd h forward_notMem_beforeCalls
  case afterForward =>
    intro l₁ h out l₂ h'
    have hmem : .after h out ∈ app.authCalls req ++ beforeCalls ran := by simp [h']
    exact absurd hmem after_notMem_beforeCalls

/-- A request that was forwarded: the handlers after it ran when `handle_request` returned. -/
theorem gated_forwarded (hg : app.Admits req) {state : HookState}
    (hr : app.BeforeRun req ran (.ok state)) {out : Except RubyError TunnelResponse}
    (hafter : ∀ data, out = .ok data → ∃ after, app.AfterRun req state data ran' after)
    (hnone : ∀ e, out = .error e → ran' = []) :
    app.Gated req (app.authCalls req ++ beforeCalls ran ++
      .forward (state.payload.forwardArgs req.service) out :: afterCalls ran') := by
  constructor
  case once => exact (congrArg List.length (forwards_forwarded ..)).le
  case forwarded_iff =>
    rw [forwards_forwarded]
    exact ⟨fun _ => ⟨hg, _, _, hr⟩, fun _ => List.cons_ne_nil _ _⟩
  case forwarded =>
    intro l₁ args out' l₂ h
    obtain ⟨rfl, heq, -⟩ := (List.append_cons_inj_of_notMem forward_notMem_beforeCalls
      forward_notMem_afterCalls).mp h
    cases heq
    exact ⟨state, by simpa using hr, rfl, rfl, rfl, rfl, rfl, rfl⟩
  case before =>
    intro _
    rw [befores_forwarded]
    exact ⟨_, hr⟩
  case notBefore => exact fun h => absurd hg h
  case after =>
    intro args data h
    rw [befores_forwarded, afters_forwarded]
    obtain ⟨-, rfl⟩ := mem_forwarded.mp h
    obtain ⟨after, hstate⟩ := hafter data rfl
    exact ⟨state, after, hr, hstate⟩
  case afterForward =>
    intro l₁ h out' l₂ h'
    have hmem := mem_of_append_cons_eq h' after_notMem_beforeCalls (fun heq => by cases heq)
    cases out with
    | ok data => exact ⟨_, _, hmem⟩
    | error e =>
        -- nothing comes behind a request that failed
        have hran : (h, out') ∈ afters (l₁ ++ .after h out' :: l₂) := mem_afters.mpr (by simp)
        rw [← h', afters_forwarded, hnone e rfl] at hran
        cases hran

/-- The ways through `proxy` pass the gate. -/
theorem Proxied.gated {calls : List TunnelCall} {out : Except RubyError ProxyReply}
    (h : app.Proxied req calls out) : app.Gated req calls := by
  cases h with
  | blank hb => exact gated_closed (fun hg => hg.1 hb) (by simp)
  | authRaised hb ha he =>
      have hg : ¬ app.Admits req := not_admits_of_authorize ha he (fun h => by cases h)
      exact gated_closed hg fun _ => mem_authCalls
  | refused hb ha he =>
      have hg : ¬ app.Admits req := not_admits_of_authorize ha he (fun h => by cases h)
      exact gated_closed hg fun _ => mem_authCalls
  | offline hb ha hc => exact gated_closed (fun hg => hc hg.2.2) fun _ => mem_authCalls
  | stopped hg hr => exact gated_stopped hg hr
  | failed hg hr ht => exact gated_forwarded hg hr (by simp) fun _ _ => rfl
  | stoppedAfter hg hr ht hr' => exact gated_forwarded hg hr (by simpa using ⟨_, hr'⟩) (by simp)
  | answered hg hr ht hr' => exact gated_forwarded hg hr (by simpa using ⟨_, hr'⟩) (by simp)

/-- **The gate, and the order of the hooks.** -/
theorem proxy_gated (app : TunnelApp) (req : ProxyRequest) :
    app.Gated req (app.proxy req).calls ∧ app.InOrder req (app.proxy req).calls := by
  have hgated : app.Gated req (app.proxy req).calls := calls_proxy app req ▸ (proxied app req).gated
  exact ⟨hgated, hgated.inOrder⟩

end TunnelApp

/-! ### Patterns and the path -/

/-- An application with hooks for one service. -/
def hookedApp (hooks : List Hook) : TunnelApp where
  authorize := none
  connected := fun _ => true
  hooks := some (hooks.map fun hook => ("my-service", hook))
  tunnel := fun _ => .ok
    { msgType := "response"
      requestId := "1"
      status := 200
      headers := ∅
      body := none
      bodyEncoding := none }
  order := Std.ExtTreeMap.toList
  order_perm := fun _ => .refl _
  uuid := "1"
  downcase := lowerName
  rails := plainRails

/-- `POST /outpunch/my-service/orders`. -/
def orderRequest : ProxyRequest where
  serviceName := some "my-service"
  servicePath := some "orders"
  method := "POST"
  query := ∅
  env := ∅
  body := none

theorem admits_orderRequest (hooks : List Hook) : (hookedApp hooks).Admits orderRequest := by
  refine ⟨by decide +kernel, ?_, rfl⟩
  intro _ h
  cases h

theorem registered_hookedApp (hooks : List Hook) :
    (hookedApp hooks).registered orderRequest = hooks := by
  have hservice : "my-service" = orderRequest.service := by decide +kernel
  have hall : (hooks.map fun hook => ("my-service", hook)).filter
      (fun p => p.1 = orderRequest.service) = hooks.map fun hook => ("my-service", hook) := by
    rw [List.filter_eq_self, List.forall_mem_map]
    exact fun _ _ => decide_eq_true hservice
  show (((hooks.map fun hook => ("my-service", hook)).filter
    fun p => p.1 = orderRequest.service).map Prod.snd) = hooks
  rw [hall, List.map_map]
  exact List.map_id hooks

/-- A hook that adds to the path where it is: `payload[:path] << "/new"`. -/
def appendingHook : Hook where
  pattern := fun _ => .ok true
  before := fun state => .ok
    { payload := { state.payload with path := state.payload.path ++ "/new" }
      path := state.path ++ "/new" }
  after := fun state result => .ok (state, result)

/-- A hook for another path. -/
def newOrderHook : Hook where
  pattern := fun path => .ok (path == "orders/new")
  before := .ok
  after := fun state result => .ok (state, result)

/-- A hook whose pattern is nothing to match with, such as a number. -/
def unmatchableHook : Hook where
  pattern := fun _ => .error
    { ancestors := ["TypeError", "StandardError", "Exception"]
      message := some "wrong argument type Integer (expected Regexp)" }
  before := .ok
  after := fun state result => .ok (state, result)

/-- A handler ran after the request whose pattern does not match its path; and a request was not
forwarded behind an open gate, though no handler matched that could have raised. -/
theorem hooks_by_path_left :
    (∃ h out, .after h out ∈ ((hookedApp [appendingHook, newOrderHook]).proxy orderRequest).calls ∧
        h.pattern orderRequest.path = .ok false) ∧
      (hookedApp [unmatchableHook]).Admits orderRequest ∧
      (∀ h ∈ (hookedApp [unmatchableHook]).registered orderRequest,
        h.pattern orderRequest.path ≠ .ok true) ∧
      forwards ((hookedApp [unmatchableHook]).proxy orderRequest).calls = [] := by
  refine ⟨?_, admits_orderRequest _, ?_, by decide +kernel⟩
  · have hran : (afters ((hookedApp [appendingHook, newOrderHook]).proxy orderRequest).calls).any
        (fun p => match p.1.pattern orderRequest.path with
          | .ok passed => !passed
          | .error _ => false) = true := by decide +kernel
    obtain ⟨⟨h, out⟩, hmem, hpattern⟩ := List.any_eq_true.mp hran
    refine ⟨h, out, mem_afters.mp hmem, ?_⟩
    dsimp only at hpattern
    split at hpattern
    · rename_i passed hp
      rw [Bool.not_eq_true'] at hpattern
      rw [hp, hpattern]
    · cases hpattern
  · intro h hmem
    rw [registered_hookedApp, List.mem_singleton] at hmem
    rw [hmem]
    simp [unmatchableHook]

end Outpunch
