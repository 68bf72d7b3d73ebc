import Outpunch.Rails.Gate

/-!
# Rails — what a failure answers

What is raised under `proxy` ends its body and goes to the `rescue` clauses, which answer by the
ancestors of its class.  They cover the whole body, whoever raised.

A halt is answered for a request that was not forwarded exactly where no handler after the request
halts (`halt_not_forwarded_iff`).  A failure is classified by what failed exactly where nothing but
the tunnel raises a `Timeout::Error` and what a handler raises can be rendered
(`failure_classified_iff`).
-/

namespace Outpunch

/-- A handler raised `e`. -/
def HookRaised (calls : List TunnelCall) (e : RubyError) : Prop :=
  (∃ h, .before h (.error e) ∈ calls) ∨ ∃ h, .after h (.error e) ∈ calls

/-- The tunnel request timed out. -/
def TimedOut (calls : List TunnelCall) : Prop :=
  ∃ args e, .forward args (.error e) ∈ calls ∧ e.isA "Timeout::Error"

/-! ### What the native server raises -/

/-- The ancestors of `RuntimeError`. -/
def runtimeAncestors : List String := ["RuntimeError", "StandardError", "Exception"]

/-- What the native `handle_request` raises for a failed request. -/
def nativeError (service : String) : TunnelError → RubyError
  | .notConnected =>
    { ancestors := "Outpunch::NotConnectedError" :: runtimeAncestors
      message := some ("Service '" ++ service ++ "' not connected") }
  | .timeout =>
    { ancestors := "Outpunch::TunnelTimeoutError" :: "Timeout::Error" :: runtimeAncestors
      message := some ("Tunnel timeout for service '" ++ service ++ "'") }
  | err =>
    { ancestors := "Outpunch::TunnelError" :: runtimeAncestors
      message := some err.text }

/-- The native `handle_request`, over what the core answers. -/
def nativeTunnel (serve : ForwardArgs → Except TunnelError TunnelResponse) (args : ForwardArgs) :
    Except RubyError TunnelResponse :=
  match serve args with
  | .ok resp => .ok resp
  | .error err => .error (nativeError args.service err)

section

variable (service : String) (err : TunnelError)

/-- It is a `Timeout::Error` for a timeout only. -/
theorem isA_timeout_nativeError :
    (nativeError service err).isA "Timeout::Error" ↔ err = .timeout := by
  cases err <;> simp [nativeError, RubyError.isA, runtimeAncestors]

theorem isA_standard_nativeError : (nativeError service err).isA "StandardError" := by
  cases err <;> simp [nativeError, RubyError.isA, runtimeAncestors]

theorem not_isA_halt_nativeError : ¬ (nativeError service err).isA "Outpunch::HookHalt" := by
  cases err <;> simp [nativeError, RubyError.isA, runtimeAncestors]

theorem message_nativeError : ∃ message, (nativeError service err).message = some message := by
  cases err <;> exact ⟨_, rfl⟩

end

theorem hookRaised_iff {calls : List TunnelCall} {e : RubyError} :
    HookRaised calls e ↔
      (∃ h, (h, .error e) ∈ befores calls) ∨ ∃ h, (h, .error e) ∈ afters calls := by
  simp only [HookRaised, mem_befores, mem_afters]

namespace TunnelApp

variable {app : TunnelApp} {req : ProxyRequest} {e : RubyError}

/-! ### The `rescue` clauses -/

theorem rescued_halt (h : e.isA "Outpunch::HookHalt") :
    rescued req e = .ok (.halted e.status e.body) := if_pos h

theorem rescued_timeout (hh : ¬ e.isA "Outpunch::HookHalt") (h : e.isA "Timeout::Error") :
    rescued req e = .ok (.error 504 ("Tunnel timeout for service '" ++ req.service ++ "'")) := by
  rw [rescued, if_neg hh, if_pos h]

theorem rescued_standard (hh : ¬ e.isA "Outpunch::HookHalt") (ht : ¬ e.isA "Timeout::Error")
    (h : e.isA "StandardError") {message : String} (hm : e.message = some message) :
    rescued req e = .ok (.error 502 message) := by
  rw [rescued, if_neg hh, if_neg ht, if_pos h, hm]

/-- A message that is no text is not rendered. -/
theorem rescued_unreadable (hh : ¬ e.isA "Outpunch::HookHalt") (ht : ¬ e.isA "Timeout::Error")
    (h : e.isA "StandardError") (hm : e.message = none) :
    rescued req e = .error generatorError := by
  rw [rescued, if_neg hh, if_neg ht, if_pos h, hm]

/-- An error that is no halt answers 502 exactly where it is no timeout and its message is text. -/
theorem rescued_badGateway_iff (hh : ¬ e.isA "Outpunch::HookHalt") (h : e.isA "StandardError") :
    (∃ message, rescued req e = .ok (.error 502 message)) ↔
      ¬ e.isA "Timeout::Error" ∧ ∃ message, e.message = some message := by
  by_cases ht : e.isA "Timeout::Error"
  · rw [rescued_timeout hh ht]
    simp [ht]
  rw [and_iff_right ht]
  cases hm : e.message with
  | none =>
      rw [rescued_unreadable hh ht h hm]
      simp
  | some message =>
      rw [rescued_standard hh ht h hm]
      exact iff_of_true ⟨message, rfl⟩ ⟨message, rfl⟩

/-- Only a `Timeout::Error` answers 504. -/
theorem timeout_of_rescued {message : String} (h : rescued req e = .ok (.error 504 message)) :
    ¬ e.isA "Outpunch::HookHalt" ∧ e.isA "Timeout::Error" := by
  by_cases hh : e.isA "Outpunch::HookHalt"
  · rw [rescued_halt hh] at h
    cases h
  by_cases ht : e.isA "Timeout::Error"
  · exact ⟨hh, ht⟩
  rw [rescued, if_neg hh, if_neg ht] at h
  split at h
  · cases hm : e.message <;> simp [hm] at h
  · cases h

/-- What the native server raises answers the status of the failure. -/
theorem rescued_nativeError {req : ProxyRequest} (service : String) (err : TunnelError) :
    ∃ message, rescued req (nativeError service err) = .ok (.error err.status message) := by
  have hhalt := not_isA_halt_nativeError service err
  by_cases ht : err = .timeout
  · subst ht
    exact ⟨_, rescued_timeout hhalt ((isA_timeout_nativeError ..).mpr rfl)⟩
  · have hstatus : err.status = 502 := by
      cases err with
      | timeout => exact absurd rfl ht
      | _ => rfl
    obtain ⟨message, hmessage⟩ := message_nativeError service err
    rw [hstatus]
    exact ⟨message, rescued_standard hhalt (fun h => ht ((isA_timeout_nativeError ..).mp h))
      (isA_standard_nativeError ..) hmessage⟩

/-! ### Who raises -/

section

variable (app req e)

/-- `authorize_service` raises `e`. -/
def AuthRaises : Prop :=
  ¬ isBlank req.service ∧ ∃ auth, app.authorize = some auth ∧ auth req.service = .error e

/-- What runs before the request ends in `e`: a handler raises it, or the test of a pattern. -/
def StopsBefore : Prop :=
  app.Admits req ∧ ∃ ran, app.BeforeRun req ran (.error e)

/-- What runs after the request does. -/
def StopsAfter : Prop :=
  app.Admits req ∧ ∃ ran state data ran', app.BeforeRun req ran (.ok state) ∧
    app.tunnel (state.payload.forwardArgs req.service) = .ok data ∧
    app.AfterRun req state data ran' (.error e)

/-- A handler before the request is reached and raises `e`. -/
def BeforeRaises : Prop :=
  app.Admits req ∧ ∃ ran, app.BeforeRun req ran (.error e) ∧ ∃ h, (h, .error e) ∈ ran

/-- A handler after the request is reached and raises `e`. -/
def AfterRaises : Prop :=
  app.Admits req ∧ ∃ ran state data ran', app.BeforeRun req ran (.ok state) ∧
    app.tunnel (state.payload.forwardArgs req.service) = .ok data ∧
    app.AfterRun req state data ran' (.error e) ∧ ∃ h, (h, .error e) ∈ ran'

end

theorem BeforeRaises.stops (h : app.BeforeRaises req e) : app.StopsBefore req e := by
  obtain ⟨hg, ran, hran, -⟩ := h
  exact ⟨hg, ran, hran⟩

theorem AfterRaises.stops (h : app.AfterRaises req e) : app.StopsAfter req e := by
  obtain ⟨hg, ran, state, data, ran', hran, ht, hran', -⟩ := h
  exact ⟨hg, ran, state, data, ran', hran, ht, hran'⟩

theorem AfterRun.unique {state : HookState} {data : TunnelResponse}
    {ran₁ ran₂ : List (Hook × Except RubyError (HookState × TunnelResult))}
    {out₁ out₂ : Except RubyError (HookState × TunnelResult)}
    (h₁ : app.AfterRun req state data ran₁ out₁) (h₂ : app.AfterRun req state data ran₂ out₂) :
    ran₁ = ran₂ ∧ out₁ = out₂ :=
  Traced.Selected.unique h₁ h₂

section

variable {calls : List TunnelCall} {out : Except RubyError ProxyReply}

/-- Where the authorisation raises, that is what is raised, and nothing was forwarded. -/
theorem Proxied.of_authRaises (h : app.Proxied req calls out) (hr : app.AuthRaises req e) :
    out = .error e ∧ calls = app.authCalls req := by
  obtain ⟨hb', auth, ha', he'⟩ := hr
  have hnot : ¬ app.Admits req := not_admits_of_authorize ha' he' (fun h => by cases h)
  cases h with
  | blank hb => exact absurd hb hb'
  | authRaised hb ha he =>
      cases ha.symm.trans ha'
      cases he.symm.trans he'
      exact ⟨rfl, rfl⟩
  | refused hb ha he =>
      cases ha.symm.trans ha'
      cases he.symm.trans he'
  | offline hb ha hc => cases he'.symm.trans (ha _ ha')
  | stopped hg _ => exact absurd hg hnot
  | failed hg _ _ => exact absurd hg hnot
  | stoppedAfter hg _ _ _ => exact absurd hg hnot
  | answered hg _ _ _ => exact absurd hg hnot

/-- Where what runs before the request raises, that is what is raised. -/
theorem Proxied.of_stopsBefore (h : app.Proxied req calls out) (hr : app.StopsBefore req e) :
    out = .error e ∧ ∃ ran, app.BeforeRun req ran (.error e) ∧
      calls = app.authCalls req ++ beforeCalls ran := by
  obtain ⟨hg, ran, hran⟩ := hr
  cases h with
  | blank hb => exact absurd hb hg.1
  | authRaised hb ha he =>
      exact absurd hg (not_admits_of_authorize ha he (fun h => by cases h))
  | refused hb ha he =>
      exact absurd hg (not_admits_of_authorize ha he (fun h => by cases h))
  | offline hb ha hc => exact absurd hg.2.2 hc
  | stopped _ hran' =>
      cases (hran.unique hran').2
      exact ⟨rfl, _, hran', rfl⟩
  | failed _ hran' _ => cases (hran.unique hran').2
  | stoppedAfter _ hran' _ _ => cases (hran.unique hran').2
  | answered _ hran' _ _ => cases (hran.unique hran').2

/-- Where what runs after the request raises, that is what is raised, and the request was forwarded
and answered. -/
theorem Proxied.of_stopsAfter (h : app.Proxied req calls out) (hg : app.Admits req)
    {ran : List (Hook × Except RubyError HookState)} {state : HookState} {data : TunnelResponse}
    {ran' : List (Hook × Except RubyError (HookState × TunnelResult))}
    (hran : app.BeforeRun req ran (.ok state))
    (ht : app.tunnel (state.payload.forwardArgs req.service) = .ok data)
    (hran' : app.AfterRun req state data ran' (.error e)) :
    out = .error e ∧ calls = app.authCalls req ++ beforeCalls ran ++
      .forward (state.payload.forwardArgs req.service) (.ok data) :: afterCalls ran' := by
  cases h with
  | blank hb => exact absurd hb hg.1
  | authRaised hb ha he =>
      exact absurd hg (not_admits_of_authorize ha he (fun h => by cases h))
  | refused hb ha he =>
      exact absurd hg (not_admits_of_authorize ha he (fun h => by cases h))
  | offline hb ha hc => exact absurd hg.2.2 hc
  | stopped _ hr' => cases (hran.unique hr').2
  | failed _ hr' ht' =>
      cases (hran.unique hr').2
      cases ht.symm.trans ht'
  | stoppedAfter _ hr' ht' hr'' =>
      obtain ⟨rfl, hstate⟩ := hran.unique hr'
      cases hstate
      cases ht.symm.trans ht'
      obtain ⟨rfl, he⟩ := hran'.unique hr''
      cases he
      exact ⟨rfl, rfl⟩
  | answered _ hr' ht' hr'' =>
      cases (hran.unique hr').2
      cases ht.symm.trans ht'
      cases (hran'.unique hr'').2

/-- What is raised comes from the authorisation, the hooks or the tunnel. -/
theorem Proxied.of_error (h : app.Proxied req calls (.error e)) :
    (app.AuthRaises req e ∨ app.StopsBefore req e ∨ app.StopsAfter req e) ∨
      ∃ args, .forward args (.error e) ∈ calls := by
  cases h with
  | authRaised hb ha he => exact .inl (.inl ⟨hb, _, ha, he⟩)
  | stopped hg hran => exact .inl (.inr (.inl ⟨hg, _, hran⟩))
  | failed hg hran ht =>
      exact .inr ⟨_, List.mem_append_right _ (List.mem_singleton.mpr rfl)⟩
  | stoppedAfter hg hran ht hran' => exact .inl (.inr (.inr ⟨hg, _, _, _, _, hran, ht, hran'⟩))

/-- The body itself answers no 504. -/
theorem Proxied.ne_timeout {message : String} :
    ¬ app.Proxied req calls (.ok (.error 504 message)) := by
  intro h
  generalize hout : (.ok (.error 504 message) : Except RubyError ProxyReply) = out at h
  cases h <;> simp at hout

/-- The calls of the authorisation raise nothing of a handler's. -/
theorem not_hookRaised_authCalls : ¬ HookRaised (app.authCalls req) e := by
  rw [hookRaised_iff, befores_authCalls, afters_authCalls]
  simp

theorem hookRaised_forwarded {args : ForwardArgs} {out : Except RubyError TunnelResponse}
    {l : List (Hook × Except RubyError HookState)}
    {m : List (Hook × Except RubyError (HookState × TunnelResult))} :
    HookRaised (app.authCalls req ++ beforeCalls l ++ .forward args out :: afterCalls m) e ↔
      (∃ h, (h, .error e) ∈ l) ∨ ∃ h, (h, .error e) ∈ m := by
  rw [hookRaised_iff, befores_forwarded, afters_forwarded]

/-- A handler that raised was reached, before the request or after it. -/
theorem Proxied.raises (h : app.Proxied req calls out) (hr : HookRaised calls e) :
    app.BeforeRaises req e ∨ app.AfterRaises req e := by
  cases h with
  | blank hb => simp [HookRaised] at hr
  | authRaised _ _ _ => exact absurd hr not_hookRaised_authCalls
  | refused _ _ _ => exact absurd hr not_hookRaised_authCalls
  | offline _ _ _ => exact absurd hr not_hookRaised_authCalls
  | stopped hg hran =>
      rcases hr with ⟨h, hmem⟩ | ⟨h, hmem⟩
      · have hmem' := mem_befores.mpr hmem
        simp only [befores, List.filterMap_append, befores_authCalls, befores_beforeCalls,
          List.nil_append] at hmem'
        cases hran.result_of_raised hmem'
        exact .inl ⟨hg, _, hran, h, hmem'⟩
      · exact absurd hmem after_notMem_beforeCalls
  | failed hg hran ht =>
      rcases (hookRaised_forwarded (m := [])).mp hr with ⟨h, hmem⟩ | ⟨h, hmem⟩
      · cases hran.result_of_raised hmem
      · cases hmem
  | stoppedAfter hg hran ht hran' =>
      rcases hookRaised_forwarded.mp hr with ⟨h, hmem⟩ | ⟨h, hmem⟩
      · cases hran.result_of_raised hmem
      · cases hran'.result_of_raised hmem
        exact .inr ⟨hg, _, _, _, _, hran, ht, hran', h, hmem⟩
  | answered hg hran ht hran' =>
      rcases hookRaised_forwarded.mp hr with ⟨h, hmem⟩ | ⟨h, hmem⟩
      · cases hran.result_of_raised hmem
      · cases hran'.result_of_raised hmem

end

/-- A handler that is reached and raises did so, and what it raised is rescued. -/
theorem hookRaised_of_raises (h : app.BeforeRaises req e ∨ app.AfterRaises req e) :
    HookRaised (app.proxy req).calls e ∧ (app.proxy req).result = rescued req e := by
  have hway := proxied app req
  rw [calls_proxy]
  rcases h with ⟨hg, ran, hran, h, hraised⟩ |
    ⟨hg, ran, state, data, ran', hran, ht, hran', h, hraised⟩
  · obtain ⟨hout, ran', hran', hcalls⟩ := hway.of_stopsBefore ⟨hg, ran, hran⟩
    obtain ⟨rfl, -⟩ := hran.unique hran'
    refine ⟨.inl ⟨h, ?_⟩, result_proxy_of_error hout⟩
    rw [hcalls]
    exact List.mem_append_right _ (List.mem_map_of_mem hraised)
  · obtain ⟨hout, hcalls⟩ := hway.of_stopsAfter hg hran ht hran'
    rw [hcalls]
    exact ⟨hookRaised_forwarded.mpr (.inr ⟨h, hraised⟩), result_proxy_of_error hout⟩

/-! ### A halt, and whether anything was forwarded -/

/-- A handler after the request that halts answers its halt, and the request was forwarded. -/
theorem forwarded_of_halt (hr : app.AfterRaises req e) (hhalt : e.isA "Outpunch::HookHalt") :
    HookRaised (app.proxy req).calls e ∧ (app.proxy req).result = .ok (.halted e.status e.body) ∧
      forwards (app.proxy req).calls ≠ [] := by
  obtain ⟨hraised, hresult⟩ := hookRaised_of_raises (.inr hr)
  obtain ⟨hg, ran, state, data, ran', hran, ht, hran', -⟩ := hr
  obtain ⟨-, hcalls⟩ := (proxied app req).of_stopsAfter hg hran ht hran'
  refine ⟨hraised, hresult.trans (rescued_halt hhalt), ?_⟩
  rw [calls_proxy, hcalls, forwards_forwarded]
  exact List.cons_ne_nil _ _

/-- **The answer of a halt means that nothing was forwarded exactly where no handler after the
request halts.** -/
theorem halt_not_forwarded_iff (app : TunnelApp) (req : ProxyRequest) :
    (∀ e, HookRaised (app.proxy req).calls e → e.isA "Outpunch::HookHalt" →
        (app.proxy req).result = .ok (.halted e.status e.body) →
        forwards (app.proxy req).calls = []) ↔
      ∀ e, app.AfterRaises req e → ¬ e.isA "Outpunch::HookHalt" := by
  constructor
  · intro hsafe e hr hhalt
    obtain ⟨hraised, hanswer, hforwards⟩ := forwarded_of_halt hr hhalt
    exact hforwards (hsafe e hraised hhalt hanswer)
  · intro hafter e hraised hhalt _
    have hway := proxied app req
    rw [calls_proxy] at hraised ⊢
    rcases hway.raises hraised with hr | hr
    · obtain ⟨-, _, -, hcalls⟩ := hway.of_stopsBefore hr.stops
      rw [hcalls]
      simp
    · exact absurd hhalt (hafter e hr)

/-! ### What failed, and the status -/

/-- A `Timeout::Error` from elsewhere than the tunnel answers 504. -/
theorem timeout_of_raises
    (hr : app.AuthRaises req e ∨ app.StopsBefore req e ∨ app.StopsAfter req e)
    (hto : e.isA "Timeout::Error") (hhalt : ¬ e.isA "Outpunch::HookHalt") :
    (∃ message, (app.proxy req).result = .ok (.error 504 message)) ∧
      ¬ TimedOut (app.proxy req).calls := by
  have hway := proxied app req
  have hanswer (hout : (app.proxyBody req).result = .error e) :
      ∃ message, (app.proxy req).result = .ok (.error 504 message) :=
    ⟨_, (result_proxy_of_error hout).trans (rescued_timeout hhalt hto)⟩
  rw [calls_proxy]
  rcases hr with hr | hr | ⟨hg, _, _, _, _, hran, ht, hran'⟩
  · obtain ⟨hout, hcalls⟩ := hway.of_authRaises hr
    refine ⟨hanswer hout, ?_⟩
    rintro ⟨_, _, hmem, -⟩
    obtain ⟨_, hcall⟩ := mem_authCalls (hcalls ▸ hmem)
    cases hcall
  · obtain ⟨hout, _, -, hcalls⟩ := hway.of_stopsBefore hr
    refine ⟨hanswer hout, ?_⟩
    rintro ⟨_, _, hmem, -⟩
    exact forward_notMem_beforeCalls (hcalls ▸ hmem)
  · obtain ⟨hout, hcalls⟩ := hway.of_stopsAfter hg hran ht hran'
    refine ⟨hanswer hout, ?_⟩
    rintro ⟨_, _, hmem, -⟩
    cases (mem_forwarded.mp (hcalls ▸ hmem)).2

/-- Without one, a 504 is a tunnel request that timed out. -/
theorem timedOut_of_answer
    (hno : ∀ e, app.AuthRaises req e ∨ app.StopsBefore req e ∨ app.StopsAfter req e →
      e.isA "Timeout::Error" → e.isA "Outpunch::HookHalt")
    {message : String} (hanswer : (app.proxy req).result = .ok (.error 504 message)) :
    TimedOut (app.proxy req).calls := by
  have hway := proxied app req
  rw [calls_proxy]
  cases hout : (app.proxyBody req).result with
  | ok reply =>
      rw [result_proxy_of_ok hout] at hanswer
      cases hanswer
      exact absurd (hout ▸ hway) Proxied.ne_timeout
  | error e =>
      rw [result_proxy_of_error hout] at hanswer
      obtain ⟨hhalt, hto⟩ := timeout_of_rescued hanswer
      rcases Proxied.of_error (hout ▸ hway) with hr | ⟨args, hmem⟩
      · exact absurd (hno e hr hto) hhalt
      · exact ⟨args, e, hmem, hto⟩

/-- What `handle_request` raises is what is rescued. -/
theorem result_proxy_of_failed {args : ForwardArgs}
    (h : .forward args (.error e) ∈ (app.proxy req).calls) :
    app.tunnel args = .error e ∧ (app.proxy req).result = rescued req e := by
  have hway := proxied app req
  rw [calls_proxy] at h
  have hfailed : app.tunnel args = .error e ∧ (app.proxyBody req).result = .error e := by
    generalize (app.proxyBody req).calls = calls, (app.proxyBody req).result = out at h hway ⊢
    cases hway with
    | blank _ => cases h
    | authRaised _ _ _ | refused _ _ _ | offline _ _ _ =>
        obtain ⟨_, hcall⟩ := mem_authCalls h
        cases hcall
    | stopped _ _ => exact absurd h forward_notMem_beforeCalls
    | failed _ _ ht =>
        obtain ⟨rfl, he⟩ :=
          mem_forwarded.mp (show _ ∈ _ ++ .forward _ _ :: afterCalls [] from h)
        cases he
        exact ⟨ht, rfl⟩
    | stoppedAfter _ _ _ _ | answered _ _ _ _ => cases (mem_forwarded.mp h).2
  exact hfailed.imp_right result_proxy_of_error

/-- Behind the native server it answers the status of the failure. -/
theorem answers_of_nativeTunnel {serve : ForwardArgs → Except TunnelError TunnelResponse}
    (hnative : app.tunnel = nativeTunnel serve) {args : ForwardArgs}
    (h : .forward args (.error e) ∈ (app.proxy req).calls) : ∃ err message,
      serve args = .error err ∧ (app.proxy req).result = .ok (.error err.status message) := by
  obtain ⟨htunnel, hresult⟩ := result_proxy_of_failed h
  rw [hnative, nativeTunnel] at htunnel
  cases hserve : serve args with
  | ok resp =>
      rw [hserve] at htunnel
      cases htunnel
  | error err =>
      rw [hserve] at htunnel
      cases htunnel
      obtain ⟨message, hanswer⟩ := rescued_nativeError args.service err
      exact ⟨err, message, rfl, hresult.trans hanswer⟩

/-- What a handler raises is what is rescued. -/
theorem result_proxy_of_raised (h : HookRaised (app.proxy req).calls e) :
    (app.proxy req).result = rescued req e := by
  rw [calls_proxy] at h
  exact (hookRaised_of_raises ((proxied app req).raises h)).2

/-- **A failure is answered for what failed exactly where nothing but the tunnel raises a
`Timeout::Error`, halts apart, and what a handler raises has a text.**  A failure of the native
tunnel answers its own status. -/
theorem failure_classified_iff (app : TunnelApp) (req : ProxyRequest) :
    (((∀ message, (app.proxy req).result = .ok (.error 504 message) →
          TimedOut (app.proxy req).calls) ∧
        ∀ e, HookRaised (app.proxy req).calls e → e.isA "StandardError" →
          ¬ e.isA "Outpunch::HookHalt" →
          ∃ message, (app.proxy req).result = .ok (.error 502 message)) ↔
      (∀ e, app.AuthRaises req e ∨ app.StopsBefore req e ∨ app.StopsAfter req e →
          e.isA "Timeout::Error" → e.isA "Outpunch::HookHalt") ∧
        ∀ e, app.BeforeRaises req e ∨ app.AfterRaises req e → e.isA "StandardError" →
          ¬ e.isA "Outpunch::HookHalt" → ∃ message, e.message = some message) ∧
    ∀ serve, app.tunnel = nativeTunnel serve → ∀ args e,
      .forward args (.error e) ∈ (app.proxy req).calls → ∃ err message,
        serve args = .error err ∧ (app.proxy req).result = .ok (.error err.status message) := by
  refine ⟨⟨?_, ?_⟩, ?_⟩
  · rintro ⟨htimeout, hstandard⟩
    refine ⟨fun e hr hto => ?_, fun e hr hstd hhalt => ?_⟩
    · by_contra hhalt
      obtain ⟨⟨message, hanswer⟩, hnot⟩ := timeout_of_raises hr hto hhalt
      exact hnot (htimeout message hanswer)
    · obtain ⟨hraised, hresult⟩ := hookRaised_of_raises hr
      exact ((rescued_badGateway_iff hhalt hstd).mp (hresult ▸ hstandard e hraised hstd hhalt)).2
  · rintro ⟨hno, htext⟩
    refine ⟨fun _ hanswer => timedOut_of_answer hno hanswer, ?_⟩
    intro e hraised hstd hhalt
    have hr := (proxied app req).raises (calls_proxy app req ▸ hraised)
    have hstops : app.StopsBefore req e ∨ app.StopsAfter req e :=
      hr.imp BeforeRaises.stops AfterRaises.stops
    have hto : ¬ e.isA "Timeout::Error" := fun hto => hhalt (hno e (.inr hstops) hto)
    rw [result_proxy_of_raised hraised, rescued_badGateway_iff hhalt hstd]
    exact ⟨hto, htext e hr hstd hhalt⟩
  · exact fun serve hnative args e hfailed => answers_of_nativeTunnel hnative hfailed

end TunnelApp

/-! ### Handlers that raise -/

/-- `HookHalt.new(402, ..)`. -/
def paymentRequired : RubyError where
  ancestors := ["Outpunch::HookHalt", "StandardError", "Exception"]
  message := some "HookHalt 402"
  status := 402
  body := "\"payment required\""

/-- A hook that halts after the request. -/
def billingHook : Hook where
  pattern := fun _ => .ok true
  before := .ok
  after := fun _ _ => .error paymentRequired

/-- A `Net::ReadTimeout`. -/
def readTimeout : RubyError where
  ancestors := ["Net::ReadTimeout", "Timeout::Error", "RuntimeError", "StandardError", "Exception"]
  message := some "Net::ReadTimeout"

/-- A hook whose own request times out, before the request is forwarded. -/
def quotaHook : Hook where
  pattern := fun _ => .ok true
  before := fun _ => .error readTimeout
  after := fun state result => .ok (state, result)

section

variable {hook : Hook} (h : ∀ path, hook.pattern path = .ok true)
include h

/-- A hook for every path is the one that runs. -/
theorem selected_hook {σ : Type} {run : Hook → σ → Except RubyError σ} {path : String} {s : σ}
    {ran : List (Hook × Except RubyError σ)} {out : Except RubyError σ}
    (hr : Traced.InTurn run [hook] s ran out) :
    Traced.Selected (fun h => h.pattern path) run ((hookedApp [hook]).registered orderRequest) s
      ran out := by
  have hpasses : Traced.passes (fun h => h.pattern path) hook := by rw [Traced.passes, h]
  rw [registered_hookedApp]
  refine .tested (by simp [Traced.Tested, h]) ?_
  rwa [List.filter_cons_of_pos hpasses]

end

theorem afterRaises_billingHook :
    (hookedApp [billingHook]).AfterRaises orderRequest paymentRequired := by
  refine ⟨admits_orderRequest _, _, _, _, _, selected_hook (fun _ => rfl) (.next rfl .done), rfl,
    selected_hook (fun _ => rfl) (.stop rfl), billingHook, List.mem_singleton.mpr rfl⟩

theorem stopsBefore_quotaHook : (hookedApp [quotaHook]).StopsBefore orderRequest readTimeout :=
  ⟨admits_orderRequest _, _, selected_hook (fun _ => rfl) (.stop rfl)⟩

/-- A halt was answered, and the request forwarded. -/
theorem halt_forwards :
    ¬ ∀ (app : TunnelApp) (req : ProxyRequest) (e : RubyError),
      HookRaised (app.proxy req).calls e → e.isA "Outpunch::HookHalt" →
      (app.proxy req).result = .ok (.halted e.status e.body) →
      forwards (app.proxy req).calls = [] := by
  intro h
  obtain ⟨hraised, hanswer, hforwards⟩ :=
    TunnelApp.forwarded_of_halt afterRaises_billingHook (by decide +kernel)
  exact hforwards (h _ _ _ hraised (by decide +kernel) hanswer)

/-- A handler raised a `StandardError`, and 504 was answered. -/
theorem hook_answers_timeout :
    ¬ ∀ (app : TunnelApp) (req : ProxyRequest),
      (∀ message, (app.proxy req).result = .ok (.error 504 message) →
          TimedOut (app.proxy req).calls) ∧
        ∀ e, HookRaised (app.proxy req).calls e → e.isA "StandardError" →
          ¬ e.isA "Outpunch::HookHalt" →
          ∃ message, (app.proxy req).result = .ok (.error 502 message) := by
  intro h
  obtain ⟨⟨message, hanswer⟩, hnot⟩ := TunnelApp.timeout_of_raises
    (.inr (.inl stopsBefore_quotaHook)) (by decide +kernel) (by decide +kernel)
  exact hnot ((h _ _).1 message hanswer)

end Outpunch
