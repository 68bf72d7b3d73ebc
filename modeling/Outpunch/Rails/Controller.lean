import Outpunch.Rack.Hooks
import Outpunch.Rails.Rendering

/-!
# Rails — the tunnel controller

`TunnelController#proxy`: the gate, the payload, the hooks around `handle_request`, and the three
`rescue` clauses over all of it.  `TunnelApp` is the application it runs in: what is configured,
what is connected, and what the tunnel does.  A call of user code or of the tunnel is recorded with
its outcome.

`Proxied` lists every way through the body; `proxied` says that the body takes one of them.
-/

namespace Outpunch

/-- The characters of `[[:space:]]`. -/
def isSpaceChar (c : Char) : Bool :=
  let n := c.toNat
  9 ≤ n && n ≤ 13 || 0x2000 ≤ n && n ≤ 0x200A ||
    [0x20, 0x85, 0xA0, 0x1680, 0x2028, 0x2029, 0x202F, 0x205F, 0x3000].contains n

/-- `blank?`. -/
def isBlank (s : String) : Bool := s.toList.all isSpaceChar

/-- What a request of the controller carries; `env` is the Rack env. -/
structure ProxyRequest where
  serviceName : Option String
  servicePath : Option String
  method : String
  query : StringMap
  env : StringMap
  body : Option String
  deriving DecidableEq

/-- What the controller answers. -/
inductive ProxyReply where
  | rendered (reply : RailsReply)
  /-- The status and body of a `HookHalt`. -/
  | halted (status : Nat) (body : String)
  /-- `render_error`. -/
  | error (status : UInt16) (message : String)

/-- The application around the controller. -/
structure TunnelApp where
  /-- `configuration.authorize_service`: what it answers for a service, or raises. -/
  authorize : Option (String → Except RubyError Bool)
  /-- `connected?`. -/
  connected : String → Bool
  /-- `configuration.hooks`: the hooks registered, in order, where it is set. -/
  hooks : Option (List (String × Hook))
  /-- `handle_request`. -/
  tunnel : ForwardArgs → Except RubyError TunnelResponse
  /-- The order in which the hash of a response's headers yields them. -/
  order : StringMap → List (String × String)
  order_perm : ∀ headers, (order headers).Perm headers.toList
  /-- `SecureRandom.uuid`. -/
  uuid : String
  /-- `String#downcase`. -/
  downcase : String → String
  rails : ActionPack

namespace ProxyRequest

/-- `params[:service_name]`, as text. -/
def service (req : ProxyRequest) : String := req.serviceName.getD ""

/-- `params[:service_path] || ""`. -/
def path (req : ProxyRequest) : String := req.servicePath.getD ""

end ProxyRequest

/-- What is forwarded of a payload. -/
def Payload.forwardArgs (payload : Payload) (service : String) : ForwardArgs where
  service := service
  method := payload.method
  path := payload.path
  query := payload.query
  headers := payload.headers
  body := payload.body

namespace TunnelApp

variable (app : TunnelApp) (req : ProxyRequest)

/-- The payload of a request. -/
def payload : Payload where
  requestId := app.uuid
  method := req.method
  path := req.path
  query := req.query
  headers := extractProxyHeaders req.env
  body := some (req.body.getD "")

/-- The authorisation of a service: it is not asked for where none is set. -/
def authorized : Traced TunnelCall RubyError Bool :=
  match app.authorize with
  | none => pure true
  | some auth => .call (.authorize (auth req.service)) (auth req.service)

/-- What the handlers get first. -/
def initial : HookState where
  payload := app.payload req
  path := req.path

/-- `run_hook(:before_proxy, ..)`. -/
def runBefore : Traced TunnelCall RubyError HookState :=
  match app.hooks with
  | none => pure (app.initial req)
  | some l => (Hooks.registerAll l).beforeProxy req.service (app.initial req)

/-- `run_hook(:after_proxy, ..)`. -/
def runAfter (state : HookState) (result : TunnelResult) :
    Traced TunnelCall RubyError (HookState × TunnelResult) :=
  match app.hooks with
  | none => pure (state, result)
  | some l => (Hooks.registerAll l).afterProxy req.service state result

/-- `success_response` of what the tunnel returned. -/
def result (data : TunnelResponse) : TunnelResult :=
  successResponse app.downcase data (app.order data.headers)

/-- `proxy` behind the gate. -/
def forward : Traced TunnelCall RubyError ProxyReply := do
  let state ← app.runBefore req
  let args := state.payload.forwardArgs req.service
  let data ← .call (.forward args (app.tunnel args)) (app.tunnel args)
  let after ← app.runAfter req state (app.result data)
  return .rendered (renderTunnelResult app.rails after.2)

/-- `proxy`, before its `rescue` clauses. -/
def proxyBody : Traced TunnelCall RubyError ProxyReply :=
  if isBlank req.service then return .error 400 "Service name required"
  else do
    let allowed ← app.authorized req
    if allowed then
      if app.connected req.service then app.forward req
      else return .error 502 ("Service '" ++ req.service ++ "' offline")
    else
      return .error 403 ("Service '" ++ req.service ++ "' not allowed for this product")

/-- What `JSON.generate` raises for a string that is no text. -/
def generatorError : RubyError where
  ancestors := ["JSON::GeneratorError", "JSON::JSONError", "StandardError", "Exception"]
  message := some "source sequence is illegal/malformed utf-8"

/-- The `rescue` clauses of `proxy`; what is raised in one leaves `proxy`. -/
def rescued (e : RubyError) : Except RubyError ProxyReply :=
  if e.isA "Outpunch::HookHalt" then .ok (.halted e.status e.body)
  else if e.isA "Timeout::Error" then
    .ok (.error 504 ("Tunnel timeout for service '" ++ req.service ++ "'"))
  else if e.isA "StandardError" then
    match e.message with
    | some message => .ok (.error 502 message)
    | none => .error generatorError
  else .error e

/-- `proxy`. -/
def proxy : Traced TunnelCall RubyError ProxyReply := (app.proxyBody req).rescue (rescued req)

/-! ### The ways through `proxy` -/

/-- The hooks registered for the service of a request, in their order. -/
def registered : List Hook :=
  ((app.hooks.getD []).filter fun p => p.1 = req.service).map Prod.snd

/-- Of the hooks of the service, those whose pattern matches the path run their `before_proxy` in
turn; where the test of a pattern raises, none runs. -/
def BeforeRun (ran : List (Hook × Except RubyError HookState)) (out : Except RubyError HookState) :
    Prop :=
  Traced.Selected (fun h => h.pattern req.path) Hook.before (app.registered req)
    (app.initial req) ran out

/-- So do the `after_proxy` handlers, on what the tunnel returned; the path is the String as the
handlers before the request left it. -/
def AfterRun (state : HookState) (data : TunnelResponse)
    (ran : List (Hook × Except RubyError (HookState × TunnelResult)))
    (out : Except RubyError (HookState × TunnelResult)) : Prop :=
  Traced.Selected (fun h => h.pattern state.path) (fun h s => h.after s.1 s.2) (app.registered req)
    (state, app.result data) ran out

/-- The call of `authorize_service`, where it is set. -/
def authCalls : List TunnelCall :=
  app.authorize.toList.map fun auth => .authorize (auth req.service)

/-- The authorisation is not set, or accepts the service. -/
def Authorized : Prop := ∀ auth, app.authorize = some auth → auth req.service = .ok true

/-- The gate is passed. -/
def Admits : Prop :=
  ¬ isBlank req.service ∧ app.Authorized req ∧ app.connected req.service

/-- The calls of `before_proxy` handlers, as they are recorded. -/
def beforeCalls (ran : List (Hook × Except RubyError HookState)) : List TunnelCall :=
  ran.map fun p => .before p.1 p.2

def afterCalls (ran : List (Hook × Except RubyError (HookState × TunnelResult))) :
    List TunnelCall :=
  ran.map fun p => .after p.1 p.2

/-- The ways through the body of `proxy`: the calls made, and what is answered or raised. -/
inductive Proxied : List TunnelCall → Except RubyError ProxyReply → Prop where
  | blank (hb : isBlank req.service) : Proxied [] (.ok (.error 400 "Service name required"))
  | authRaised {auth : String → Except RubyError Bool} {e : RubyError}
      (hb : ¬ isBlank req.service) (ha : app.authorize = some auth)
      (he : auth req.service = .error e) : Proxied (app.authCalls req) (.error e)
  | refused {auth : String → Except RubyError Bool} (hb : ¬ isBlank req.service)
      (ha : app.authorize = some auth) (he : auth req.service = .ok false) :
      Proxied (app.authCalls req)
        (.ok (.error 403 ("Service '" ++ req.service ++ "' not allowed for this product")))
  | offline (hb : ¬ isBlank req.service) (ha : app.Authorized req)
      (hc : ¬ app.connected req.service) :
      Proxied (app.authCalls req) (.ok (.error 502 ("Service '" ++ req.service ++ "' offline")))
  /-- A `before_proxy` handler raised. -/
  | stopped {ran : List (Hook × Except RubyError HookState)} {e : RubyError} (hg : app.Admits req)
      (hr : app.BeforeRun req ran (.error e)) :
      Proxied (app.authCalls req ++ beforeCalls ran) (.error e)
  /-- `handle_request` raised. -/
  | failed {ran : List (Hook × Except RubyError HookState)} {state : HookState} {e : RubyError}
      (hg : app.Admits req) (hr : app.BeforeRun req ran (.ok state))
      (ht : app.tunnel (state.payload.forwardArgs req.service) = .error e) :
      Proxied (app.authCalls req ++ beforeCalls ran ++
        [.forward (state.payload.forwardArgs req.service) (.error e)]) (.error e)
  /-- An `after_proxy` handler raised. -/
  | stoppedAfter {ran : List (Hook × Except RubyError HookState)} {state : HookState}
      {data : TunnelResponse} {ran' : List (Hook × Except RubyError (HookState × TunnelResult))}
      {e : RubyError} (hg : app.Admits req) (hr : app.BeforeRun req ran (.ok state))
      (ht : app.tunnel (state.payload.forwardArgs req.service) = .ok data)
      (hr' : app.AfterRun req state data ran' (.error e)) :
      Proxied (app.authCalls req ++ beforeCalls ran ++
        .forward (state.payload.forwardArgs req.service) (.ok data) :: afterCalls ran') (.error e)
  | answered {ran : List (Hook × Except RubyError HookState)} {state : HookState}
      {data : TunnelResponse} {ran' : List (Hook × Except RubyError (HookState × TunnelResult))}
      {after : HookState × TunnelResult} (hg : app.Admits req)
      (hr : app.BeforeRun req ran (.ok state))
      (ht : app.tunnel (state.payload.forwardArgs req.service) = .ok data)
      (hr' : app.AfterRun req state data ran' (.ok after)) :
      Proxied (app.authCalls req ++ beforeCalls ran ++
        .forward (state.payload.forwardArgs req.service) (.ok data) :: afterCalls ran')
        (.ok (.rendered (renderTunnelResult app.rails after.2)))

variable {app req}

/-- The hooks found are those registered. -/
theorem getD_hooks {l : List (String × Hook)} (h : app.hooks = some l) :
    (Hooks.registerAll l req.service).getD [] = app.registered req := by
  rw [Hooks.getD_registerAll, registered, h, Option.getD_some]

theorem registered_of_none (h : app.hooks = none) : app.registered req = [] := by
  rw [registered, h]
  rfl

theorem runBefore_selected (app : TunnelApp) (req : ProxyRequest) :
    ∃ ran, app.BeforeRun req ran (app.runBefore req).result ∧
      (app.runBefore req).calls = beforeCalls ran := by
  cases h : app.hooks with
  | none =>
      have hrun : app.runBefore req = pure (app.initial req) := by rw [runBefore, h]
      rw [hrun]
      refine ⟨[], ?_, rfl⟩
      rw [BeforeRun, registered_of_none h]
      exact .tested (by simp [Traced.Tested]) .done
  | some l =>
      have hrun : app.runBefore req =
          (Hooks.registerAll l).beforeProxy req.service (app.initial req) := by rw [runBefore, h]
      rw [hrun, Hooks.beforeProxy, getD_hooks h]
      exact Traced.eachSelected_selected ..

theorem runAfter_selected (app : TunnelApp) (req : ProxyRequest) (state : HookState)
    (data : TunnelResponse) :
    ∃ ran, app.AfterRun req state data ran (app.runAfter req state (app.result data)).result ∧
      (app.runAfter req state (app.result data)).calls = afterCalls ran := by
  cases h : app.hooks with
  | none =>
      have hrun : app.runAfter req state (app.result data) = pure (state, app.result data) := by
        rw [runAfter, h]
      rw [hrun]
      refine ⟨[], ?_, rfl⟩
      rw [AfterRun, registered_of_none h]
      exact .tested (by simp [Traced.Tested]) .done
  | some l =>
      have hrun : app.runAfter req state (app.result data) =
          (Hooks.registerAll l).afterProxy req.service state (app.result data) := by
        rw [runAfter, h]
      rw [hrun, Hooks.afterProxy, getD_hooks h]
      exact Traced.eachSelected_selected ..

/-- What comes behind the gate. -/
theorem forward_proxied (hg : app.Admits req) :
    app.Proxied req (app.authCalls req ++ (app.forward req).calls) (app.forward req).result := by
  obtain ⟨ran, hran, hcalls⟩ := runBefore_selected app req
  unfold forward
  cases hr : (app.runBefore req).result with
  | error e =>
      rw [hr] at hran
      rw [Traced.bind_of_error hr, hcalls]
      exact .stopped hg hran
  | ok state =>
      rw [hr] at hran
      rw [Traced.bind_of_ok hr, hcalls]
      dsimp only
      cases ht : app.tunnel (state.payload.forwardArgs req.service) with
      | error e =>
          rw [Traced.bind_of_error (Traced.result_call ..), Traced.calls_call,
            ← List.append_assoc]
          exact .failed hg hran ht
      | ok data =>
          rw [Traced.bind_of_ok (Traced.result_call ..), Traced.calls_call]
          obtain ⟨ran', hran', hcalls'⟩ := runAfter_selected app req state data
          dsimp only
          cases hr' : (app.runAfter req state (app.result data)).result with
          | error e =>
              rw [hr'] at hran'
              rw [Traced.bind_of_error hr', hcalls', List.singleton_append, ← List.append_assoc]
              exact .stoppedAfter hg hran ht hran'
          | ok after =>
              rw [hr'] at hran'
              rw [Traced.bind_of_ok hr', hcalls', Traced.calls_pure, List.append_nil,
                List.singleton_append, ← List.append_assoc]
              exact .answered hg hran ht hran'

/-- **The body of `proxy` takes one of the ways.** -/
theorem proxied (app : TunnelApp) (req : ProxyRequest) :
    app.Proxied req (app.proxyBody req).calls (app.proxyBody req).result := by
  unfold proxyBody
  by_cases hb : isBlank req.service
  · rw [if_pos hb]
    exact .blank hb
  rw [if_neg hb]
  -- behind the authorisation
  have gate : app.Authorized req → app.Proxied req
      (app.authCalls req ++ (if app.connected req.service then app.forward req
        else pure (.error 502 ("Service '" ++ req.service ++ "' offline"))).calls)
      (if app.connected req.service then app.forward req
        else pure (.error 502 ("Service '" ++ req.service ++ "' offline"))).result := by
    intro ha
    by_cases hc : app.connected req.service
    · rw [if_pos hc]
      exact forward_proxied ⟨hb, ha, hc⟩
    · rw [if_neg hc, Traced.calls_pure, List.append_nil]
      exact .offline hb ha hc
  cases hauth : app.authorize with
  | none =>
      have hrun : app.authorized req = pure true := by rw [authorized, hauth]
      have hcalls : app.authCalls req = [] := by rw [authCalls, hauth]; rfl
      have ha : app.Authorized req := by
        intro auth h
        rw [hauth] at h
        cases h
      have hgate := gate ha
      rw [hcalls] at hgate
      rw [hrun, Traced.bind_of_ok (Traced.result_pure ..)]
      exact hgate
  | some auth =>
      have hrun : app.authorized req =
          .call (.authorize (auth req.service)) (auth req.service) := by rw [authorized, hauth]
      have hcalls : app.authCalls req = [.authorize (auth req.service)] := by
        rw [authCalls, hauth]
        rfl
      rw [hrun]
      cases he : auth req.service with
      | error e =>
          rw [Traced.bind_of_error (Traced.result_call ..), Traced.calls_call, ← he, ← hcalls]
          exact .authRaised hb hauth he
      | ok allowed =>
          rw [Traced.bind_of_ok (Traced.result_call ..), Traced.calls_call, ← he, ← hcalls]
          cases allowed with
          | true =>
              refine gate fun auth' h => ?_
              cases hauth.symm.trans h
              exact he
          | false =>
              dsimp only
              rw [if_neg Bool.false_ne_true, Traced.calls_pure, List.append_nil]
              exact .refused hb hauth he

/-- `proxy` makes the calls of its body, and rescues what that raises. -/
theorem calls_proxy (app : TunnelApp) (req : ProxyRequest) :
    (app.proxy req).calls = (app.proxyBody req).calls := Traced.calls_rescue ..

theorem result_proxy_of_ok {reply : ProxyReply} (h : (app.proxyBody req).result = .ok reply) :
    (app.proxy req).result = .ok reply := Traced.result_rescue_of_ok h

theorem result_proxy_of_error {e : RubyError} (h : (app.proxyBody req).result = .error e) :
    (app.proxy req).result = rescued req e := Traced.result_rescue_of_error h

end TunnelApp

end Outpunch
