import Outpunch.Library.PartialMap
import Outpunch.Library.Traced
import Outpunch.Rack.Server

/-!
# Rack — hooks

`Outpunch::Rack::Hooks`: the registry of hooks by service, and the calls of their handlers around a
tunnel request.  A handler gets the payload and the String that holds the path, and may change
both, and after the request the result as well; it may raise anything, and so may the test of a
pattern.  A Ruby exception is known by the ancestors of its class, which is what `rescue` goes by.

The handlers registered for a service are those of the registrations, in their order
(`getD_registerAll`).
-/

namespace Outpunch

/-- An exception, with the attributes of a `HookHalt`; the body is the JSON it is rendered as. -/
structure RubyError where
  /-- The names of `e.class.ancestors`. -/
  ancestors : List String
  /-- The text of `e.message`; `none` where its bytes are no text in its encoding, such as a UTF-8
  string that is not valid. -/
  message : Option String
  status : Nat := 0
  body : String := ""
  deriving DecidableEq

/-- `e.is_a?(C)`. -/
def RubyError.isA (e : RubyError) (name : String) : Bool := e.ancestors.contains name

/-- The payload hash; its values are what `to_s` makes of them, and the body may be `nil`. -/
structure Payload where
  requestId : String
  method : String
  path : String
  query : StringMap
  headers : StringMap
  body : Option String
  deriving DecidableEq

/-- What a handler can change: the payload, and the String of the request's path, which is
`payload[:path]` as well until another is assigned there. -/
structure HookState where
  payload : Payload
  path : String
  deriving DecidableEq

/-- A registered hook: what `path.match?(pattern)` gives, and what its handler makes of the path
and the payload. -/
structure Hook where
  pattern : String → Except RubyError Bool
  before : HookState → Except RubyError HookState
  after : HookState → TunnelResult → Except RubyError (HookState × TunnelResult)

/-- The arguments of `handle_request`. -/
structure ForwardArgs where
  service : String
  method : String
  path : String
  query : StringMap
  headers : StringMap
  body : Option String
  deriving DecidableEq

/-- A call the controller makes, and what comes of it. -/
inductive TunnelCall where
  | authorize (outcome : Except RubyError Bool)
  | before (h : Hook) (outcome : Except RubyError HookState)
  | forward (args : ForwardArgs) (outcome : Except RubyError TunnelResponse)
  | after (h : Hook) (outcome : Except RubyError (HookState × TunnelResult))

/-- `HOOKS`. -/
abbrev Hooks := PartialMap String (List Hook)

namespace Hooks

/-- `Hooks.register`. -/
def register (hooks : Hooks) (service : String) (hook : Hook) : Hooks :=
  hooks.insert service ((hooks service).getD [] ++ [hook])

/-- Hooks registered one after the other. -/
def registerAll (l : List (String × Hook)) : Hooks :=
  l.foldl (fun hooks p => hooks.register p.1 p.2) PartialMap.empty

section

variable (hooks : Hooks) (service : String)

/-- `Hooks.before_proxy`; `find_handlers` selects by the path as it is then. -/
def beforeProxy (state : HookState) : Traced TunnelCall RubyError HookState :=
  .eachSelected .before (fun h => h.pattern state.path) Hook.before ((hooks service).getD []) state

/-- `Hooks.after_proxy`. -/
def afterProxy (state : HookState) (result : TunnelResult) :
    Traced TunnelCall RubyError (HookState × TunnelResult) :=
  .eachSelected .after (fun h => h.pattern state.path) (fun h s => h.after s.1 s.2)
    ((hooks service).getD []) (state, result)

end

/-! ### Registration -/

theorem getD_register (hooks : Hooks) (service service' : String) (hook : Hook) :
    ((hooks.register service hook) service').getD [] =
      (hooks service').getD [] ++ if service = service' then [hook] else [] := by
  unfold register
  by_cases h : service = service'
  · subst h
    rw [PartialMap.insert_same, Option.getD_some, if_pos rfl]
  · rw [PartialMap.insert_other (Ne.symm h), if_neg h, List.append_nil]

/-- **The handlers of a service are those registered for it, in the order of registration.** -/
theorem getD_registerAll (l : List (String × Hook)) (service : String) :
    (registerAll l service).getD [] = (l.filter fun p => p.1 = service).map Prod.snd := by
  induction l using List.reverseRecOn with
  | nil => rfl
  | append_singleton l p ih =>
      have hsnoc : registerAll (l ++ [p]) = (registerAll l).register p.1 p.2 := by
        rw [registerAll, List.foldl_append]
        rfl
      rw [hsnoc, getD_register, ih, List.filter_append, List.map_append]
      by_cases h : p.1 = service <;> simp [h]

end Hooks

end Outpunch
