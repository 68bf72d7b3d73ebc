import Outpunch.Library.PartialMap
import Outpunch.Protocol.Messages

/-!
# Server — the shared state

`server.rs`: the configuration, the two maps behind the server's mutex, and what each critical
section does to them.  The mutex is never held across an `.await`, so each of these functions is
one atomic step of the task that runs it.

Channels and connections are named by who created them: the outgoing channel and the `Weak`
pointer of a connection by its `ConnId`, the oneshot channel of a dispatch by its request id.
-/

namespace Outpunch

/-- What `next_conn_id.fetch_add(1)` hands out, taken as unbounded. -/
abbrev ConnId := Nat

/-- What `Uuid::new_v4` generates for a tunnel request. -/
abbrev RequestId := String

/-- A clone of the sender of a connection's outgoing channel. -/
abbrev OutgoingTx := ConnId

/-- `Weak<ConnectionInner>`. -/
abbrev WeakConnection := ConnId

/-- `oneshot::Sender<TunnelResponse>`, by the dispatch that holds the receiver. -/
abbrev ResponseTx := RequestId

/-- `ServerConfig`, with its `Default`, without the two durations: a timer may fire at any time. -/
structure ServerConfig where
  secret : String := ""
  maxBodySize : Nat := 10 * 1024 * 1024

structure ServiceHandle where
  connId : ConnId
  outgoingTx : OutgoingTx
  connection : WeakConnection
  deriving DecidableEq

/-- A request waiting for a response from the connection it was sent to. -/
structure PendingRequest where
  connId : ConnId
  tx : ResponseTx
  deriving DecidableEq

structure ServerState where
  config : ServerConfig
  /-- service name → active connection handle -/
  services : PartialMap String ServiceHandle
  /-- request id → the request waiting on a response -/
  pending : PartialMap RequestId PendingRequest

/-- `OutpunchServer::new`. -/
def ServerState.new (config : ServerConfig) : ServerState where
  config := config
  services := PartialMap.empty
  pending := PartialMap.empty

namespace ServerState

/-- The block of `dispatch` under the lock: look the service up, park the request under the
connection found, and take a clone of its sender.  `none` is `NotConnected`. -/
def park (st : ServerState) (service : String) (requestId : RequestId) (tx : ResponseTx) :
    Option (ServiceHandle × ServerState) :=
  (st.services service).map fun conn =>
    (conn, { st with pending := st.pending.insert requestId { connId := conn.connId, tx } })

/-- `state.pending.remove(&request_id)` at the end of a failed `dispatch`. -/
def unpark (st : ServerState) (requestId : RequestId) : ServerState :=
  { st with pending := st.pending.erase requestId }

/-- `services.insert` in `run`, which gives back the handle it replaced. -/
def register (st : ServerState) (service : String) (handle : ServiceHandle) :
    Option ServiceHandle × ServerState :=
  (st.services service, { st with services := st.services.insert service handle })

/-- The block of the relay loop under the lock: the entry of the request a response names is
removed and its sender given to the caller, but only where the entry is this connection's. -/
def claim (st : ServerState) (connId : ConnId) (requestId : RequestId) :
    Option ResponseTx × ServerState :=
  match st.pending requestId with
  | some p =>
    if p.connId = connId then (some p.tx, { st with pending := st.pending.erase requestId })
    else (none, st)
  | none => (none, st)

/-- `cleanup_connection`. -/
def cleanupConnection (st : ServerState) (service : String) (connId : ConnId) : ServerState where
  config := st.config
  services :=
    if (st.services service).any (fun handle => handle.connId = connId) then
      st.services.erase service
    else st.services
  pending := st.pending.retain fun p => p.connId ≠ connId

/-! ### What the critical sections leave alone -/

variable {st : ServerState} {service : String} {connId : ConnId} {requestId : RequestId}

theorem park_eq_none {tx : ResponseTx} :
    st.park service requestId tx = none ↔ st.services service = none := by
  simp [park]

theorem park_eq_some {tx : ResponseTx} {handle : ServiceHandle} {st' : ServerState} :
    st.park service requestId tx = some (handle, st') ↔ st.services service = some handle ∧
      st' = { st with pending := st.pending.insert requestId { connId := handle.connId, tx } } := by
  simp only [park, Option.map_eq_some_iff, Prod.mk.injEq]
  constructor
  · rintro ⟨_, hs, rfl, rfl⟩; exact ⟨hs, rfl⟩
  · rintro ⟨hs, rfl⟩; exact ⟨_, hs, rfl, rfl⟩

theorem claim_services : (st.claim connId requestId).2.services = st.services := by
  unfold claim; split <;> (try split) <;> rfl

theorem claim_config : (st.claim connId requestId).2.config = st.config := by
  unfold claim; split <;> (try split) <;> rfl

/-- A claim that succeeds removes the entry, which was this connection's. -/
theorem claim_some {tx : ResponseTx} (h : (st.claim connId requestId).1 = some tx) :
    st.pending requestId = some { connId, tx } ∧
      (st.claim connId requestId).2.pending = st.pending.erase requestId := by
  revert h; unfold claim; split
  · rename_i p hp
    split
    · rename_i hc
      rintro h
      cases h; cases hc
      exact ⟨hp, rfl⟩
    · rintro ⟨⟩
  · rintro ⟨⟩

/-- A claim that fails changes nothing. -/
theorem claim_none (h : (st.claim connId requestId).1 = none) :
    (st.claim connId requestId).2 = st := by
  revert h; unfold claim; split
  · split
    · rintro ⟨⟩
    · exact fun _ => rfl
  · exact fun _ => rfl

/-- A claim fails on an id without entry, and on another connection's entry. -/
theorem claim_eq_none (h : ∀ p, st.pending requestId = some p → p.connId ≠ connId) :
    st.claim connId requestId = (none, st) := by
  unfold claim; split
  · rename_i p hp
    rw [if_neg (h p hp)]
  · rfl

theorem cleanup_services_other {s : String} (h : s ≠ service) :
    (st.cleanupConnection service connId).services s = st.services s := by
  unfold cleanupConnection; dsimp only; split
  · exact PartialMap.erase_other h
  · rfl

/-- After `cleanup_connection` the service is the connection's no more, and a handle still
there is the one of before. -/
theorem cleanup_services_eq_some {handle : ServiceHandle} :
    (st.cleanupConnection service connId).services service = some handle ↔
      st.services service = some handle ∧ handle.connId ≠ connId := by
  unfold cleanupConnection; dsimp only; split
  · rename_i h
    cases e : st.services service with
    | none => simp [e] at h
    | some g =>
        have hg : g.connId = connId := by simpa [e] using h
        constructor
        · intro hh; rw [PartialMap.erase_same] at hh; cases hh
        · rintro ⟨hh, hne⟩; cases hh; exact absurd hg hne
  · rename_i h
    constructor
    · intro hs; exact ⟨hs, by simpa [hs] using h⟩
    · exact And.left

/-- A cleanup leaves another connection's registration as it is. -/
theorem cleanup_services_of_ne (h : ∀ handle, st.services service = some handle →
    handle.connId ≠ connId) :
    (st.cleanupConnection service connId).services service = st.services service := by
  refine Option.ext fun handle => ?_
  rw [cleanup_services_eq_some]
  exact and_iff_left_of_imp (h handle)

end ServerState

/-! ### `constant_time_eq` -/

/-- The bytes of a string, as `str::bytes` gives them. -/
def bytes (s : String) : List UInt8 := s.toByteArray.data.toList

/-- `constant_time_eq`. -/
def constantTimeEq (a b : String) : Bool :=
  if (bytes a).length ≠ (bytes b).length then false
  else ((bytes a).zip (bytes b)).foldl (fun acc p => acc ||| (p.1 ^^^ p.2)) 0 == 0

theorem bytes_injective : Function.Injective bytes := by
  intro a b h
  have : a.toByteArray = b.toByteArray := by
    apply ByteArray.ext
    exact Array.toList_inj.mp h
  exact String.toByteArray_inj.mp this

/-- The fold of differences is zero when it started at zero and every pair is equal. -/
theorem foldl_xor_eq_zero (l : List (UInt8 × UInt8)) (acc : UInt8) :
    l.foldl (fun acc p => acc ||| (p.1 ^^^ p.2)) acc = 0 ↔
      acc = 0 ∧ ∀ p ∈ l, p.1 = p.2 := by
  induction l generalizing acc with
  | nil => simp
  | cons p l ih =>
      rw [List.foldl_cons, ih, UInt8.or_eq_zero_iff, UInt8.xor_eq_zero_iff, List.forall_mem_cons,
        and_assoc]

/-- Two lists of one length agree when they agree pair by pair. -/
theorem forall_zip_eq {α : Type} :
    ∀ {xs ys : List α}, xs.length = ys.length → ((∀ p ∈ xs.zip ys, p.1 = p.2) ↔ xs = ys)
  | [], [], _ => by simp
  | x :: xs, y :: ys, h => by
      have ih := forall_zip_eq (Nat.succ.inj h)
      rw [List.zip_cons_cons, List.forall_mem_cons, ih, List.cons_eq_cons]

/-- **`constant_time_eq` is equality of strings.** -/
theorem constantTimeEq_iff (a b : String) : constantTimeEq a b = true ↔ a = b := by
  unfold constantTimeEq
  split
  · rename_i h
    refine ⟨fun hf => absurd hf Bool.false_ne_true, fun e => absurd (e ▸ rfl) h⟩
  · rename_i h
    rw [beq_iff_eq, foldl_xor_eq_zero, forall_zip_eq (not_not.mp h), bytes_injective.eq_iff]
    exact ⟨And.right, fun e => ⟨rfl, e⟩⟩

example : constantTimeEq "secret" "secre" = false := by decide

end Outpunch
