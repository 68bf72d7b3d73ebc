import Outpunch.Server.History

/-!
# Server — the two queues of a connection

What was put into a queue, in order, is what was taken out of it followed by what it holds
(`arrived_eq`, `enqueued_eq`).  The outgoing queue is read by one drain task with one callback, so
what the callback was handed is a prefix of what was enqueued, whatever becomes of the task
(`QueueInv.handed_isPrefix`); where the task loses nothing, the rest is still queued.
-/

namespace Outpunch

variable {serde : SerdeJson} {config : ServerConfig} {tr : List Event} {w : World} {c : ConnId}

/-! ### Records of a connection -/

section

variable (c : ConnId)

/-- A message that enters the incoming channel of `c`. -/
def Event.arrives : Event → Option Pushed
  | .conn c' (.sent m) => if c' = c then some m else none
  | _ => none

/-- A message `run` of `c` takes. -/
def Event.receives : Event → Option Pushed
  | .conn c' (.authRecv m) | .conn c' (.relayRecv m) => if c' = c then some m else none
  | _ => none

/-- A text that enters the outgoing channel of `c`. -/
def Event.enqueues : Event → Option String
  | .conn c' (.reply text) => if c' = c then some text else none
  | .send _ tx json => if tx = c then some json else none
  | _ => none

/-- A text the callback of `c` is handed. -/
def Event.hands : Event → Option String
  | .conn c' (.deliver text) | .conn c' (.panic text) => if c' = c then some text else none
  | _ => none

/-- A request that enters the outgoing channel of `c`, with its text. -/
def Event.sends : Event → Option (RequestId × String)
  | .send q tx json => if tx = c then some (q, json) else none
  | _ => none

/-- The messages that entered the incoming channel of `c`, in order. -/
abbrev arrived (tr : List Event) : List Pushed := Lts.record (Event.arrives c) tr

abbrev received (tr : List Event) : List Pushed := Lts.record (Event.receives c) tr

abbrev enqueued (tr : List Event) : List String := Lts.record (Event.enqueues c) tr

abbrev handed (tr : List Event) : List String := Lts.record (Event.hands c) tr

abbrev sentTo (tr : List Event) : List (RequestId × String) := Lts.record (Event.sends c) tr

end

/-- `f` records events that concern `c` alone, and not its creation. -/
structure Event.RecordOf {β : Type} (c : ConnId) (f : Event → Option β) : Prop where
  other : ∀ {e}, ¬ e.ConcernsConn c → f e = none
  create : f (.create c) = none

theorem Event.recordOf_arrives : RecordOf c (arrives c) where
  other {e} h := by
    cases e with
    | conn c' e => cases e <;> first | exact if_neg h | rfl
    | _ => rfl
  create := rfl

theorem Event.recordOf_receives : RecordOf c (receives c) where
  other {e} h := by
    cases e with
    | conn c' e => cases e <;> first | exact if_neg h | rfl
    | _ => rfl
  create := rfl

theorem Event.recordOf_enqueues : RecordOf c (enqueues c) where
  other {e} h := by
    cases e with
    | conn c' e => cases e <;> first | exact if_neg h | rfl
    | send q tx json => exact if_neg h
    | _ => rfl
  create := rfl

theorem Event.recordOf_hands : RecordOf c (hands c) where
  other {e} h := by
    cases e with
    | conn c' e => cases e <;> first | exact if_neg h | rfl
    | _ => rfl
  create := rfl

theorem Event.recordOf_sends : RecordOf c (sends c) where
  other {e} h := by
    cases e with
    | send q tx json => exact if_neg h
    | _ => rfl
  create := rfl

/-- Nothing is recorded of a connection just made. -/
theorem Event.RecordOf.new {β : Type} {f : Event → Option β} (hf : RecordOf c f)
    (h : ∀ e ∈ tr, ¬ e.ConcernsConn c) : Lts.record f (tr ++ [Event.create c]) = [] := by
  rw [Lts.record_snoc_of_none hf.create]
  exact Lts.record_eq_nil.mpr fun e he => hf.other (h e he)

theorem Event.hands_eq_some {e : Event} {text : String} :
    e.hands c = some text ↔ e = .conn c (.deliver text) ∨ e = .conn c (.panic text) := by
  cases e with
  | conn c' e => cases e <;> simp [Event.hands, and_comm]
  | _ => simp [Event.hands]

theorem mem_handed {text : String} :
    text ∈ handed c tr ↔ .conn c (.deliver text) ∈ tr ∨ .conn c (.panic text) ∈ tr := by
  simp only [handed, Lts.mem_record, Event.hands_eq_some, and_or_left, exists_or, exists_eq_right]

/-! ### The incoming queue -/

/-- **The incoming channel is a queue**: what entered it is what `run` took and what it holds. -/
theorem arrived_eq (h : ServerRun serde config tr w) {k : Connection} (hk : w.conns c = some k) :
    arrived c tr = received c tr ++ k.incoming := by
  refine conn_invariant (fun tr k => arrived c tr = received c tr ++ k.incoming)
    (fun hno => ?_) (fun {tr w k e w' k'} _ _ ih _ hm => ?_) h hk
  · rw [arrived, received, Event.recordOf_arrives.new hno, Event.recordOf_receives.new hno]
    rfl
  · have stay : e.arrives c = none → e.receives c = none → k'.incoming = k.incoming →
        arrived c (tr ++ [e]) = received c (tr ++ [e]) ++ k'.incoming := by
      intro ha hr hi
      have ha : arrived c (tr ++ [e]) = arrived c tr := Lts.record_snoc_of_none ha
      have hr : received c (tr ++ [e]) = received c tr := Lts.record_snoc_of_none hr
      rw [ha, hr, hi, ih]
    have take : ∀ {m rest}, e.arrives c = none → e.receives c = some m → k.incoming = m :: rest →
        k'.incoming = rest → arrived c (tr ++ [e]) = received c (tr ++ [e]) ++ k'.incoming :=
      fun {m rest} ha hr hi hi' => by
        have ha : arrived c (tr ++ [e]) = arrived c tr := Lts.record_snoc_of_none ha
        have hr : received c (tr ++ [e]) = received c tr ++ [m] := Lts.record_snoc_of_some hr
        rw [ha, hr, hi', ih, hi, List.append_assoc, List.singleton_append]
    cases hm with
    | own hs =>
        cases hs with
        | @sent m _ _ _ =>
            have ha : arrived c (tr ++ [Event.conn c (.sent m)]) = arrived c tr ++ [m] :=
              Lts.record_snoc_of_some (if_pos rfl)
            have hr : received c (tr ++ [Event.conn c (.sent m)]) = received c tr :=
              Lts.record_snoc_of_none rfl
            rw [ha, hr, ih, List.append_assoc]
        | authRecv _ hi => exact take rfl (if_pos rfl) hi rfl
        | relayRecv _ hi => exact take rfl (if_pos rfl) hi rfl
        | _ => exact stay rfl rfl rfl
    | other hno =>
        exact stay (Event.recordOf_arrives.other hno) (Event.recordOf_receives.other hno) rfl
    | _ => exact stay rfl rfl rfl

/-! ### The outgoing queue -/

/-- What the callback was handed of what was enqueued, by where the drain task stands and what is
still queued. -/
def QueueInv (enqueued handed outgoing : List String) : Drain → Prop
  | .idle => enqueued = outgoing ∧ handed = []
  | .running callback => ∃ taken, enqueued = taken ++ outgoing ∧
      handed = if callback then taken else []
  | .ended => outgoing = [] ∧ handed.IsPrefix enqueued

namespace QueueInv

variable {enq hnd rest : List String} {text : String} {callback : Bool} {drain : Drain}

theorem enqueue (h : QueueInv enq hnd rest drain) (hd : drain ≠ .ended) :
    QueueInv (enq ++ [text]) hnd (rest ++ [text]) drain := by
  cases drain with
  | idle => exact ⟨congrArg (· ++ [text]) h.1, h.2⟩
  | running callback =>
      obtain ⟨taken, henq, hhand⟩ := h
      exact ⟨taken, by rw [henq, List.append_assoc], hhand⟩
  | ended => exact absurd rfl hd

theorem spawn (h : QueueInv enq hnd rest .idle) : QueueInv enq hnd rest (.running callback) :=
  ⟨[], h.1, h.2.trans (ite_self _).symm⟩

theorem deliver (h : QueueInv enq hnd (text :: rest) (.running true)) :
    QueueInv enq (hnd ++ [text]) rest (.running true) := by
  obtain ⟨taken, henq, hhand⟩ := h
  exact ⟨taken ++ [text], by rw [henq, List.append_assoc]; rfl, by rw [hhand]; rfl⟩

theorem discard (h : QueueInv enq hnd (text :: rest) (.running false)) :
    QueueInv enq hnd rest (.running false) := by
  obtain ⟨taken, henq, hhand⟩ := h
  exact ⟨taken ++ [text], by rw [henq, List.append_assoc]; rfl, hhand⟩

theorem panic (h : QueueInv enq hnd (text :: rest) (.running true)) :
    QueueInv enq (hnd ++ [text]) [] .ended := by
  obtain ⟨taken, henq, hhand⟩ := h
  exact ⟨rfl, rest, by rw [henq, hhand, List.append_assoc]; rfl⟩

theorem finish (h : QueueInv enq hnd [] (.running callback)) : QueueInv enq hnd [] .ended := by
  obtain ⟨taken, henq, hhand⟩ := h
  refine ⟨rfl, ?_⟩
  rw [henq, hhand, List.append_nil]
  cases callback
  · exact List.nil_prefix
  · exact List.prefix_rfl

theorem handed_isPrefix (h : QueueInv enq hnd rest drain) : hnd.IsPrefix enq := by
  cases drain with
  | idle => rw [h.2]; exact List.nil_prefix
  | running callback =>
      obtain ⟨taken, henq, hhand⟩ := h
      rw [henq, hhand]
      cases callback
      · exact List.nil_prefix
      · exact List.prefix_append ..
  | ended => exact h.2

end QueueInv

theorem queueInv_of_run (h : ServerRun serde config tr w) {k : Connection}
    (hk : w.conns c = some k) :
    QueueInv (enqueued c tr) (handed c tr) k.outgoing k.drain := by
  refine conn_invariant (fun tr k => QueueInv (enqueued c tr) (handed c tr) k.outgoing k.drain)
    (fun hno => ?_) (fun {tr w k e w' k'} hr hk ih _ hm => ?_) h hk
  · exact ⟨Event.recordOf_enqueues.new hno, Event.recordOf_hands.new hno⟩
  · -- each event shows at one end of the queue at most
    have put : ∀ {text}, e.enqueues c = some text → e.hands c = none →
        enqueued c (tr ++ [e]) = enqueued c tr ++ [text] ∧ handed c (tr ++ [e]) = handed c tr :=
      fun he hh => ⟨Lts.record_snoc_of_some he, Lts.record_snoc_of_none hh⟩
    have take : ∀ {text}, e.enqueues c = none → e.hands c = some text →
        enqueued c (tr ++ [e]) = enqueued c tr ∧ handed c (tr ++ [e]) = handed c tr ++ [text] :=
      fun he hh => ⟨Lts.record_snoc_of_none he, Lts.record_snoc_of_some hh⟩
    have none : e.enqueues c = none → e.hands c = none →
        enqueued c (tr ++ [e]) = enqueued c tr ∧ handed c (tr ++ [e]) = handed c tr :=
      fun he hh => ⟨Lts.record_snoc_of_none he, Lts.record_snoc_of_none hh⟩
    cases hm with
    | own hs =>
        cases hs with
        | reply _ hs =>
            obtain ⟨he, hh⟩ := put (if_pos rfl) rfl
            rw [he, hh]
            exact ih.enqueue hs.2
        | run hp =>
            obtain ⟨he, hh⟩ := none rfl rfl
            rw [(drain_idle_iff hr hk).mpr hp] at ih
            rw [he, hh]
            exact ih.spawn
        | deliver hd ho =>
            obtain ⟨he, hh⟩ := take rfl (if_pos rfl)
            rw [hd, ho] at ih
            rw [hd, he, hh]
            exact ih.deliver
        | discard hd ho =>
            obtain ⟨he, hh⟩ := none rfl rfl
            rw [hd, ho] at ih
            rw [hd, he, hh]
            exact ih.discard
        | panic hd ho =>
            obtain ⟨he, hh⟩ := take rfl (if_pos rfl)
            rw [hd, ho] at ih
            rw [he, hh]
            exact ih.panic
        | _ =>
            obtain ⟨he, hh⟩ := none rfl rfl
            rw [he, hh]
            exact ih
    | send hs =>
        obtain ⟨he, hh⟩ := put (if_pos rfl) rfl
        rw [he, hh]
        exact ih.enqueue hs.2
    | drainEnd hd ho _ =>
        obtain ⟨he, hh⟩ := none rfl rfl
        rw [hd, ho] at ih
        rw [ho, he, hh]
        exact ih.finish
    | other hno =>
        obtain ⟨he, hh⟩ := none (Event.recordOf_enqueues.other hno) (Event.recordOf_hands.other hno)
        rw [he, hh]
        exact ih
    | _ =>
        obtain ⟨he, hh⟩ := none rfl rfl
        rw [he, hh]
        exact ih

/-- The drain task of `c` loses a message: it has no callback, or the callback panics. -/
def Event.Loses (c : ConnId) (e : Event) : Prop :=
  ∃ text, e = .conn c (.discard text) ∨ e = .conn c (.panic text)

/-- What is not an event of the connection is none of its drain task. -/
theorem Event.drain_of_ne {e : Event} (he : ∀ ce, e ≠ .conn c ce) :
    ¬ e.Loses c ∧ e.hands c = none := by
  refine ⟨fun ⟨text, h⟩ => ?_, Option.eq_none_iff_forall_ne_some.mpr fun text h => ?_⟩
  · rcases h with rfl | rfl <;> exact he _ rfl
  · rcases Event.hands_eq_some.mp h with rfl | rfl <;> exact he _ rfl

/-- **The outgoing channel is a queue** where the drain task loses nothing: what was enqueued is
what the callback was handed and what is queued. -/
theorem enqueued_eq (h : ServerRun serde config tr w) {k : Connection} (hk : w.conns c = some k)
    (hno : ∀ e ∈ tr, ¬ e.Loses c) : enqueued c tr = handed c tr ++ k.outgoing := by
  refine conn_invariant (fun tr k => (∀ e ∈ tr, ¬ e.Loses c) →
    enqueued c tr = handed c tr ++ k.outgoing) (fun hno _ => ?_)
    (fun {tr w k e w' k'} _ _ ih _ hm hno => ?_) h hk hno
  · rw [enqueued, handed, Event.recordOf_enqueues.new hno, Event.recordOf_hands.new hno]
    rfl
  · replace ih := ih fun e he => hno e (List.mem_append_left _ he)
    have stay : e.enqueues c = none → e.hands c = none → k'.outgoing = k.outgoing →
        enqueued c (tr ++ [e]) = handed c (tr ++ [e]) ++ k'.outgoing := by
      intro he hh ho
      have he : enqueued c (tr ++ [e]) = enqueued c tr := Lts.record_snoc_of_none he
      have hh : handed c (tr ++ [e]) = handed c tr := Lts.record_snoc_of_none hh
      rw [he, hh, ho, ih]
    have put : ∀ {text}, e.enqueues c = some text → e.hands c = none →
        k'.outgoing = k.outgoing ++ [text] →
        enqueued c (tr ++ [e]) = handed c (tr ++ [e]) ++ k'.outgoing := by
      intro text he hh ho
      have he : enqueued c (tr ++ [e]) = enqueued c tr ++ [text] := Lts.record_snoc_of_some he
      have hh : handed c (tr ++ [e]) = handed c tr := Lts.record_snoc_of_none hh
      rw [he, hh, ho, ih, List.append_assoc]
    cases hm with
    | own hs =>
        cases hs with
        | reply _ _ => exact put (if_pos rfl) rfl rfl
        | @deliver text _ _ ho =>
            have he : enqueued c (tr ++ [Event.conn c (.deliver text)]) = enqueued c tr :=
              Lts.record_snoc_of_none rfl
            have hh : handed c (tr ++ [Event.conn c (.deliver text)]) = handed c tr ++ [text] :=
              Lts.record_snoc_of_some (if_pos rfl)
            rw [he, hh, ih, ho, List.append_assoc, List.singleton_append]
        | discard _ _ => exact absurd ⟨_, .inl rfl⟩ (hno _ List.mem_concat_self)
        | panic _ _ => exact absurd ⟨_, .inr rfl⟩ (hno _ List.mem_concat_self)
        | _ => exact stay rfl rfl rfl
    | send _ => exact put (if_pos rfl) rfl rfl
    | other hno =>
        exact stay (Event.recordOf_enqueues.other hno) (Event.recordOf_hands.other hno) rfl
    | _ => exact stay rfl rfl rfl

end Outpunch
