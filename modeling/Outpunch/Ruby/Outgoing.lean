import Outpunch.Ruby.Native

/-!
# Ruby — the messages for the client

What the core enqueues on a connection passes the drain task and its callback into the channel that
`next_outgoing` reads.  `create_connection` sets the callback before anyone has the connection, so
nothing is lost on the way (`CallbackSet`), and what was enqueued is what calls have taken, in
order, and what still waits (`enqueued_eq_takes`).
-/

namespace Outpunch

variable {serde : SerdeJson} {config : ServerConfig} {tr : List RubyEvent} {a a' : RubyHost}
  {c : ConnId}

/-! ### One queue and its connection -/

/-- What an event makes of a connection and its queue. -/
inductive OutgoingQueue.Move (serde : SerdeJson) (a : RubyHost) (c : ConnId) (o : OutgoingQueue)
    (k : Connection) : RubyEvent → OutgoingQueue → Connection → Prop where
  | conn {e : ConnEvent} {o' : OutgoingQueue} {k' : Connection}
      (hs : Connection.Step serde a.server.state.config k e k') (hn : o.onConn e = some o') :
      Move serde a c o k (.server (.conn c e)) o' k'
  | server {e : Event} {k' : Connection} (he : ∀ ce, e ≠ .conn c ce)
      (hm : Connection.Move serde a.server c k e k') : Move serde a c o k (.server e) o k'
  | push {p : CallId} {e : CallEvent} {ce : ConnEvent} {k' : Connection} (he : e.conn = some ce)
      (hs : Connection.Step serde a.server.state.config k ce k') :
      Move serde a c o k (.call p c e) o k'
  | call {p : CallId} {e : CallEvent} {o' : OutgoingQueue} (he : e.conn = none)
      (hq : o.onCall p (decide (k.drain = .ended)) e = some o') :
      Move serde a c o k (.call p c e) o' k
  | other {e : RubyEvent} (he : ∀ e', e ≠ .server e') (hc : ∀ p ce, e ≠ .call p c ce) :
      Move serde a c o k e o k

/-- A connection and its queue stay, and make one move. -/
theorem RubyStep.queueMove {e : RubyEvent} (h : RubyStep serde a e a') (hw : a.server.Wf)
    {o : OutgoingQueue} {k : Connection} (ho : a.outgoing c = some o)
    (hk : a.server.conns c = some k) :
    ∃ o' k', a'.outgoing c = some o' ∧ a'.server.conns c = some k' ∧
      OutgoingQueue.Move serde a c o k e o' k' := by
  cases h with
  | @create c' w' hs =>
      obtain ⟨k', hk', hm⟩ := hs.move hw.fresh hw.closesOthers hk
      have hne : c ≠ c' := by
        rintro rfl
        cases hs with
        | create => rw [hw.fresh _ (Nat.le_refl _)] at hk; cases hk
      exact ⟨o, k', (PartialMap.insert_other hne).trans ho, hk', .server (by simp) hm⟩
  | @conn c' ce o₁ o₂ w' hs ho₁ hn =>
      by_cases hc : c' = c
      · subst hc
        cases ho₁.symm.trans ho
        obtain ⟨k₁, k', hk₁, hstep, hk'⟩ := hs.conn_inv
        cases hk₁.symm.trans hk
        exact ⟨o₂, k', PartialMap.insert_same .., hk', .conn hstep hn⟩
      · obtain ⟨k', hk', hm⟩ := hs.move hw.fresh hw.closesOthers hk
        exact ⟨o, k', (PartialMap.insert_other (Ne.symm hc)).trans ho, hk',
          .server (by simp [hc]) hm⟩
  | server he hs =>
      obtain ⟨k', hk', hm⟩ := hs.move hw.fresh hw.closesOthers hk
      exact ⟨o, k', ho, hk', .server (fun ce h => by subst h; cases he) hm⟩
  | called _ _ _ => exact ⟨o, k, ho, hk, .other (by simp) (by simp)⟩
  | @callConn p ce _ b _ _ _ hb he hk₁ hs _ _ =>
      obtain ⟨k', hk', hm⟩ := hs.move hw.fresh hw.closesOthers hk
      by_cases hc : b.conn = c
      · subst hc
        cases hm with
        | own hstep => exact ⟨o, k', ho, hk', .push he hstep⟩
        | other hno => exact absurd rfl hno
      · cases hm with
        | own _ => exact absurd rfl hc
        | other _ => exact ⟨o, k, ho, hk', .other (by simp) (by simp [hc])⟩
  | @call p ce b _ o₁ o₂ hb he ho₁ _ hq =>
      by_cases hc : b.conn = c
      · subst hc
        cases ho₁.symm.trans ho
        refine ⟨o₂, k, PartialMap.insert_same .., hk, .call he ?_⟩
        rwa [RubyHost.callbackGone, hk] at hq
      · exact ⟨o, k, (PartialMap.insert_other (Ne.symm hc)).trans ho, hk,
          .other (by simp) (by simp [hc])⟩

/-- **Invariants of one connection, its queue and their history.** -/
theorem queue_invariant (P : List RubyEvent → OutgoingQueue → Connection → Prop)
    (hnew : ∀ {tr}, (∀ e ∈ rubyCore tr, ¬ e.ConcernsConn c) → (∀ p e, .call p c e ∉ tr) →
      P (tr ++ [RubyEvent.server (.create c)]) .new .new)
    (hmove : ∀ {tr a o k e a' o' k'}, RubyRun serde config tr a → a.outgoing c = some o →
      a.server.conns c = some k → P tr o k → RubyStep serde a e a' →
      OutgoingQueue.Move serde a c o k e o' k' → P (tr ++ [e]) o' k')
    (h : RubyRun serde config tr a) :
    (a.server.conns c = none ∧ a.outgoing c = none ∧ ∀ p e, .call p c e ∉ tr) ∨
      ∃ o k, a.outgoing c = some o ∧ a.server.conns c = some k ∧ P tr o k := by
  refine h.invariant (fun tr a => (a.server.conns c = none ∧ a.outgoing c = none ∧
    ∀ p e, .call p c e ∉ tr) ∨
      ∃ o k, a.outgoing c = some o ∧ a.server.conns c = some k ∧ P tr o k)
    (.inl ⟨rfl, rfl, by simp⟩) fun {tr a e a'} hr ih hs => ?_
  have hw := wf_of_run (coreRun hr)
  rcases ih with ⟨hk, ho, hno⟩ | ⟨o, k, ho, hk, hP⟩
  · -- without a connection, only its creation concerns it
    have absent : ∀ {e' w'}, Step serde a.server e' w' → e' ≠ .create c → w'.conns c = none :=
      fun hs hne => Option.eq_none_iff_forall_ne_some.mpr fun k' hk' => by
        rcases hs.move_inv hw.fresh hw.closesOthers hk' with ⟨-, he, -⟩ | ⟨k, hk', -⟩
        · exact hne he
        · rw [hk] at hk'; cases hk'
    have hno' : (∀ p ce, e ≠ .call p c ce) → ∀ p ce, .call p c ce ∉ tr ++ [e] := by
      intro he p ce hmem
      rcases List.mem_append.mp hmem with hmem | hmem
      · exact hno p ce hmem
      · exact he p ce (List.mem_singleton.mp hmem).symm
    cases hs with
    | @create c' w' hs =>
        by_cases hc : c' = c
        · subst hc
          refine .inr ⟨.new, .new, PartialMap.insert_same .., ?_,
            hnew (not_concerns_of_absent (coreRun hr) hk) hno⟩
          cases hs with
          | create => exact World.setConn_conns_same
        · exact .inl ⟨absent hs (by simp [hc]), (PartialMap.insert_other (Ne.symm hc)).trans ho,
            hno' (by simp)⟩
    | conn hs ho' _ =>
        refine .inl ⟨absent hs (by simp), (PartialMap.insert_other ?_).trans ho, hno' (by simp)⟩
        rintro rfl
        rw [ho] at ho'; cases ho'
    | server he hs =>
        exact .inl ⟨absent hs (fun h => by subst h; cases he), ho, hno' (by simp)⟩
    | called _ _ _ => exact .inl ⟨hk, ho, hno' (by simp)⟩
    | callConn _ _ hk' hs _ _ =>
        refine .inl ⟨absent hs (by simp), ho, hno' fun p ce he => ?_⟩
        cases he
        rw [hk] at hk'; cases hk'
    | call _ _ ho' _ _ =>
        refine .inl ⟨hk, (PartialMap.insert_other ?_).trans ho, hno' fun p ce he => ?_⟩
        · rintro rfl
          rw [ho] at ho'; cases ho'
        · cases he
          rw [ho] at ho'; cases ho'
  · obtain ⟨o', k', ho', hk', hm⟩ := hs.queueMove hw ho hk
    exact .inr ⟨o', k', ho', hk', hmove hr ho hk hP hs hm⟩

/-! ### The callback is set -/

/-- A call takes a message or leaves the queue alone. -/
theorem OutgoingQueue.onCall_inv {o o' : OutgoingQueue} {p : CallId} {gone : Bool} {e : CallEvent}
    (h : o.onCall p gone e = some o') : o'.ready = o.ready ∧
      ((∃ msg, e = .received msg ∧ o.queue = msg :: o'.queue) ∨
        (∀ msg, e ≠ .received msg) ∧ o'.queue = o.queue) := by
  cases e with
  | received msg =>
      simp only [OutgoingQueue.onCall] at h
      split at h
      · rename_i text rest hq
        obtain ⟨rfl, h'⟩ := Option.ite_none_right_eq_some.mp h
        cases h'
        exact ⟨rfl, .inl ⟨msg, rfl, hq⟩⟩
      · cases h
  | locked | ended =>
      obtain ⟨-, h⟩ := Option.ite_none_right_eq_some.mp h
      cases h
      exact ⟨rfl, .inr ⟨by simp, rfl⟩⟩
  | cancelled work =>
      cases work <;> cases h <;> exact ⟨rfl, .inr ⟨by simp, rfl⟩⟩
  | _ =>
      cases h
      exact ⟨rfl, .inr ⟨by simp, rfl⟩⟩

/-- Only `run` takes a connection from where it was made. -/
theorem Connection.Step.created_iff {k k' : Connection} {e : ConnEvent}
    (hs : Connection.Step serde config k e k') (he : e ≠ .run) :
    k'.phase = .created ↔ k.phase = .created := by
  have hn := hs.next
  generalize k.phase = p, k'.phase = p' at hn
  cases hn with
  | stay _ => exact Iff.rfl
  | run => exact absurd rfl he
  | _ => simp

/-- What a call of `push_message` shows as. -/
theorem CallEvent.conn_inv {e : CallEvent} {ce : ConnEvent} (he : e.conn = some ce) :
    (∃ m, ce = .push m) ∨ (∃ text, ce = .pushClosed text) ∨ (∃ m, ce = .sent m) ∨
      ∃ m, ce = .gone m := by
  cases e with
  | began m => cases he; exact .inl ⟨m, rfl⟩
  | closed text => cases he; exact .inr (.inl ⟨text, rfl⟩)
  | sent m => cases he; exact .inr (.inr (.inl ⟨m, rfl⟩))
  | gone m => cases he; exact .inr (.inr (.inr ⟨m, rfl⟩))
  | cancelled work =>
      cases work with
      | sending m => cases he; exact .inr (.inr (.inr ⟨m, rfl⟩))
      | _ => cases he
  | _ => cases he

/-- What a call of `push_message` leaves alone. -/
theorem Connection.Step.of_call {k k' : Connection} {ce : ConnEvent} {e : CallEvent}
    (hs : Connection.Step serde config k ce k') (he : e.conn = some ce) :
    k'.phase = k.phase ∧ k'.callback = k.callback ∧ k'.drain = k.drain ∧
      k'.outgoing = k.outgoing := by
  rcases CallEvent.conn_inv he with ⟨m, rfl⟩ | ⟨text, rfl⟩ | ⟨m, rfl⟩ | ⟨m, rfl⟩ <;> cases hs <;>
    exact ⟨rfl, rfl, rfl, rfl⟩

/-- The callback is set before `run` can be called, so the drain task has it. -/
structure CallbackSet (o : OutgoingQueue) (k : Connection) : Prop where
  created : o.ready = false → k.phase = .created
  callback : o.ready = true → k.phase = .created → k.callback = true
  drain : k.drain ≠ .running false

namespace CallbackSet

variable {o o' : OutgoingQueue} {k k' : Connection}

/-- A step that shows in none of it. -/
theorem keep (h : CallbackSet o k) (hr : o'.ready = o.ready)
    (hp : k'.phase = .created ↔ k.phase = .created) (hc : k'.callback = k.callback)
    (hd : k'.drain = k.drain) : CallbackSet o' k' where
  created h' := hp.mpr (h.created (hr ▸ h'))
  callback h' hp' := hc.trans (h.callback (hr ▸ h') (hp.mp hp'))
  drain := hd ▸ h.drain

theorem conn {e : ConnEvent} (h : CallbackSet o k) (hs : Connection.Step serde config k e k')
    (hn : o.onConn e = some o') : CallbackSet o' k' := by
  have hphase := hs.created_iff
  cases hs with
  | onMessage =>
      obtain ⟨-, hn⟩ := Option.ite_none_right_eq_some.mp hn
      cases hn
      exact ⟨fun h' => (by cases h'), fun _ _ => rfl, h.drain⟩
  | run hp =>
      obtain ⟨hr, hn⟩ := Option.ite_none_right_eq_some.mp hn
      cases hn
      refine ⟨fun h' => ?_, fun _ hc => (by cases hc), ?_⟩
      · rw [hr] at h'; cases h'
      · simp [h.callback hr hp]
  | close =>
      obtain ⟨-, hn⟩ := Option.ite_none_right_eq_some.mp hn
      cases hn
      exact h.keep rfl Iff.rfl rfl rfl
  | push _ _ | pushClosed _ | sent _ _ _ | gone _ | panic _ _ => cases hn
  | _ =>
      cases hn
      exact h.keep rfl (hphase (by simp)) rfl rfl

theorem move {e : RubyEvent} (h : CallbackSet o k)
    (hm : OutgoingQueue.Move serde a c o k e o' k') : CallbackSet o' k' := by
  -- a step of `run` after the first
  have later : k.phase ≠ .created → k'.phase ≠ .created → k'.drain = k.drain → CallbackSet o k' :=
    fun hp hp' hd => ⟨fun hr => absurd (h.created hr) hp, fun _ hc => absurd hc hp', hd ▸ h.drain⟩
  cases hm with
  | conn hs hn => exact h.conn hs hn
  | call _ hq => exact h.keep (OutgoingQueue.onCall_inv hq).1 Iff.rfl rfl rfl
  | other _ _ => exact h
  | push he hs =>
      obtain ⟨hp, hc, hd, -⟩ := hs.of_call he
      exact h.keep rfl (by rw [hp]) hc hd
  | server he hm =>
      cases hm with
      | own _ => exact absurd rfl (he _)
      | register hp | closeReplaced hp _ | respond hp | cleanup hp | runReturned hp _ =>
          exact later (by simp [hp]) (by simp) rfl
      | drainEnd _ _ _ => exact ⟨h.created, h.callback, by simp⟩
      | closed _ | send _ => exact h.keep rfl Iff.rfl rfl rfl
      | other _ => exact h

end CallbackSet

/-! ### What calls take -/

/-- A message a call takes from the channel of `c`. -/
def RubyEvent.takes (c : ConnId) : RubyEvent → Option (CallId × String)
  | .call p c' (.received msg) => if c' = c then some (p, msg) else none
  | _ => none

/-- What was taken from the channel of `c`, in order, and by which call. -/
abbrev takes (c : ConnId) (tr : List RubyEvent) : List (CallId × String) :=
  Lts.record (RubyEvent.takes c) tr

theorem RubyEvent.takes_eq_some {e : RubyEvent} {p : CallId} {msg : String} :
    e.takes c = some (p, msg) ↔ e = .call p c (.received msg) := by
  cases e with
  | call p' c' e => cases e <;> simp [RubyEvent.takes, and_left_comm]
  | _ => simp [RubyEvent.takes]

theorem mem_takes {p : CallId} {msg : String} :
    (p, msg) ∈ takes c tr ↔ .call p c (.received msg) ∈ tr := by
  simp only [takes, Lts.mem_record, RubyEvent.takes_eq_some, exists_eq_right]

/-- The queue of a connection, its callback and what went through them. -/
structure QueueOk (c : ConnId) (tr : List RubyEvent) (o : OutgoingQueue) (k : Connection) :
    Prop where
  callback : CallbackSet o k
  kept : ∀ e ∈ rubyCore tr, ¬ e.Loses c
  handed : handed c (rubyCore tr) = (takes c tr).map Prod.snd ++ o.queue

namespace QueueOk

variable {o o' : OutgoingQueue} {k k' : Connection}

theorem new (hno : ∀ e ∈ rubyCore tr, ¬ e.ConcernsConn c) (hno' : ∀ p e, .call p c e ∉ tr) :
    QueueOk c (tr ++ [RubyEvent.server (.create c)]) .new .new where
  callback := ⟨fun _ => rfl, fun hr => (by cases hr), by simp [Connection.new]⟩
  kept e he hl := by
    rw [rubyCore_server] at he
    rcases List.mem_append.mp he with he | he
    · refine hno e he ?_
      obtain ⟨text, rfl | rfl⟩ := hl <;> rfl
    · cases List.mem_singleton.mp he
      obtain ⟨text, h | h⟩ := hl <;> cases h
  handed := by
    have htakes : takes c (tr ++ [RubyEvent.server (.create c)]) = [] := by
      refine List.eq_nil_iff_forall_not_mem.mpr fun x hx => hno' x.1 (.received x.2) ?_
      simpa using mem_takes.mp hx
    rw [rubyCore_server, Outpunch.handed, Event.recordOf_hands.new hno, htakes]
    rfl

/-- A step that neither hands a message over nor takes one. -/
theorem quiet {e : RubyEvent} (h : QueueOk c tr o k) (hset : CallbackSet o' k')
    (hl : ∀ e', e.toServer = some e' → ¬ e'.Loses c ∧ e'.hands c = none)
    (ht : e.takes c = none) (hq : o'.queue = o.queue) : QueueOk c (tr ++ [e]) o' k' := by
  have htakes : takes c (tr ++ [e]) = takes c tr := Lts.record_snoc_of_none ht
  cases he : e.toServer with
  | none =>
      have hcore : rubyCore (tr ++ [e]) = rubyCore tr := Lts.record_snoc_of_none he
      refine ⟨hset, hcore ▸ h.kept, ?_⟩
      rw [hcore, htakes, hq, h.handed]
  | some e' =>
      have hcore : rubyCore (tr ++ [e]) = rubyCore tr ++ [e'] := Lts.record_snoc_of_some he
      obtain ⟨hloses, hhands⟩ := hl e' he
      refine ⟨hset, fun e₁ he₁ => ?_, ?_⟩
      · rw [hcore] at he₁
        rcases List.mem_append.mp he₁ with he₁ | he₁
        · exact h.kept e₁ he₁
        · exact List.mem_singleton.mp he₁ ▸ hloses
      · have hsame : Outpunch.handed c (rubyCore tr ++ [e']) =
            Outpunch.handed c (rubyCore tr) := Lts.record_snoc_of_none hhands
        rw [hcore, hsame, htakes, hq, h.handed]

theorem conn {e : ConnEvent} (h : QueueOk c tr o k) (hs : Connection.Step serde config k e k')
    (hn : o.onConn e = some o') : QueueOk c (tr ++ [RubyEvent.server (.conn c e)]) o' k' := by
  have hset := h.callback.conn hs hn
  cases e with
  | deliver text =>
      cases hn
      have htakes : takes c (tr ++ [RubyEvent.server (.conn c (.deliver text))]) = takes c tr :=
        Lts.record_snoc_of_none rfl
      have hhands : Outpunch.handed c (rubyCore tr ++ [Event.conn c (.deliver text)]) =
          Outpunch.handed c (rubyCore tr) ++ [text] := Lts.record_snoc_of_some (if_pos rfl)
      refine ⟨hset, fun e he => ?_, ?_⟩
      · rw [rubyCore_server] at he
        rcases List.mem_append.mp he with he | he
        · exact h.kept e he
        · cases List.mem_singleton.mp he
          rintro ⟨t, hl | hl⟩ <;> cases hl
      · rw [rubyCore_server, hhands, htakes, h.handed, List.append_assoc]
  | panic text => cases hn
  | discard text =>
      cases hs with
      | discard hd _ => exact absurd hd h.callback.drain
  | push _ | pushClosed _ | sent _ | gone _ => cases hn
  | onMessage | run | close =>
      obtain ⟨-, hn⟩ := Option.ite_none_right_eq_some.mp hn
      cases hn
      exact h.quiet hset (fun e' he' => by cases he'; exact ⟨by simp [Event.Loses], rfl⟩) rfl rfl
  | _ =>
      cases hn
      exact h.quiet hset (fun e' he' => by cases he'; exact ⟨by simp [Event.Loses], rfl⟩) rfl rfl

theorem move {e : RubyEvent} (h : QueueOk c tr o k)
    (hm : OutgoingQueue.Move serde a c o k e o' k') : QueueOk c (tr ++ [e]) o' k' := by
  have hset := h.callback.move hm
  cases hm with
  | conn hs hn => exact h.conn hs hn
  | server he _ =>
      exact h.quiet hset (fun e' he' => by cases he'; exact Event.drain_of_ne he) rfl rfl
  | @push p e ce _ he hs =>
      have ht : RubyEvent.takes c (.call p c e) = none := by
        cases e <;> first | rfl | cases he
      refine h.quiet hset (fun e' he' => ?_) ht rfl
      rw [RubyEvent.toServer, he, Option.map_some] at he'
      cases he'
      rcases CallEvent.conn_inv he with ⟨m, rfl⟩ | ⟨text, rfl⟩ | ⟨m, rfl⟩ | ⟨m, rfl⟩ <;>
        exact ⟨by simp [Event.Loses], rfl⟩
  | @call p e _ he hq =>
      have hcore : (RubyEvent.call p c e).toServer = none := by
        rw [RubyEvent.toServer, he, Option.map_none]
      rcases (OutgoingQueue.onCall_inv hq).2 with ⟨msg, rfl, hqueue⟩ | ⟨hne, hqueue⟩
      · have htakes : takes c (tr ++ [RubyEvent.call p c (.received msg)]) =
            takes c tr ++ [(p, msg)] := Lts.record_snoc_of_some (if_pos rfl)
        have hsame : rubyCore (tr ++ [RubyEvent.call p c (.received msg)]) = rubyCore tr :=
          Lts.record_snoc_of_none hcore
        refine ⟨hset, hsame ▸ h.kept, ?_⟩
        rw [hsame, htakes, h.handed, hqueue, List.map_append, List.append_assoc]
        rfl
      · refine h.quiet hset (fun e' he' => ?_) ?_ hqueue
        · rw [hcore] at he'; cases he'
        · cases e with
          | received msg => exact absurd rfl (hne msg)
          | _ => rfl
  | @other e hserver hcall =>
      refine h.quiet hset (fun e' he' => Event.drain_of_ne fun ce hce => ?_) ?_ rfl
      · subst hce
        cases e with
        | server e => exact hserver e rfl
        | called _ _ _ => cases he'
        | call p c' e =>
            obtain ⟨ce', -, hconn⟩ := Option.map_eq_some_iff.mp he'
            cases hconn
            exact hcall p e rfl
      · refine Option.eq_none_iff_forall_ne_some.mpr fun x hx => ?_
        exact hcall x.1 _ (RubyEvent.takes_eq_some.mp hx)

end QueueOk

theorem queueOk_of_run (h : RubyRun serde config tr a) {k : Connection}
    (hk : a.server.conns c = some k) : ∃ o, a.outgoing c = some o ∧ QueueOk c tr o k := by
  rcases queue_invariant (c := c) (QueueOk c) QueueOk.new (fun _ _ _ h _ hm => h.move hm) h with
    ⟨hno, -⟩ | ⟨o, k', ho, hk', hok⟩
  · rw [hno] at hk; cases hk
  · cases hk.symm.trans hk'
    exact ⟨o, ho, hok⟩

/-- What was enqueued on `c` and no call has taken: in the channel of `next_outgoing`, or in the
outgoing channel of the core. -/
def waiting (a : RubyHost) (c : ConnId) : List String :=
  ((a.outgoing c).map OutgoingQueue.queue).getD [] ++
    ((a.server.conns c).map Connection.outgoing).getD []

/-- **What was enqueued on a connection is what calls have taken, in order, and what waits.** -/
theorem enqueued_eq_takes (h : RubyRun serde config tr a) (c : ConnId) :
    enqueued c (rubyCore tr) = (takes c tr).map Prod.snd ++ waiting a c := by
  cases hk : a.server.conns c with
  | none =>
      rcases queue_invariant (c := c) (fun _ _ _ => True) (fun _ _ => trivial)
        (fun _ _ _ _ _ _ => trivial) h with ⟨-, ho, hno⟩ | ⟨o, k, -, hk', -⟩
      · have henq : enqueued c (rubyCore tr) = [] := by
          have hno := not_concerns_of_absent (coreRun h) hk
          exact Lts.record_eq_nil.mpr fun e he => Event.recordOf_enqueues.other (hno e he)
        have htakes : takes c tr = [] := by
          refine List.eq_nil_iff_forall_not_mem.mpr fun x hx => hno x.1 (.received x.2) ?_
          exact mem_takes.mp hx
        simp [waiting, ho, hk, henq, htakes]
      · rw [hk] at hk'; cases hk'
  | some k =>
      obtain ⟨o, ho, hok⟩ := queueOk_of_run h hk
      rw [enqueued_eq (coreRun h) hk hok.kept, hok.handed, List.append_assoc]
      simp [waiting, ho, hk]

/-! ### The end of the channel -/

/-- The channel is empty, and its sender dropped. -/
def Drained (o : OutgoingQueue) (k : Connection) : Prop :=
  k.drain = .ended ∧ o.queue = []

/-- Only the callback puts a message into the channel. -/
theorem OutgoingQueue.onConn_queue {o o' : OutgoingQueue} {e : ConnEvent}
    (h : o.onConn e = some o') (he : ∀ text, e ≠ .deliver text) : o'.queue = o.queue := by
  cases e with
  | deliver text => exact absurd rfl (he text)
  | onMessage | run | close =>
      obtain ⟨-, h⟩ := Option.ite_none_right_eq_some.mp h
      cases h
      rfl
  | push _ | pushClosed _ | sent _ | gone _ | panic _ => cases h
  | _ => cases h; rfl

theorem Drained.move {o o' : OutgoingQueue} {k k' : Connection} {e : RubyEvent}
    (h : Drained o k) (hidle : k.drain = .idle ↔ k.phase = .created)
    (hm : OutgoingQueue.Move serde a c o k e o' k') : Drained o' k' := by
  obtain ⟨hd, ho⟩ := h
  cases hm with
  | conn hs hn =>
      refine ⟨hs.drain_ended hidle hd, (OutgoingQueue.onConn_queue hn ?_).trans ho⟩
      rintro text rfl
      cases hs with
      | deliver hd' _ => rw [hd] at hd'; cases hd'
  | server _ hm => exact ⟨hm.drain_ended hidle hd, ho⟩
  | push he hs => exact ⟨(hs.of_call he).2.2.1.trans hd, ho⟩
  | call _ hq =>
      refine ⟨hd, ?_⟩
      rcases (OutgoingQueue.onCall_inv hq).2 with ⟨msg, -, hqueue⟩ | ⟨-, hqueue⟩
      · rw [ho] at hqueue; cases hqueue
      · exact hqueue.trans ho
  | other _ _ => exact ⟨hd, ho⟩

/-- **Where a call finds the channel closed, all that was enqueued has been taken.** -/
theorem drained_of_ended (h : RubyRun serde config tr a) {p : CallId}
    (he : .call p c .ended ∈ tr) : a.callbackGone c = true ∧ waiting a c = [] := by
  rcases queue_invariant (c := c)
    (fun tr o k => (∃ p, .call p c .ended ∈ tr) → Drained o k)
    (fun _ hno ⟨p, hp⟩ => absurd hp (by simpa using hno p .ended))
    (fun {tr a o k e a' o' k'} hr ho hk ih hs hm ⟨p, hp⟩ => by
      have hidle := drain_idle_iff (coreRun hr) hk
      rcases List.mem_append.mp hp with hp | hp
      · exact (ih ⟨p, hp⟩).move hidle hm
      · cases List.mem_singleton.mp hp
        cases hm with
        | push he _ => cases he
        | call _ hq =>
            obtain ⟨⟨hempty, hend⟩, ho'⟩ := Option.ite_none_right_eq_some.mp hq
            cases ho'
            exact ⟨of_decide_eq_true hend, hempty⟩
        | other _ hc => exact absurd rfl (hc p .ended)) h with ⟨-, -, hno⟩ | ⟨o, k, ho, hk, hP⟩
  · exact absurd he (hno p .ended)
  · obtain ⟨hd, hq⟩ := hP ⟨p, he⟩
    have hout : k.outgoing = [] := by
      have hinv := queueInv_of_run (coreRun h) hk
      rw [hd] at hinv
      exact hinv.1
    refine ⟨?_, ?_⟩
    · rw [RubyHost.callbackGone, hk]
      exact decide_eq_true hd
    · simp [waiting, ho, hk, hq, hout]

end Outpunch
