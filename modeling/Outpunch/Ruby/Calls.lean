import Outpunch.Ruby.Outgoing

/-!
# Ruby — native calls under interrupts

A call completes at one event: a send, a closed connection, a message, the end of the channel.  In
every run a call completes once at most, and from then on it can only return what that gave it; a
call that has not, or has raised, has put nothing and taken nothing (`CallOk.done`).  What it
raises has hit its thread.
-/

namespace Outpunch

open Gvl (Interrupt)

variable {serde : SerdeJson} {config : ServerConfig} {tr : List RubyEvent} {a a' : RubyHost}
  {p : CallId} {c : ConnId} {b b' : NativeCall}

/-- How the work of a call is done. -/
inductive Completion where
  /-- The text is on the incoming queue. -/
  | put (m : Pushed)
  /-- The connection was closed, or its `run` over. -/
  | closed
  | took (msg : String)
  /-- The channel is closed and empty. -/
  | ended
  deriving DecidableEq

/-- What the method returns. -/
def Completion.value : Completion → NativeValue
  | .put _ | .closed => .sent
  | .took msg => .message (some msg)
  | .ended => .message none

/-- The work is one of the method. -/
def Completion.Of : Completion → NativeMethod → Prop
  | .put m, .pushMessage text => m.text = text
  | .closed, .pushMessage _ | .took _, .nextOutgoing | .ended, .nextOutgoing => True
  | _, _ => False

def NativeWork.Of : NativeWork → NativeMethod → Prop
  | .sending m, .pushMessage text => m.text = text
  | .polling, .pushMessage _ | .locking, .nextOutgoing | .receiving, .nextOutgoing => True
  | _, _ => False

def CallEvent.completes : CallEvent → Option Completion
  | .sent m => some (.put m)
  | .closed _ | .gone _ => some .closed
  | .received msg => some (.took msg)
  | .ended => some .ended
  | _ => none

/-- An event completes the call `p`. -/
def RubyEvent.completes (p : CallId) : RubyEvent → Option Completion
  | .call p' _ e => if p' = p then e.completes else none
  | _ => none

/-- The completions of the call `p`. -/
abbrev completionsOf (p : CallId) (tr : List RubyEvent) : List Completion :=
  Lts.record (RubyEvent.completes p) tr

/-- The interrupt has hit the thread of `p`. -/
def Hit (p : CallId) (tr : List RubyEvent) (i : Interrupt String) : Prop :=
  ∃ c, .call p c (.interrupt i) ∈ tr

/-! ### One step of a call -/

theorem NativeCall.next_inv {e : CallEvent} (h : b.next e = some b') :
    b'.conn = b.conn ∧ b'.method = b.method ∧ b.stepCall e = some b'.call := by
  obtain ⟨call, hcall, rfl⟩ := Option.map_eq_some_iff.mp h
  exact ⟨rfl, rfl, hcall⟩

/-- The steps of a call, by what they do on its thread. -/
inductive NativeCall.Does (b : NativeCall) :
    CallEvent → Gvl.Call String NativeWork NativeValue → Prop where
  | interrupt {i : Interrupt String} {call : Gvl.Call String NativeWork NativeValue}
      (h : b.call.interrupt i = some call) : Does b (.interrupt i) call
  | enter {call : Gvl.Call String NativeWork NativeValue}
      (h : b.call.enter b.method.work = some call) : Does b .enter call
  | advance {e : CallEvent} {work work' : NativeWork}
      {call : Gvl.Call String NativeWork NativeValue} (he : e.completes = none)
      (hof : work.Of b.method → work'.Of b.method)
      (h : b.call.advance work work' = some call) : Does b e call
  | finish {e : CallEvent} {work : NativeWork} {x : Completion}
      {call : Gvl.Call String NativeWork NativeValue} (he : e.completes = some x)
      (hof : work.Of b.method → x.Of b.method)
      (h : b.call.finish work x.value = some call) : Does b e call
  | cancel {work : NativeWork} {call : Gvl.Call String NativeWork NativeValue}
      (h : b.call.cancel work = some call) : Does b (.cancelled work) call
  | settle {call : Gvl.Call String NativeWork NativeValue}
      (h : b.call.settle = some call) : Does b .settle call

/-- A call does the work of its method, and it is that work that completes it. -/
theorem NativeCall.does_of_stepCall {e : CallEvent}
    {call : Gvl.Call String NativeWork NativeValue} (h : b.stepCall e = some call) :
    b.Does e call := by
  cases e with
  | interrupt i => exact .interrupt h
  | enter => exact .enter h
  | began m =>
      obtain ⟨hm, h'⟩ := Option.ite_none_right_eq_some.mp h
      exact .advance rfl (fun _ => hm ▸ rfl) h'
  | closed text =>
      obtain ⟨hm, h'⟩ := Option.ite_none_right_eq_some.mp h
      exact .finish (x := .closed) rfl (fun _ => hm ▸ trivial) h'
  | sent m =>
      refine .finish (x := .put m) rfl (fun hof => ?_) h
      cases hm : b.method <;> rw [hm] at hof <;> exact hof
  | gone m =>
      refine .finish (x := .closed) rfl (fun hof => ?_) h
      cases hm : b.method with
      | pushMessage text => trivial
      | nextOutgoing => rw [hm] at hof; exact hof
  | locked =>
      refine .advance rfl (fun hof => ?_) h
      cases hm : b.method <;> rw [hm] at hof <;> exact hof
  | received msg =>
      refine .finish (x := .took msg) rfl (fun hof => ?_) h
      cases hm : b.method <;> rw [hm] at hof <;> exact hof
  | ended =>
      refine .finish (x := .ended) rfl (fun hof => ?_) h
      cases hm : b.method <;> rw [hm] at hof <;> exact hof
  | cancelled work =>
      simp only [NativeCall.stepCall] at h
      split at h
      · cases h
      · exact .cancel h
  | settle => exact .settle h

/-- A step that completes the call gives it its value; the others leave it what it has. -/
theorem NativeCall.Does.result {e : CallEvent} {call : Gvl.Call String NativeWork NativeValue}
    (h : b.Does e call) :
    match e.completes with
    | some x => b.call.phase.result = none ∧ call.phase.result = some x.value
    | none => call.phase.result = b.call.phase.result := by
  cases h with
  | interrupt h => exact Gvl.Call.interrupt_result h
  | enter h => exact Gvl.Call.enter_result h
  | advance he _ h =>
      rw [he]
      obtain ⟨permit, hp, rfl⟩ := Gvl.Call.advance_inv h
      rw [hp]; rfl
  | finish he _ h =>
      rw [he]
      obtain ⟨permit, hp, rfl⟩ := Gvl.Call.finish_inv h
      exact ⟨by rw [hp]; rfl, rfl⟩
  | cancel h =>
      obtain ⟨hp, rfl⟩ := Gvl.Call.cancel_inv h
      rw [hp]; rfl
  | settle h => exact Gvl.Call.settle_result h

/-- What completes a call is of its method, and what it goes on with. -/
theorem NativeCall.Does.of {e : CallEvent} {call : Gvl.Call String NativeWork NativeValue}
    (h : b.Does e call)
    (hw : ∀ work permit, b.call.phase = .inside work permit → work.Of b.method) :
    (∀ work permit, call.phase = .inside work permit → work.Of b.method) ∧
      ∀ x, e.completes = some x → x.Of b.method := by
  cases h with
  | @interrupt i _ h =>
      refine ⟨fun work permit hp => ?_, fun x hx => by cases hx⟩
      rcases (Gvl.Call.interrupt_inv h).2 with ⟨w, permit', hp₀, hp'⟩ | ⟨-, hp'⟩
      · cases hp'.symm.trans hp
        exact hw _ _ hp₀
      · exact hw _ _ (hp'.symm.trans hp)
  | enter h =>
      refine ⟨fun work permit hp => ?_, fun x hx => by cases hx⟩
      obtain ⟨-, -, hp' | hp'⟩ := Gvl.Call.enter_inv h
      · cases hp'.symm.trans hp
        cases b.method <;> trivial
      · cases hp'.symm.trans hp
  | advance he hof h =>
      refine ⟨fun work permit hp' => ?_, fun x hx => ?_⟩
      · obtain ⟨permit, hp, rfl⟩ := Gvl.Call.advance_inv h
        cases hp'
        exact hof (hw _ _ hp)
      · rw [he] at hx; cases hx
  | finish he hof h =>
      obtain ⟨permit, hp, rfl⟩ := Gvl.Call.finish_inv h
      refine ⟨fun work permit hp' => (by cases hp'), fun x hx => ?_⟩
      cases he.symm.trans hx
      exact hof (hw _ _ hp)
  | cancel h =>
      obtain ⟨-, rfl⟩ := Gvl.Call.cancel_inv h
      exact ⟨fun _ _ hp => (by cases hp), fun x hx => by cases hx⟩
  | settle h =>
      refine ⟨fun work permit hp => ?_, fun x hx => by cases hx⟩
      rcases Gvl.Call.settle_inv h with ⟨value, -, rfl⟩ | ⟨-, -, hp' | ⟨err, -, hp'⟩⟩
      · cases hp
      · rw [hp'] at hp; cases hp
      · rw [hp'] at hp; cases hp

theorem NativeCall.Does.struck {hit : Interrupt String → Prop} {e : CallEvent}
    {call : Gvl.Call String NativeWork NativeValue} (h : b.Does e call) (hk : b.call.Struck hit)
    (hi : ∀ i, e = .interrupt i → hit i) : call.Struck hit := by
  cases h with
  | interrupt h => exact hk.interrupt (hi _ rfl) h
  | enter h =>
      obtain ⟨-, hp, hphase⟩ := Gvl.Call.enter_inv h
      refine hk.keep hp fun err he => ?_
      rcases hphase with hphase | hphase <;> rw [hphase] at he <;> cases he
  | advance _ _ h =>
      obtain ⟨permit, -, rfl⟩ := Gvl.Call.advance_inv h
      exact hk.keep rfl fun _ he => by cases he
  | finish _ _ h =>
      obtain ⟨permit, -, rfl⟩ := Gvl.Call.finish_inv h
      exact hk.keep rfl fun _ he => by cases he
  | cancel h =>
      obtain ⟨-, rfl⟩ := Gvl.Call.cancel_inv h
      exact hk.keep rfl fun _ he => by cases he
  | settle h => exact hk.settle h

/-! ### A call and its history -/

/-- What a call has done, and what it has been hit by. -/
structure CallOk (p : CallId) (tr : List RubyEvent) (b : NativeCall) : Prop where
  work : ∀ work permit, b.call.phase = .inside work permit → work.Of b.method
  done : ∃ o : Option Completion, completionsOf p tr = o.toList ∧
    b.call.phase.result = o.map Completion.value ∧ ∀ x ∈ o, x.Of b.method
  struck : b.call.Struck (Hit p tr)

theorem CallOk.own {e : CallEvent} (h : CallOk p tr b) (hn : b.next e = some b') :
    CallOk p (tr ++ [RubyEvent.call p b.conn e]) b' := by
  obtain ⟨-, hmethod, hcall⟩ := NativeCall.next_inv hn
  have hdoes := NativeCall.does_of_stepCall hcall
  obtain ⟨hwork, hof⟩ := hdoes.of h.work
  have hresult := hdoes.result
  obtain ⟨o, hdone, hvalue, hall⟩ := h.done
  have hcompletes : (RubyEvent.call p b.conn e).completes p = e.completes := if_pos rfl
  refine ⟨hmethod ▸ hwork, ?_, ?_⟩
  · rw [hmethod]
    cases he : e.completes with
    | none =>
        rw [he] at hresult hcompletes
        have hrec : completionsOf p (tr ++ [RubyEvent.call p b.conn e]) = completionsOf p tr :=
          Lts.record_snoc_of_none hcompletes
        exact ⟨o, hrec.trans hdone, hresult.trans hvalue, hall⟩
    | some x =>
        rw [he] at hresult hcompletes
        obtain ⟨hnone, hsome⟩ := hresult
        obtain rfl : o = none := by rw [hnone] at hvalue; simpa using hvalue.symm
        have hrec : completionsOf p (tr ++ [RubyEvent.call p b.conn e]) =
            completionsOf p tr ++ [x] := Lts.record_snoc_of_some hcompletes
        refine ⟨some x, by rw [hrec, hdone]; rfl, hsome, fun y hy => ?_⟩
        cases hy
        exact hof x he
  · have hmono : b.call.Struck (Hit p (tr ++ [RubyEvent.call p b.conn e])) :=
      h.struck.mono fun i ⟨c, hi⟩ => ⟨c, List.mem_append_left _ hi⟩
    refine hdoes.struck hmono fun i hi => ⟨b.conn, ?_⟩
    rw [hi]
    exact List.mem_concat_self

theorem CallOk.move {e : RubyEvent} (h : CallOk p tr b) (hm : NativeCall.Move p b e b') :
    CallOk p (tr ++ [e]) b' := by
  cases hm with
  | own hn => exact h.own hn
  | other he =>
      refine ⟨h.work, ?_, h.struck.mono fun i ⟨c, hi⟩ => ⟨c, List.mem_append_left _ hi⟩⟩
      have hno : e.completes p = none := by
        cases e with
        | call p' c e => exact if_neg fun hp => he c e (by rw [hp])
        | _ => rfl
      have hrec : completionsOf p (tr ++ [e]) = completionsOf p tr := Lts.record_snoc_of_none hno
      rw [hrec]
      exact h.done

theorem CallOk.new {method : NativeMethod} (hno : ∀ c e, .call p c e ∉ tr) :
    CallOk p (tr ++ [RubyEvent.called p c method]) { conn := c, method, call := .new } where
  work _ _ hp := by cases hp
  done := by
    refine ⟨none, ?_, rfl, fun _ hx => by cases hx⟩
    rw [completionsOf, Lts.record_snoc_of_none rfl]
    refine Lts.record_eq_nil.mpr fun e he => ?_
    cases e with
    | call p' c e =>
        refine if_neg fun hp => ?_
        subst hp
        exact hno c e he
    | _ => rfl
  struck := .new _

/-- **A call completes once at most**, in every run. -/
theorem callOk_of_run (h : RubyRun serde config tr a) (hb : a.calls p = some b) :
    CallOk p tr b :=
  call_invariant (CallOk p) CallOk.new CallOk.move h hb

theorem mem_completionsOf {x : Completion} :
    x ∈ completionsOf p tr ↔ ∃ c e, .call p c e ∈ tr ∧ e.completes = some x := by
  rw [completionsOf, Lts.mem_record]
  constructor
  · rintro ⟨e, he, hx⟩
    cases e with
    | call p' c e =>
        obtain ⟨rfl, hx'⟩ := Option.ite_none_right_eq_some.mp hx
        exact ⟨c, e, he, hx'⟩
    | _ => cases hx
  · rintro ⟨c, e, he, hx⟩
    exact ⟨_, he, (if_pos rfl).trans hx⟩

theorem called_of_run (h : RubyRun serde config tr a) (hb : a.calls p = some b) :
    .called p b.conn b.method ∈ tr := by
  refine call_invariant (fun tr b => .called p b.conn b.method ∈ tr)
    (fun _ => List.mem_concat_self) (fun {tr b e b'} ih hm => ?_) h hb
  cases hm with
  | own hn =>
      obtain ⟨hconn, hmethod, -⟩ := NativeCall.next_inv hn
      rw [hconn, hmethod]
      exact List.mem_append_left _ ih
  | other _ => exact List.mem_append_left _ ih

/-- A call is of one connection. -/
theorem conn_of_mem (h : RubyRun serde config tr a) (hb : a.calls p = some b) {e : CallEvent}
    (he : .call p c e ∈ tr) : c = b.conn := by
  refine call_invariant (fun tr b => ∀ c e, .call p c e ∈ tr → c = b.conn)
    (fun hno c e hmem => absurd hmem (by simpa using hno c e))
    (fun {tr b e b'} ih hm c ce hmem => ?_) h hb c e he
  cases hm with
  | own hn =>
      rw [(NativeCall.next_inv hn).1]
      rcases List.mem_append.mp hmem with hmem | hmem
      · exact ih c ce hmem
      · cases List.mem_singleton.mp hmem
        rfl
  | other hne =>
      rcases List.mem_append.mp hmem with hmem | hmem
      · exact ih c ce hmem
      · exact absurd (List.mem_singleton.mp hmem).symm (hne c ce)

/-- What completes a call is its own: of its connection and its method, and all it has done. -/
theorem completed_of_mem (h : RubyRun serde config tr a) {e : CallEvent} (he : .call p c e ∈ tr)
    {x : Completion} (hx : e.completes = some x) :
    ∃ b, a.calls p = some b ∧ b.conn = c ∧ completionsOf p tr = [x] ∧
      b.call.phase.result = some x.value ∧ x.Of b.method := by
  cases hb : a.calls p with
  | none => exact absurd he (not_called_of_absent h hb c e)
  | some b =>
      obtain ⟨o, hdone, hvalue, hof⟩ := (callOk_of_run h hb).done
      have hmem : x ∈ completionsOf p tr := mem_completionsOf.mpr ⟨c, e, he, hx⟩
      rw [hdone, Option.mem_toList] at hmem
      cases hmem
      exact ⟨b, rfl, (conn_of_mem h hb he).symm, hdone, hvalue, hof x rfl⟩

/-- A call completes once at most. -/
theorem completionsOf_le_one (h : RubyRun serde config tr a) (p : CallId) :
    (completionsOf p tr).length ≤ 1 := by
  cases hb : a.calls p with
  | none =>
      have hnil : completionsOf p tr = [] := List.eq_nil_iff_forall_not_mem.mpr fun x hx => by
        obtain ⟨c, e, he, -⟩ := mem_completionsOf.mp hx
        exact not_called_of_absent h hb c e he
      rw [hnil]
      exact Nat.zero_le 1
  | some b =>
      obtain ⟨o, hdone, -⟩ := (callOk_of_run h hb).done
      rw [hdone]
      cases o <;> simp

/-- What is recorded of completing events alone is recorded once of each call. -/
theorem record_nodup {β : Type} {f : RubyEvent → Option (CallId × β)}
    (hf : ∀ {e p y}, f e = some (p, y) → ∃ x, e.completes p = some x)
    (h : RubyRun serde config tr a) : ((Lts.record f tr).map Prod.fst).Nodup := by
  refine h.invariant (fun tr _ => ((Lts.record f tr).map Prod.fst).Nodup) List.nodup_nil
    fun {tr a e a'} hr ih hs => ?_
  cases hy : f e with
  | none => rwa [Lts.record_snoc_of_none hy]
  | some y =>
      obtain ⟨p, y⟩ := y
      obtain ⟨x, hx⟩ := hf hy
      rw [Lts.record_snoc_of_some hy, List.map_append]
      refine ih.append (List.nodup_singleton _) ?_
      -- an earlier one would be a second completion
      rw [List.map_singleton, List.disjoint_singleton]
      intro hp
      obtain ⟨⟨p', y'⟩, hmem, rfl⟩ := List.mem_map.mp hp
      obtain ⟨e', he', hy'⟩ := Lts.mem_record.mp hmem
      obtain ⟨x', hx'⟩ := hf hy'
      have hold : x' ∈ completionsOf p' tr := Lts.mem_record.mpr ⟨e', he', hx'⟩
      have hnew : completionsOf p' (tr ++ [e]) = completionsOf p' tr ++ [x] :=
        Lts.record_snoc_of_some hx
      have hle := completionsOf_le_one (hr.snoc hs) p'
      rw [hnew, List.length_append, List.length_singleton] at hle
      exact (List.length_pos_of_mem hold).ne' (by omega)

end Outpunch
