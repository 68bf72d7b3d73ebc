import Outpunch.Rack.Bridge

/-!
# Rack — the threads of a bridge and their calls

A native connection is called by the threads of its bridge only, each in at most one call: what has
not ended is the `push_message` the reader is in, or the `next_outgoing` the writer is in, and the
`run` is that of the third thread (`Owned`).
-/

namespace Outpunch

variable {serde : SerdeJson} {config : ServerConfig} {tr : List RackEvent} {a a' : Rack}
  {c : ConnId} {p : CallId} {b b' : RackBridge} {n n' : NativeCall}

/-! ### One native call -/

/-- A call that is over takes no step. -/
theorem NativeCall.outcome_of_next {e : CallEvent} (h : n.next e = some n') :
    n.outcome = none := by
  obtain ⟨-, -, hcall⟩ := NativeCall.next_inv h
  unfold NativeCall.outcome
  cases NativeCall.does_of_stepCall hcall with
  | interrupt h =>
      rcases (Gvl.Call.interrupt_inv h).2 with ⟨_, _, hp, -⟩ | ⟨hp | ⟨_, hp⟩, -⟩ <;> rw [hp]
  | enter h => rw [(Gvl.Call.enter_inv h).1]
  | advance _ _ h =>
      obtain ⟨_, hp, -⟩ := Gvl.Call.advance_inv h
      rw [hp]
  | finish _ _ h =>
      obtain ⟨_, hp, -⟩ := Gvl.Call.finish_inv h
      rw [hp]
  | cancel h => rw [(Gvl.Call.cancel_inv h).1]
  | settle h =>
      rcases Gvl.Call.settle_inv h with ⟨_, hp, -⟩ | ⟨hp | hp, -⟩ <;> rw [hp]

/-- What the bridge of a connection calls on it. -/
theorem RackBridgeEvent.process_called {e : RackBridgeEvent} {c' : ConnId} {method : NativeMethod}
    (h : e.process c = some (.host (.called p c' method))) :
    c' = c ∧ ((∃ text, e = .push p text ∧ method = .pushMessage text) ∨
      e = .next p ∧ method = .nextOutgoing) := by
  cases e with
  | push p' text => cases h; exact ⟨rfl, .inl ⟨text, rfl, rfl⟩⟩
  | next p' => cases h; exact ⟨rfl, .inr ⟨rfl, rfl⟩⟩
  | closeFrame handler _ => cases handler <;> cases h
  | _ => cases h

theorem ProcessEvent.toHost_called {e : ProcessEvent} {c : ConnId} {method : NativeMethod}
    (h : e.toHost = some (.called p c method)) : e = .host (.called p c method) := by
  cases e <;> cases h
  rfl

theorem ProcessEvent.toHost_call {e : ProcessEvent} {c : ConnId} {ce : CallEvent}
    (h : e.toHost = some (.call p c ce)) : e = .host (.call p c ce) := by
  cases e <;> cases h
  rfl

/-- A call that is there after a step of the process was just called, or takes a step of its own,
or stays as it is. -/
theorem ProcessStep.call_inv {x x' : RubyProcess} {e : ProcessEvent}
    (h : ProcessStep serde x e x') (hn : x'.host.calls p = some n') :
    (e = .host (.called p n'.conn n'.method) ∧ n'.call = .new) ∨
      ∃ n, x.host.calls p = some n ∧ n'.conn = n.conn ∧ n'.method = n.method ∧
        (n' = n ∨ ∃ ce, e = .host (.call p n.conn ce) ∧ n.next ce = some n') := by
  have hhost := h.toHost
  cases he : e.toHost with
  | none =>
      rw [he] at hhost
      exact .inr ⟨n', hhost ▸ hn, rfl, rfl, .inl rfl⟩
  | some e' =>
      rw [he] at hhost
      rcases hhost.callMove_inv hn with ⟨-, rfl, hcall⟩ | ⟨n, hn₀, hm⟩
      · exact .inl ⟨ProcessEvent.toHost_called he, hcall⟩
      · refine .inr ⟨n, hn₀, ?_⟩
        cases hm with
        | own hnext =>
            obtain ⟨hconn, hmethod, -⟩ := NativeCall.next_inv hnext
            exact ⟨hconn, hmethod, .inr ⟨_, ProcessEvent.toHost_call he, hnext⟩⟩
        | other _ => exact ⟨rfl, rfl, .inl rfl⟩

/-- The same in a process with bridges, where a call is one of its bridge. -/
theorem RackStep.call_inv {e : RackEvent} (h : RackStep serde a e a')
    (hn : a'.process.host.calls p = some n') :
    (∃ be, e = .bridge n'.conn be ∧ n'.call = .new ∧
      ((∃ text, be = .push p text ∧ n'.method = .pushMessage text) ∨
        be = .next p ∧ n'.method = .nextOutgoing)) ∨
      ∃ n, a.process.host.calls p = some n ∧ n'.conn = n.conn ∧ n'.method = n.method ∧
        (n' = n ∨ ∃ ce, e = .process (.host (.call p n.conn ce)) ∧ n.next ce = some n') := by
  cases h with
  | process he hs =>
      rcases hs.call_inv hn with ⟨rfl, -⟩ | ⟨n, hn₀, hconn, hmethod, hmove⟩
      · cases he
      · refine .inr ⟨n, hn₀, hconn, hmethod, hmove.imp_right ?_⟩
        rintro ⟨ce, rfl, hnext⟩
        exact ⟨ce, rfl, hnext⟩
  | upgraded _ _ _ => exact .inr ⟨n', hn, rfl, rfl, .inl rfl⟩
  | @bridge c be b b' process' hb hnext hp =>
      cases he : be.process c with
      | none =>
          rw [he] at hp
          cases hp
          exact .inr ⟨n', hn, rfl, rfl, .inl rfl⟩
      | some pe =>
          rw [he] at hp
          rcases ProcessStep.call_inv hp hn with ⟨rfl, hcall⟩ | ⟨n, hn₀, hconn, hmethod, hmove⟩
          · obtain ⟨rfl, hbe⟩ := RackBridgeEvent.process_called he
            exact .inl ⟨be, rfl, hcall, hbe⟩
          · refine .inr ⟨n, hn₀, hconn, hmethod, .inl ?_⟩
            rcases hmove with hmove | ⟨ce, rfl, -⟩
            · exact hmove
            · cases be with
              | closeFrame handler _ => cases handler <;> cases he
              | _ => cases he

/-- A call stays; what it has given its thread it has given. -/
theorem ProcessStep.call {x x' : RubyProcess} {e : ProcessEvent} (h : ProcessStep serde x e x')
    (hn : x.host.calls p = some n) : ∃ n', x'.host.calls p = some n' ∧ n'.conn = n.conn ∧
      n'.method = n.method ∧ (n' = n ∨ n.outcome = none) := by
  have hhost := h.toHost
  cases he : e.toHost with
  | none =>
      rw [he] at hhost
      exact ⟨n, hhost ▸ hn, rfl, rfl, .inl rfl⟩
  | some e' =>
      rw [he] at hhost
      obtain ⟨n', hn', hm⟩ := hhost.callMove hn
      refine ⟨n', hn', ?_⟩
      cases hm with
      | own hnext =>
          obtain ⟨hconn, hmethod, -⟩ := NativeCall.next_inv hnext
          exact ⟨hconn, hmethod, .inr (NativeCall.outcome_of_next hnext)⟩
      | other _ => exact ⟨rfl, rfl, .inl rfl⟩

theorem RackStep.call {e : RackEvent} (h : RackStep serde a e a')
    (hn : a.process.host.calls p = some n) : ∃ n', a'.process.host.calls p = some n' ∧
      n'.conn = n.conn ∧ n'.method = n.method ∧ (n' = n ∨ n.outcome = none) := by
  have hp := h.toProcess
  cases he : e.toProcess with
  | none =>
      rw [he] at hp
      exact ⟨n, congrArg (fun x : RubyProcess => x.host.calls p) hp ▸ hn, rfl, rfl, .inl rfl⟩
  | some pe =>
      rw [he] at hp
      exact ProcessStep.call hp hn

/-! ### One bridge -/

namespace RackBridge

/-- The steps of a bridge. -/
inductive Next (x : RubyProcess) (b : RackBridge) : RackBridgeEvent → RackBridge → Prop where
  | push {starting : Bool} {p : CallId} {text : String} {rest : List DriverEvent}
      (hr : b.reader = .driver starting (.text text :: rest)) :
      Next x b (.push p text) { b with reader := .pushing starting p rest }
  | pushed {starting : Bool} {p : CallId} {rest : List DriverEvent} {value : NativeValue}
      (hr : b.reader = .pushing starting p rest) (ho : x.outcome p = some (.ok value)) :
      Next x b .pushed { b with reader := .driver starting rest }
  | pushRaised {starting : Bool} {p : CallId} {rest : List DriverEvent} {err : String}
      (hr : b.reader = .pushing starting p rest) (ho : x.outcome p = some (.error err)) :
      Next x b .pushed { b with reader := .closing (some (.native err)) }
  | refused {starting : Bool} {rest : List DriverEvent}
      (hr : b.reader = .driver starting (.binary :: rest)) :
      Next x b .refused { b with reader := .closing (some .notText) }
  | handled {starting : Bool} {d : DriverEvent} {rest : List DriverEvent} {e : RackBridgeEvent}
      (hr : b.reader = .driver starting (d :: rest)) (hd : d.payload = none)
      (he : e = .closeHandler ∨ e = .errorHandler ∨ e = .written none) :
      Next x b e { b with reader := .driver starting rest }
  | writeRaised {starting : Bool} {rest : List DriverEvent} {err : String}
      (hr : b.reader = .driver starting (.write :: rest)) :
      Next x b (.written (some err)) { b with reader := .closing (some (.socket err)) }
  | spawnCore (hr : b.reader = .driver true []) :
      Next x b .spawnCore { b with reader := .spawning, core := .spawned }
  | spawnWriter (hr : b.reader = .spawning) :
      Next x b .spawnWriter { b with reader := .reading, writer := .taking }
  | run {p : CallId} (hc : b.core = .spawned) : Next x b (.run p) { b with core := .running p }
  | read {events : List DriverEvent} (hr : b.reader = .reading) (ho : b.ioClosed = false) :
      Next x b (.read events) { b with reader := .driver false events }
  | parsed (hr : b.reader = .driver false []) : Next x b .parsed { b with reader := .reading }
  | readRaised {err : Option String} (hr : b.reader = .reading) :
      Next x b (.readRaised err) { b with reader := .closing (err.map .read) }
  | close {err : Option RackError} (hr : b.reader = .closing err) :
      Next x b .close { b with reader := .joiningCore err }
  | joinCore {err : Option RackError} (hr : b.reader = .joiningCore err)
      (hj : b.core.result x = some (.ok ())) :
      Next x b .joinCore { b with reader := .joiningWriter err }
  | coreRaised {err : Option RackError} {e : RackError} (hr : b.reader = .joiningCore err)
      (hj : b.core.result x = some (.error e)) :
      Next x b .joinCore { b with reader := .ended (some e) }
  | joinWriter {err : Option RackError} (hr : b.reader = .joiningWriter err)
      (hj : b.writer.result = some (.ok ())) :
      Next x b .joinWriter { b with reader := .closingIo err }
  | writerRaised {err : Option RackError} {e : RackError} (hr : b.reader = .joiningWriter err)
      (hj : b.writer.result = some (.error e)) :
      Next x b .joinWriter { b with reader := .ended (some e) }
  | closeIo {err : Option RackError} (hr : b.reader = .closingIo err) :
      Next x b (.closeIo none) { b with reader := .ended err, ioClosed := true }
  | closeIoRaised {err : Option RackError} {raised : String} (hr : b.reader = .closingIo err)
      (ho : b.ioClosed = false) :
      Next x b (.closeIo (some raised)) { b with reader := .ended (some (.socket raised)) }
  | next {p : CallId} (hw : b.writer = .taking) :
      Next x b (.next p) { b with writer := .waiting p }
  | taken {p : CallId} {msg : String} (hw : b.writer = .waiting p)
      (ho : x.outcome p = some (.ok (.message (some msg)))) :
      Next x b .taken { b with writer := .writing msg }
  | finished {p : CallId} {value : NativeValue} (hw : b.writer = .waiting p)
      (ho : x.outcome p = some (.ok value)) (hv : ∀ msg, value ≠ .message (some msg)) :
      Next x b .taken { b with writer := .closing }
  | takeRaised {p : CallId} {err : String} (hw : b.writer = .waiting p)
      (ho : x.outcome p = some (.error err)) :
      Next x b .taken { b with writer := .ended (.error (.native err)) }
  | handed {msg : String} (hw : b.writer = .writing msg) :
      Next x b (.handed msg none) { b with writer := .taking }
  | handRaised {msg err : String} (hw : b.writer = .writing msg) :
      Next x b (.handed msg (some err)) { b with writer := .ended (.error (.socket err)) }
  | closeFrame {handler : Bool} (hw : b.writer = .closing) :
      Next x b (.closeFrame handler none) { b with writer := .closingIo }
  | closeFrameRaised {handler : Bool} {err : String} (hw : b.writer = .closing) :
      Next x b (.closeFrame handler (some err)) { b with writer := .ended (.error (.socket err)) }
  | writerCloseIo (hw : b.writer = .closingIo) :
      Next x b (.writerCloseIo none) { b with writer := .ended (.ok ()), ioClosed := true }
  | writerCloseIoRaised {err : String} (hw : b.writer = .closingIo) :
      Next x b (.writerCloseIo (some err)) { b with writer := .ended (.error (.socket err)) }

theorem joined_inv {next : RackReader} {result : Option (Except RackError Unit)}
    (h : b.joined next result = some b') :
    (result = some (.ok ()) ∧ b' = { b with reader := next }) ∨
      ∃ e, result = some (.error e) ∧ b' = { b with reader := .ended (some e) } := by
  rcases result with - | e | u
  · cases h
  · cases h; exact .inr ⟨e, rfl, rfl⟩
  · cases h; exact .inl ⟨rfl, rfl⟩

theorem next_inv {x : RubyProcess} {e : RackBridgeEvent} (h : b.next x e = some b') :
    Next x b e b' := by
  cases e with
  | push p text =>
      simp only [RackBridge.next] at h
      split at h
      · rename_i hr
        obtain ⟨rfl, h'⟩ := Option.ite_none_right_eq_some.mp h
        cases h'
        exact .push hr
      · cases h
  | pushed =>
      simp only [RackBridge.next] at h
      split at h
      · rename_i hr
        split at h
        · rename_i ho; cases h; exact .pushed hr ho
        · rename_i ho; cases h; exact .pushRaised hr ho
        · cases h
      · cases h
  | refused =>
      simp only [RackBridge.next] at h
      split at h
      · rename_i hr; cases h; exact .refused hr
      · cases h
  | closeHandler =>
      simp only [RackBridge.next] at h
      split at h
      · rename_i hr; cases h; exact .handled hr rfl (.inl rfl)
      · cases h
  | errorHandler =>
      simp only [RackBridge.next] at h
      split at h
      · rename_i hr; cases h; exact .handled hr rfl (.inr (.inl rfl))
      · cases h
  | written raised =>
      simp only [RackBridge.next] at h
      split at h
      · rename_i hr
        cases raised with
        | none => cases h; exact .handled hr rfl (.inr (.inr rfl))
        | some err => cases h; exact .writeRaised hr
      · cases h
  | close =>
      simp only [RackBridge.next] at h
      split at h
      · rename_i hr; cases h; exact .close hr
      · cases h
  | joinCore =>
      simp only [RackBridge.next] at h
      split at h
      · rename_i hr
        rcases joined_inv h with ⟨hj, rfl⟩ | ⟨e, hj, rfl⟩
        · exact .joinCore hr hj
        · exact .coreRaised hr hj
      · cases h
  | joinWriter =>
      simp only [RackBridge.next] at h
      split at h
      · rename_i hr
        rcases joined_inv h with ⟨hj, rfl⟩ | ⟨e, hj, rfl⟩
        · exact .joinWriter hr hj
        · exact .writerRaised hr hj
      · cases h
  | closeIo raised =>
      simp only [RackBridge.next] at h
      split at h
      · rename_i hr
        cases raised with
        | none => cases h; exact .closeIo hr
        | some raised =>
            obtain ⟨ho, h⟩ := Option.ite_none_left_eq_some.mp h
            cases h
            exact .closeIoRaised hr (Bool.eq_false_iff.mpr ho)
      · cases h
  | taken =>
      simp only [RackBridge.next] at h
      split at h
      · rename_i hw
        split at h
        · rename_i ho; cases h; exact .taken hw ho
        · rename_i hv ho
          cases h
          exact .finished hw ho hv
        · rename_i ho; cases h; exact .takeRaised hw ho
        · cases h
      · cases h
  | spawnCore =>
      obtain ⟨hr, h⟩ := Option.ite_none_right_eq_some.mp h
      cases h
      exact .spawnCore hr
  | spawnWriter =>
      obtain ⟨hr, h⟩ := Option.ite_none_right_eq_some.mp h
      cases h
      exact .spawnWriter hr
  | run p =>
      obtain ⟨hc, h⟩ := Option.ite_none_right_eq_some.mp h
      cases h
      exact .run hc
  | read events =>
      obtain ⟨⟨hr, ho⟩, h⟩ := Option.ite_none_right_eq_some.mp h
      cases h
      exact .read hr ho
  | parsed =>
      obtain ⟨hr, h⟩ := Option.ite_none_right_eq_some.mp h
      cases h
      exact .parsed hr
  | readRaised err =>
      obtain ⟨hr, h⟩ := Option.ite_none_right_eq_some.mp h
      cases h
      exact .readRaised hr
  | next p =>
      obtain ⟨hw, h⟩ := Option.ite_none_right_eq_some.mp h
      cases h
      exact .next hw
  | handed msg raised =>
      obtain ⟨hw, h⟩ := Option.ite_none_right_eq_some.mp h
      cases raised with
      | none => cases h; exact .handed hw
      | some err => cases h; exact .handRaised hw
  | closeFrame handler raised =>
      obtain ⟨hw, h⟩ := Option.ite_none_right_eq_some.mp h
      cases raised with
      | none => cases h; exact .closeFrame hw
      | some err => cases h; exact .closeFrameRaised hw
  | writerCloseIo raised =>
      obtain ⟨hw, h⟩ := Option.ite_none_right_eq_some.mp h
      cases raised with
      | none => cases h; exact .writerCloseIo hw
      | some err => cases h; exact .writerCloseIoRaised hw

/-- What an event makes of the bridge of `c`. -/
inductive Move (a : Rack) (c : ConnId) (b : RackBridge) : RackEvent → RackBridge → Prop where
  | own {e : RackBridgeEvent} {b' : RackBridge} (hn : Next a.process b e b') :
      Move a c b (.bridge c e) b'
  | other {e : RackEvent} (he : ∀ be, e ≠ .bridge c be) : Move a c b e b

end RackBridge

/-- A bridge stays, and makes one move. -/
theorem RackStep.bridgeMove {e : RackEvent} (h : RackStep serde a e a')
    (hb : a.bridges c = some b) :
    ∃ b', a'.bridges c = some b' ∧ RackBridge.Move a c b e b' := by
  cases h with
  | process _ _ => exact ⟨b, hb, .other (by simp)⟩
  | @upgraded c' _ _ hno _ _ =>
      have hne : c ≠ c' := by
        rintro rfl
        rw [hno] at hb; cases hb
      exact ⟨b, (PartialMap.insert_other hne).trans hb, .other (by simp)⟩
  | @bridge c' be b₁ b' _ hb₁ hn _ =>
      by_cases hc : c' = c
      · subst hc
        cases hb₁.symm.trans hb
        exact ⟨b', PartialMap.insert_same .., .own (RackBridge.next_inv hn)⟩
      · exact ⟨b, (PartialMap.insert_other (Ne.symm hc)).trans hb, .other (by simp [hc])⟩

theorem RackStep.bridgeMove_inv {e : RackEvent} (h : RackStep serde a e a')
    (hb' : a'.bridges c = some b') :
    (a.bridges c = none ∧ ∃ events, e = .upgraded c events ∧ b' = .new events) ∨
      ∃ b, a.bridges c = some b ∧ RackBridge.Move a c b e b' := by
  cases hb : a.bridges c with
  | some b =>
      obtain ⟨b₁, hb₁, hm⟩ := h.bridgeMove hb
      cases hb₁.symm.trans hb'
      exact .inr ⟨b, rfl, hm⟩
  | none =>
      cases h with
      | process _ _ => rw [hb] at hb'; cases hb'
      | upgraded _ _ _ =>
          rcases PartialMap.insert_eq_some.mp hb' with ⟨rfl, rfl⟩ | ⟨-, hb'⟩
          · exact .inl ⟨rfl, _, rfl, rfl⟩
          · rw [hb] at hb'; cases hb'
      | bridge hb₁ _ _ =>
          rcases PartialMap.insert_eq_some.mp hb' with ⟨rfl, -⟩ | ⟨-, hb'⟩
          · rw [hb] at hb₁; cases hb₁
          · rw [hb] at hb'; cases hb'

/-- Which threads are there, by where `run` stands. -/
def RackBridge.Made (b : RackBridge) : Prop :=
  match b.reader with
  | .driver true _ | .pushing true _ _ => b.core = .absent ∧ b.writer = .absent
  | .spawning => b.core ≠ .absent ∧ b.writer = .absent
  | .driver false _ | .pushing false _ _ | .reading => b.core ≠ .absent ∧ b.writer ≠ .absent
  | _ => b.core = .absent ↔ b.writer = .absent

/-- A step of the third thread or of the writer. -/
theorem RackBridge.Made.congr (h : b.Made) (hr : b'.reader = b.reader)
    (hc : b'.core = .absent ↔ b.core = .absent) (hw : b'.writer = .absent ↔ b.writer = .absent) :
    b'.Made := by
  unfold RackBridge.Made at *
  rw [hr]
  simp only [ne_eq, hc, hw]
  exact h

theorem RackBridge.Next.made {x : RubyProcess} {e : RackBridgeEvent} (h : Next x b e b')
    (hm : b.Made) : b'.Made := by
  have hm' := hm
  unfold RackBridge.Made at hm'
  cases h with
  | run hc => exact hm.congr rfl (by simp [hc]) Iff.rfl
  | next hw | taken hw _ | finished hw _ _ | takeRaised hw _ | handed hw | handRaised hw
  | closeFrame hw | closeFrameRaised hw | writerCloseIo hw | writerCloseIoRaised hw =>
      exact hm.congr rfl Iff.rfl (by simp [hw])
  | spawnCore hr =>
      rw [hr] at hm'
      exact ⟨by simp, hm'.2⟩
  | spawnWriter hr =>
      rw [hr] at hm'
      exact ⟨hm'.1, by simp⟩
  | read hr _ | parsed hr | close hr | joinCore hr _ | coreRaised hr _ | joinWriter hr _
  | writerRaised hr _ | closeIo hr | closeIoRaised hr _ =>
      rw [hr] at hm'
      exact hm'
  | readRaised hr =>
      rw [hr] at hm'
      exact iff_of_false hm'.1 hm'.2
  | @push starting _ _ _ hr | @pushed starting _ _ _ hr _ | @handled starting _ _ _ hr _ _ =>
      rw [hr] at hm'
      cases starting <;> exact hm'
  | @pushRaised starting _ _ _ hr _ | @refused starting _ hr | @writeRaised starting _ _ hr =>
      rw [hr] at hm'
      cases starting
      · exact iff_of_false hm'.1 hm'.2
      · exact iff_of_true hm'.1 hm'.2

/-! ### The calls of a bridge -/

/-- The call `p` is one the bridge is in. -/
def RackBridge.Calls (b : RackBridge) (p : CallId) : NativeMethod → Prop
  | .pushMessage _ => ∃ starting rest, b.reader = .pushing starting p rest
  | .nextOutgoing => b.writer = .waiting p

/-- A bridge stays in a call that is not over. -/
theorem RackBridge.Next.calls {x : RubyProcess} {e : RackBridgeEvent} {method : NativeMethod}
    (h : Next x b e b') (hm : b.Made) (hc : b.Calls p method) (ho : x.outcome p = none) :
    b'.Calls p method := by
  cases method with
  | pushMessage text =>
      obtain ⟨starting, rest, hp⟩ := hc
      cases h with
      | pushed hr ho' | pushRaised hr ho' =>
          cases hp.symm.trans hr
          rw [ho] at ho'; cases ho'
      | push hr | refused hr | handled hr _ _ | spawnCore hr | spawnWriter hr | read hr _
      | parsed hr | readRaised hr | close hr | joinCore hr _ | coreRaised hr _ | joinWriter hr _
      | writerRaised hr _ | closeIo hr | closeIoRaised hr _ | writeRaised hr =>
          rw [hp] at hr; cases hr
      | _ => exact ⟨starting, rest, hp⟩
  | nextOutgoing =>
      replace hc : b.writer = .waiting p := hc
      cases h with
      | taken hw ho' | finished hw ho' _ | takeRaised hw ho' =>
          cases hc.symm.trans hw
          rw [ho] at ho'; cases ho'
      | next hw | handed hw | handRaised hw | closeFrame hw | closeFrameRaised hw
      | writerCloseIo hw | writerCloseIoRaised hw => rw [hc] at hw; cases hw
      | spawnWriter hr =>
          unfold RackBridge.Made at hm
          rw [hr] at hm
          rw [hm.2] at hc; cases hc
      | _ => exact hc

theorem ProcessStep.called_inv {x x' : RubyProcess} {method : NativeMethod}
    (h : ProcessStep serde x (.host (.called p c method)) x') :
    x'.host.calls p = some { conn := c, method, call := .new } := by
  cases h with
  | host _ hs =>
      cases hs with
      | called _ _ _ => exact PartialMap.insert_same ..

theorem ProcessStep.runCalled_inv {x x' : RubyProcess}
    (h : ProcessStep serde x (.runCalled p c) x') : x'.runs p = some (.new c) := by
  cases h with | runCalled _ _ _ => exact PartialMap.insert_same ..

/-- Who calls a native connection, and what a bridge is in. -/
structure Owned (a : Rack) : Prop where
  made : ∀ {c b}, a.bridges c = some b → b.Made
  call : ∀ {p n}, a.process.host.calls p = some n → ∃ b, a.bridges n.conn = some b ∧
    (n.outcome = none → b.Calls p n.method)
  run : ∀ {p r}, a.process.runs p = some r → ∃ b, a.bridges r.conn = some b ∧
    b.core = .running p
  pushing : ∀ {c b starting p rest}, a.bridges c = some b → b.reader = .pushing starting p rest →
    ∃ n text, a.process.host.calls p = some n ∧ n.conn = c ∧ n.method = .pushMessage text
  waiting : ∀ {c b p}, a.bridges c = some b → b.writer = .waiting p →
    ∃ n, a.process.host.calls p = some n ∧ n.conn = c ∧ n.method = .nextOutgoing
  running : ∀ {c b p}, a.bridges c = some b → b.core = .running p →
    ∃ r, a.process.runs p = some r ∧ r.conn = c

namespace Owned

theorem made_step {e : RackEvent} (h : Owned a) (hs : RackStep serde a e a')
    (hb' : a'.bridges c = some b') : b'.Made := by
  rcases hs.bridgeMove_inv hb' with ⟨-, events, -, rfl⟩ | ⟨b, hb, hm⟩
  · exact ⟨rfl, rfl⟩
  · cases hm with
    | own hn => exact hn.made (h.made hb)
    | other _ => exact h.made hb

theorem call_step {e : RackEvent} (h : Owned a) (hs : RackStep serde a e a')
    (hn' : a'.process.host.calls p = some n') : ∃ b', a'.bridges n'.conn = some b' ∧
      (n'.outcome = none → b'.Calls p n'.method) := by
  rcases hs.call_inv hn' with ⟨be, rfl, -, hbe⟩ | ⟨n, hn, hconn, hmethod, hmove⟩
  · cases hs with
    | bridge hb hnext _ =>
        refine ⟨_, PartialMap.insert_same .., fun _ => ?_⟩
        rcases hbe with ⟨text, rfl, hmethod⟩ | ⟨rfl, hmethod⟩
        · rw [hmethod]
          cases RackBridge.next_inv hnext with
          | push _ => exact ⟨_, _, rfl⟩
          | handled _ _ he => rcases he with he | he | he <;> cases he
        · rw [hmethod]
          cases RackBridge.next_inv hnext with
          | next _ => exact (rfl : _ = RackWriter.waiting p)
          | handled _ _ he => rcases he with he | he | he <;> cases he
  · obtain ⟨b, hb, hcalls⟩ := h.call hn
    obtain ⟨b', hb', hm⟩ := hs.bridgeMove hb
    refine ⟨b', hconn ▸ hb', fun hout => ?_⟩
    have hno : n.outcome = none := by
      rcases hmove with rfl | ⟨ce, -, hnext⟩
      · exact hout
      · exact NativeCall.outcome_of_next hnext
    rw [hmethod]
    cases hm with
    | own hnext =>
        have ho : a.process.outcome p = none := by
          rw [RubyProcess.outcome, hn]; exact hno
        exact hnext.calls (h.made hb) (hcalls hno) ho
    | other _ => exact hcalls hno

theorem run_step {e : RackEvent} (h : Owned a) (hs : RackStep serde a e a') {r' : RunCall}
    (hr' : a'.process.runs p = some r') : ∃ b', a'.bridges r'.conn = some b' ∧
      b'.core = .running p := by
  have old : ∀ {r}, a.process.runs p = some r → r'.conn = r.conn →
      ∃ b', a'.bridges r'.conn = some b' ∧ b'.core = .running p := by
    intro r hr hconn
    obtain ⟨b, hb, hcore⟩ := h.run hr
    obtain ⟨b', hb', hm⟩ := hs.bridgeMove hb
    refine ⟨b', hconn ▸ hb', ?_⟩
    cases hm with
    | other _ => exact hcore
    | own hn =>
        cases hn with
        | run hc => rw [hcore] at hc; cases hc
        | spawnCore hr₀ =>
            have hmade := h.made hb
            unfold RackBridge.Made at hmade
            rw [hr₀] at hmade
            rw [hmade.1] at hcore; cases hcore
        | _ => exact hcore
  have hp := hs.toProcess
  cases he : e.toProcess with
  | none =>
      rw [he] at hp
      exact old (congrArg (fun x : RubyProcess => x.runs p) hp ▸ hr') rfl
  | some pe =>
      rw [he] at hp
      rcases ProcessStep.runMove_inv hp hr' with ⟨c, rfl, rfl⟩ | ⟨r, hr, hm⟩
      · cases hs with
        | process hfree _ => cases he; cases hfree
        | upgraded _ _ _ => cases he
        | @bridge c' be b b' _ hb hn _ =>
            cases be with
            | run p' =>
                cases he
                refine ⟨_, PartialMap.insert_same .., ?_⟩
                cases RackBridge.next_inv hn with
                | run _ => rfl
                | handled _ _ he => rcases he with he | he | he <;> cases he
            | closeFrame handler _ => cases handler <;> cases he
            | _ => cases he
      · exact old hr hm.conn

/-- A call the bridge of `c` was in stays. -/
theorem call_stays {e : RackEvent} (hs : RackStep serde a e a') {method : NativeMethod}
    (hn : ∃ n, a.process.host.calls p = some n ∧ n.conn = c ∧ n.method = method) :
    ∃ n, a'.process.host.calls p = some n ∧ n.conn = c ∧ n.method = method := by
  obtain ⟨n, hn, hconn, hmethod⟩ := hn
  obtain ⟨n', hn', hconn', hmethod', -⟩ := hs.call hn
  exact ⟨n', hn', hconn'.trans hconn, hmethod'.trans hmethod⟩

theorem pushing_step {e : RackEvent} (h : Owned a) (hs : RackStep serde a e a') {starting : Bool}
    {rest : List DriverEvent} (hb' : a'.bridges c = some b')
    (hr' : b'.reader = .pushing starting p rest) :
    ∃ n text, a'.process.host.calls p = some n ∧ n.conn = c ∧ n.method = .pushMessage text := by
  have old : ∀ {b}, a.bridges c = some b → b.reader = .pushing starting p rest →
      ∃ n text, a'.process.host.calls p = some n ∧ n.conn = c ∧ n.method = .pushMessage text := by
    intro b hb hr
    obtain ⟨n, text, hn⟩ := h.pushing hb hr
    obtain ⟨n', hn'⟩ := call_stays hs ⟨n, hn⟩
    exact ⟨n', text, hn'⟩
  rcases hs.bridgeMove_inv hb' with ⟨-, events, -, rfl⟩ | ⟨b, hb, hm⟩
  · cases hr'
  · cases hm with
    | other _ => exact old hb hr'
    | own hn =>
        cases hn with
        | @push _ p' text _ _ =>
            cases hr'
            have hp : ProcessStep serde a.process _ a'.process := hs.toProcess
            exact ⟨_, text, ProcessStep.called_inv hp, rfl, rfl⟩
        | run _ | next _ | taken _ _ | finished _ _ _ | takeRaised _ _ | handed _ | handRaised _
        | closeFrame _ | closeFrameRaised _ | writerCloseIo _ | writerCloseIoRaised _ =>
            exact old hb hr'
        | _ => cases hr'

theorem waiting_step {e : RackEvent} (h : Owned a) (hs : RackStep serde a e a')
    (hb' : a'.bridges c = some b') (hw' : b'.writer = .waiting p) :
    ∃ n, a'.process.host.calls p = some n ∧ n.conn = c ∧ n.method = .nextOutgoing := by
  rcases hs.bridgeMove_inv hb' with ⟨-, events, -, rfl⟩ | ⟨b, hb, hm⟩
  · cases hw'
  · cases hm with
    | other _ => exact call_stays hs (h.waiting hb hw')
    | own hn =>
        cases hn with
        | next _ =>
            cases hw'
            have hp : ProcessStep serde a.process _ a'.process := hs.toProcess
            exact ⟨_, ProcessStep.called_inv hp, rfl, rfl⟩
        | spawnWriter _ | taken _ _ | finished _ _ _ | takeRaised _ _ | handed _ | handRaised _
        | closeFrame _ | closeFrameRaised _ | writerCloseIo _ | writerCloseIoRaised _ => cases hw'
        | _ => exact call_stays hs (h.waiting hb hw')

theorem running_step {e : RackEvent} (h : Owned a) (hs : RackStep serde a e a')
    (hb' : a'.bridges c = some b') (hc' : b'.core = .running p) :
    ∃ r, a'.process.runs p = some r ∧ r.conn = c := by
  have hp := hs.toProcess
  have old : ∀ {b}, a.bridges c = some b → b.core = .running p →
      ∃ r, a'.process.runs p = some r ∧ r.conn = c := by
    intro b hb hc
    obtain ⟨r, hr, hconn⟩ := h.running hb hc
    cases he : e.toProcess with
    | none =>
        rw [he] at hp
        exact ⟨r, congrArg (fun x : RubyProcess => x.runs p) hp ▸ hr, hconn⟩
    | some pe =>
        rw [he] at hp
        obtain ⟨r', hr', hm⟩ := ProcessStep.runMove hp hr
        exact ⟨r', hr', hm.conn.trans hconn⟩
  rcases hs.bridgeMove_inv hb' with ⟨-, events, -, rfl⟩ | ⟨b, hb, hm⟩
  · cases hc'
  · cases hm with
    | other _ => exact old hb hc'
    | own hn =>
        cases hn with
        | run _ =>
            cases hc'
            exact ⟨_, ProcessStep.runCalled_inv hp, rfl⟩
        | spawnCore _ => cases hc'
        | _ => exact old hb hc'

end Owned

theorem owned_of_run (h : RackRun serde config tr a) : Owned a := by
  refine h.preserves (fun h hs => ?_) ?_
  · exact
      { made := h.made_step hs
        call := h.call_step hs
        run := h.run_step hs
        pushing := h.pushing_step hs
        waiting := h.waiting_step hs
        running := h.running_step hs }
  · exact
      { made := fun hb => by cases hb
        call := fun hn => by cases hn
        run := fun hr => by cases hr
        pushing := fun hb => by cases hb
        waiting := fun hb => by cases hb
        running := fun hb => by cases hb }

/-- **Invariants of one bridge and its history.** -/
theorem rack_invariant (P : List RackEvent → Rack → RackBridge → Prop)
    (hnew : ∀ {tr a events a'}, RackRun serde config tr a → a.bridges c = none →
      RackStep serde a (.upgraded c events) a' →
      P (tr ++ [RackEvent.upgraded c events]) a' (.new events))
    (hmove : ∀ {tr a b e a' b'}, RackRun serde config tr a → a.bridges c = some b → P tr a b →
      RackStep serde a e a' → RackBridge.Move a c b e b' → P (tr ++ [e]) a' b')
    (h : RackRun serde config tr a) (hb : a.bridges c = some b) : P tr a b := by
  refine h.invariant (fun tr a => ∀ b, a.bridges c = some b → P tr a b) (fun b hb => by cases hb)
    (fun {tr a e a'} hr ih hs b' hb' => ?_) b hb
  rcases hs.bridgeMove_inv hb' with ⟨hno, events, rfl, rfl⟩ | ⟨b, hb, hm⟩
  · exact hnew hr hno hs
  · exact hmove hr hb (ih b hb) hs hm

end Outpunch
