import Outpunch.Server.Exec
import Outpunch.Server.History

/-!
# Server — entries without a dispatch

An answer, an error and a cleanup remove the entry of the dispatch they end; a dispatch whose
future is dropped runs none of its code any more, and its entry stays (`pending_leaks`).  As long
as no dispatch is dropped while its entry is parked, every entry is of a dispatch that is still
running (`no_leak`).
-/

namespace Outpunch

variable {serde : SerdeJson} {config : ServerConfig} {tr : List Event} {w : World}

/-- Every entry belongs to a dispatch that is still running. -/
def World.NoLeak (w : World) : Prop :=
  ∀ q p, w.state.pending q = some p → ∃ d, w.dispatches q = some d ∧ d.phase.running

/-- A dispatch is dropped only while no entry of it is parked: before it looked its service up, or
after a response or a cleanup took the entry. -/
def DropsUnparked (w : World) (e : Event) : Prop := ∀ q, e = .cancel q → w.state.pending q = none

/-- A dropped dispatch leaves no entry behind, where it had none when it was dropped. -/
theorem pending_of_dropped (h : Lts.Run (Lts.guarded (Step serde) DropsUnparked)
      (World.new config) tr w) {q : RequestId} {d : Dispatch} (hd : w.dispatches q = some d)
    (hp : d.phase = .cancelled) : w.state.pending q = none := by
  refine h.invariant (fun _ w => ∀ d, w.dispatches q = some d → d.phase = .cancelled →
    w.state.pending q = none) (fun d hd => by cases hd) (fun hr ih hs d' hd' hp' => ?_) d hd hp
  have hw := wf_of_run hr.of_guarded
  obtain ⟨hs, hok⟩ := hs
  rcases hs.dispatch_move_inv hd' with ⟨-, incoming, -, rfl⟩ | ⟨d, hd, hm⟩
  · cases hp'
  · have stay : d.phase = .cancelled → _ := fun hp =>
      hs.pending_none hw hd (by rw [hp]; simp) (ih d hd hp)
    cases hm with
    | notConnected _ _ | assign _ _ | send _ | fail _ | answered _ _ | failed _ => cases hp'
    | cancel _ =>
        rw [hs.pending hw]
        exact hok q rfl
    | respond _ =>
        refine stay ?_
        revert hp'
        unfold Dispatch.answer
        split <;> exact id
    | other _ => exact stay hp'

/-- A drop leaves no leak behind exactly when the entry was not parked. -/
theorem Step.cancel_noLeak_iff {w' : World} {q : RequestId} (hs : Step serde w (.cancel q) w')
    (hw : w.Wf) (h : w.NoLeak) : w'.NoLeak ↔ w.state.pending q = none := by
  have hpend : w'.state.pending = w.state.pending := hs.pending hw
  constructor
  · intro h'
    refine Option.eq_none_iff_forall_ne_some.mpr fun p hp => ?_
    obtain ⟨d, hd, hrun⟩ := h' q p (hpend ▸ hp)
    cases hs with
    | cancel _ _ =>
        cases World.setDispatch_dispatches_same.symm.trans hd
        cases hrun
  · intro hq q' p hp
    rw [hpend] at hp
    obtain ⟨d, hd, hrun⟩ := h q' p hp
    have hne : q' ≠ q := by
      rintro rfl
      rw [hq] at hp; cases hp
    cases hs with
    | cancel _ _ => exact ⟨d, (World.setDispatch_dispatches_other hne).trans hd, hrun⟩

/-- **No entry is left behind** in a run that drops dispatches only while they are not parked; and
the next drop leaves one exactly when it is of a parked dispatch. -/
theorem no_leak (h : Lts.Run (Lts.guarded (Step serde) DropsUnparked) (World.new config) tr w) :
    w.NoLeak ∧ ∀ q w', Step serde w (.cancel q) w' → (w'.NoLeak ↔ w.state.pending q = none) := by
  have hw := wf_of_run h.of_guarded
  have hno : w.NoLeak := by
    intro q p hp
    obtain ⟨-, d, hd, -, hph, -⟩ := hw.pending hp
    refine ⟨d, hd, ?_⟩
    rcases hph with hph | hph
    · cases hphase : d.phase with
      | sending _ | waiting _ | failed _ _ => rfl
      | locking | returned _ | cancelled => rw [hphase] at hph; cases hph
    · rw [pending_of_dropped h hd hph] at hp; cases hp
  exact ⟨hno, fun q w' hs => hs.cancel_noLeak_iff hw hno⟩

instance : DecidableRel DropsUnparked
  | w, .cancel q =>
      decidable_of_iff (w.state.pending q = none)
        ⟨fun h _ hq => by cases hq; exact h, fun h => h q rfl⟩
  | _, .create _ | _, .conn _ _ | _, .register _ _ | _, .closeReplaced _ _ | _, .respond _ _ _ _
  | _, .cleanup _ _ | _, .drainEnd _ | _, .runReturned _ | _, .request _ _ | _, .assign _ _ _
  | _, .send _ _ _ | _, .fail _ _ | _, .ret _ _ => isTrue fun _ hq => nomatch hq

/-- One dispatch is dropped before it looked its service up, a second one after its response took
its entry, and a third one waits for its answer. -/
def droppingUnparked : List Event :=
  registration compactJson demoConfig 1 "app" ++ [.request "a" demoRequest, .cancel "a"] ++
    dispatching compactJson 1 "b" demoRequest ++
    (answering compactJson 1 1 (demoResponse "b")).dropLast ++ [.cancel "b"] ++
    dispatching compactJson 1 "c" demoRequest

/-- Two dispatches have been dropped, and the one entry is of a request that still waits. -/
theorem no_leak_dropping : ∃ w, ServerRun compactJson demoConfig droppingUnparked w ∧ w.NoLeak ∧
    (w.state.pending "c").isSome := by
  have sound : ∀ {w e w'}, Lts.guardedExec (World.exec compactJson) DropsUnparked w e = some w' →
      Lts.guarded (Step compactJson) DropsUnparked w e w' :=
    Lts.guardedExec_sound World.exec_sound
  have run : (Lts.execAll (Lts.guardedExec (World.exec compactJson) DropsUnparked)
      (World.new demoConfig) droppingUnparked).any fun w => (w.state.pending "c").isSome := by
    decide +kernel
  obtain ⟨w, h, hc⟩ := Lts.exists_run_of_execAll sound _ run
  exact ⟨w, h.of_guarded, (no_leak h).1, hc⟩

/-- **A dropped dispatch leaks its entry**: here it waits for an answer when it is dropped. -/
theorem pending_leaks : ∃ tr w, ServerRun compactJson demoConfig tr w ∧ ¬ w.NoLeak := by
  obtain ⟨w, h, hleak⟩ := @exists_run_to compactJson demoConfig
    (registration compactJson demoConfig 1 "app" ++ dispatching compactJson 1 "q" demoRequest ++
      [.cancel "q"])
    (fun w => (w.state.pending "q").isSome && !(w.dispatches "q").any (·.phase.running))
    (by decide +kernel)
  refine ⟨_, w, h, fun hno => ?_⟩
  obtain ⟨hpend, hdead⟩ := (Bool.and_eq_true _ _).mp hleak
  obtain ⟨p, hp⟩ := Option.isSome_iff_exists.mp hpend
  obtain ⟨d, hd, hrun⟩ := hno "q" p hp
  simp [hd, hrun] at hdead

end Outpunch
