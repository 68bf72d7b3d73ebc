import Outpunch.Axum.Delivery
import Outpunch.Tunnel.System

/-!
# Tunnel — what passes a WebSocket

Each direction of a WebSocket is a queue: what was put in is what was taken out and what it holds
(`linkOk_of_run`).  What is put in towards a client is what the server's write task passes to the
socket; what is taken out towards the server is what the read task pushes.
-/

namespace Outpunch

variable {serde : SerdeJson} {encode : List UInt8 → String} {config : ServerConfig}
  {tr : List TunnelEvent} {t t' : Tunnel} {c : ConnId}

/-! ### Records of a WebSocket -/

namespace LinkEvent

def putsDown : LinkEvent → Option String
  | .putDown text => some text
  | _ => none

def takesDown : LinkEvent → Option String
  | .takeDown text => some text
  | _ => none

def putsUp : LinkEvent → Option String
  | .putUp text => some text
  | _ => none

def takesUp : LinkEvent → Option String
  | .takeUp text => some text
  | _ => none

end LinkEvent

/-- What an event does to a WebSocket. -/
def TunnelEvent.onLink (serde : SerdeJson) : TunnelEvent → Option (ConnId × LinkEvent)
  | .accept _ _ => none
  | .axum e => e.onLink
  | .client c e => (e.onLink serde).map fun le => (c, le)
  | .foreign c text => some (c, .putUp text)

section

variable (serde : SerdeJson) (pick : LinkEvent → Option String) (c : ConnId)

/-- What `pick` sees of an event on the WebSocket of `c`. -/
def TunnelEvent.linkText (e : TunnelEvent) : Option String :=
  (e.onLink serde).bind fun p => if p.1 = c then pick p.2 else none

abbrev linkTexts (tr : List TunnelEvent) : List String :=
  Lts.record (TunnelEvent.linkText serde pick c) tr

end

variable {pick : LinkEvent → Option String}

theorem TunnelEvent.linkText_of_onLink {e : TunnelEvent} {le : LinkEvent}
    (h : e.onLink serde = some (c, le)) : e.linkText serde pick c = pick le := by
  rw [linkText, h, Option.bind_some]
  exact if_pos rfl

theorem TunnelEvent.linkText_of_ne {e : TunnelEvent}
    (h : ∀ le, e.onLink serde ≠ some (c, le)) : e.linkText serde pick c = none := by
  rw [linkText]
  cases he : e.onLink serde with
  | none => rfl
  | some p =>
      refine if_neg fun hc => ?_
      obtain ⟨c', le⟩ := p
      cases hc
      exact h le he

theorem AxumEvent.sinks_eq (e : AxumEvent) :
    (e.onLink.bind fun p => if p.1 = c then p.2.putsDown else none) = e.sinks c := by
  cases e with
  | server e =>
      cases e with
      | conn c' ce => cases ce <;> first | rfl | exact ite_self _
      | _ => rfl
  | bridge c' be => cases be <;> rfl

/-- What the socket of `c` was given is what was put on its way down. -/
theorem linkTexts_putsDown :
    linkTexts serde LinkEvent.putsDown c tr = sunk c (axumEvents tr) := by
  rw [linkTexts, sunk, axumEvents, Lts.record, Lts.record, Lts.record, List.filterMap_filterMap]
  congr 1
  funext e
  cases e with
  | accept c' client => rfl
  | axum e => exact e.sinks_eq
  | client c' e =>
      cases e with
      | authSend _ | respond _ => exact ite_self _
      | authRecv item | recv item =>
          rcases item with _ | _ | _ | _ | _ <;> first | rfl | exact ite_self _
      | _ => rfl
  | foreign c' text => exact ite_self _

/-! ### Its queues -/

/-- A WebSocket after an event on it. -/
theorem Tunnel.linked_eq_some {p : Option (ConnId × LinkEvent)} {links' : PartialMap ConnId Link}
    (h : t.linked p = some links') :
    (p = none ∧ links' = t.links) ∨ ∃ c le l l', p = some (c, le) ∧ t.links c = some l ∧
      l.next le = some l' ∧ links' = t.links.insert c l' := by
  cases p with
  | none => exact .inl ⟨rfl, (Option.some.inj h).symm⟩
  | some p =>
      obtain ⟨c, le⟩ := p
      obtain ⟨l, hl, h⟩ := Option.bind_eq_some_iff.mp h
      obtain ⟨l', hn, h⟩ := Option.bind_eq_some_iff.mp h
      cases h
      exact .inr ⟨c, le, l, l', rfl, hl, hn, rfl⟩

/-- A step makes a WebSocket, or is an event on one, if on any. -/
theorem TunnelStep.links {e : TunnelEvent} (h : TunnelStep serde encode t e t') :
    (∃ c client, e = .accept c client ∧ t'.links = t.links.insert c .new) ∨
      t.linked (e.onLink serde) = some t'.links := by
  cases h with
  | accept _ => exact .inl ⟨_, _, rfl, rfl⟩
  | axum _ _ hl => exact .inr hl
  | client _ _ hl => exact .inr hl
  | foreign _ hl => exact .inr hl

/-- The connection of a peer that connects is new. -/
theorem TunnelStep.accept_inv {client : Option ClientConfig}
    (h : TunnelStep serde encode t (.accept c client) t') (hw : t.axum.server.Wf) :
    t.axum.server.conns c = none ∧ t'.axum.server.conns c ≠ none := by
  cases h with
  | accept hs =>
      cases hs with
      | create hs =>
          cases hs with
          | create => exact ⟨hw.fresh _ (Nat.le_refl _), by simp⟩
      | server he _ => cases he

/-- A connection stays. -/
theorem TunnelStep.conns_mono {e : TunnelEvent} (h : TunnelStep serde encode t e t')
    (hw : t.axum.server.Wf) (hc : t.axum.server.conns c ≠ none) :
    t'.axum.server.conns c ≠ none := by
  obtain ⟨k, hk⟩ := Option.ne_none_iff_exists'.mp hc
  have axum : ∀ {e a'}, AxumStep serde t.axum e a' → a'.server.conns c ≠ none := by
    intro _ _ hs
    rcases hs.toServer with ⟨e', -, hs⟩ | ⟨-, heq⟩
    · obtain ⟨k', hk', -⟩ := hs.move hw.fresh hw.closesOthers hk
      simp [hk']
    · rwa [heq]
  cases h with
  | accept hs => exact axum hs
  | axum _ hs _ => exact axum hs
  | client _ _ _ => exact hc
  | foreign _ _ => exact hc

/-- The two queues of a WebSocket. -/
def LinkOk (serde : SerdeJson) (c : ConnId) (tr : List TunnelEvent) (l : Link) : Prop :=
  linkTexts serde LinkEvent.putsDown c tr = linkTexts serde LinkEvent.takesDown c tr ++ l.down ∧
    linkTexts serde LinkEvent.putsUp c tr = linkTexts serde LinkEvent.takesUp c tr ++ l.up

theorem LinkOk.next {l l' : Link} {le : LinkEvent} {e : TunnelEvent}
    (h : LinkOk serde c tr l) (hn : l.next le = some l') (he : e.onLink serde = some (c, le)) :
    LinkOk serde c (tr ++ [e]) l' := by
  obtain ⟨hd, hu⟩ := h
  have text : ∀ pick, linkTexts serde pick c (tr ++ [e]) =
      linkTexts serde pick c tr ++ (pick le).toList := by
    intro pick
    rw [linkTexts, Lts.record_snoc, TunnelEvent.linkText_of_onLink he]
  rw [LinkOk, text, text, text, text]
  cases le with
  | putDown s | putUp s =>
      cases hn
      simp [LinkEvent.putsDown, LinkEvent.takesDown, LinkEvent.putsUp, LinkEvent.takesUp, hd, hu]
  | takeDown s | takeUp s =>
      simp only [Link.next] at hn
      split at hn
      · rename_i hq
        obtain ⟨rfl, hn'⟩ := Option.ite_none_right_eq_some.mp hn
        cases hn'
        simp [LinkEvent.putsDown, LinkEvent.takesDown, LinkEvent.putsUp, LinkEvent.takesUp, hd, hu,
          hq]
      · cases hn

/-- An event on another link. -/
theorem LinkOk.quiet {e : TunnelEvent} {l : Link} (he : ∀ le, e.onLink serde ≠ some (c, le))
    (h : LinkOk serde c tr l) : LinkOk serde c (tr ++ [e]) l := by
  have text : ∀ pick, linkTexts serde pick c (tr ++ [e]) = linkTexts serde pick c tr :=
    fun pick => Lts.record_snoc_of_none (TunnelEvent.linkText_of_ne he)
  rwa [LinkOk, text, text, text, text]

/-- **A WebSocket is two queues**, and there is one only for a connection that is there. -/
theorem linkOk_of_run (h : TunnelRun serde encode config tr t) (c : ConnId) :
    (t.links c = none ∧ ∀ e ∈ tr, ∀ le, e.onLink serde ≠ some (c, le)) ∨
      t.axum.server.conns c ≠ none ∧ ∃ l, t.links c = some l ∧ LinkOk serde c tr l := by
  refine h.invariant (fun tr t => (t.links c = none ∧ ∀ e ∈ tr, ∀ le,
    e.onLink serde ≠ some (c, le)) ∨
      t.axum.server.conns c ≠ none ∧ ∃ l, t.links c = some l ∧ LinkOk serde c tr l)
    (.inl ⟨rfl, by simp⟩) fun {tr t e t'} hr ih hs => ?_
  have hw := wf_of_run (serverRun (axumRun hr))
  have absent : ∀ {e' : TunnelEvent}, (∀ le, e'.onLink serde ≠ some (c, le)) →
      (∀ e ∈ tr, ∀ le, e.onLink serde ≠ some (c, le)) →
      ∀ e ∈ tr ++ [e'], ∀ le, e.onLink serde ≠ some (c, le) := by
    intro _ he hno e hmem
    rcases List.mem_append.mp hmem with hmem | hmem
    · exact hno e hmem
    · exact List.mem_singleton.mp hmem ▸ he
  -- an event that leaves the link of `c` as it is
  have other : (∀ le, e.onLink serde ≠ some (c, le)) → t'.links c = t.links c →
      (t'.links c = none ∧ ∀ e' ∈ tr ++ [e], ∀ le, e'.onLink serde ≠ some (c, le)) ∨
        t'.axum.server.conns c ≠ none ∧
          ∃ l, t'.links c = some l ∧ LinkOk serde c (tr ++ [e]) l := by
    intro he hl
    rw [hl]
    rcases ih with ⟨hno, hno'⟩ | ⟨hcon, l, hlink, hok⟩
    · exact .inl ⟨hno, absent he hno'⟩
    · exact .inr ⟨hs.conns_mono hw hcon, l, hlink, hok.quiet he⟩
  rcases hs.links with ⟨c', client, rfl, hl⟩ | hl
  · by_cases hc : c' = c
    · subst hc
      obtain ⟨hfresh, hthere⟩ := hs.accept_inv hw
      rcases ih with ⟨-, hno⟩ | ⟨hcon, -⟩
      · have hnil : ∀ pick, linkTexts serde pick c' (tr ++ [.accept c' client]) = [] := fun pick =>
          Lts.record_eq_nil.mpr fun e he =>
            TunnelEvent.linkText_of_ne (absent (by simp [TunnelEvent.onLink]) hno e he)
        refine .inr ⟨hthere, .new, by rw [hl]; exact PartialMap.insert_same .., ?_⟩
        rw [LinkOk, hnil, hnil, hnil, hnil]
        exact ⟨rfl, rfl⟩
      · exact absurd hfresh hcon
    · exact other (by simp [TunnelEvent.onLink]) (by rw [hl, PartialMap.insert_other (Ne.symm hc)])
  · rcases Tunnel.linked_eq_some hl with ⟨he, hl⟩ | ⟨c', le, l₁, l₂, he, hl₁, hn, hl⟩
    · exact other (by simp [he]) (by rw [hl])
    · by_cases hc : c' = c
      · subst hc
        rcases ih with ⟨hno, -⟩ | ⟨hcon, l, hlink, hok⟩
        · rw [hno] at hl₁; cases hl₁
        · cases hl₁.symm.trans hlink
          exact .inr ⟨hs.conns_mono hw hcon, l₂, by rw [hl]; exact PartialMap.insert_same ..,
            hok.next hn he⟩
      · exact other (by simp [he, hc]) (by rw [hl, PartialMap.insert_other (Ne.symm hc)])

/-- The client of `c` took a prefix of what the socket was given. -/
theorem takesDown_isPrefix (h : TunnelRun serde encode config tr t) (c : ConnId) :
    (linkTexts serde LinkEvent.takesDown c tr).IsPrefix (sunk c (axumEvents tr)) := by
  rcases linkOk_of_run h c with ⟨-, hno⟩ | ⟨-, l, -, hd, -⟩
  · rw [show linkTexts serde LinkEvent.takesDown c tr = [] from
      Lts.record_eq_nil.mpr fun e he => TunnelEvent.linkText_of_ne (hno e he)]
    exact List.nil_prefix
  · have hsunk : linkTexts serde LinkEvent.putsDown c tr = sunk c (axumEvents tr) :=
      linkTexts_putsDown
    rw [← hsunk, hd]
    exact List.prefix_append ..

/-- What the server took from the WebSocket of `c` was sent up. -/
theorem putsUp_of_takesUp (h : TunnelRun serde encode config tr t) {text : String}
    (ht : text ∈ linkTexts serde LinkEvent.takesUp c tr) :
    text ∈ linkTexts serde LinkEvent.putsUp c tr := by
  rcases linkOk_of_run h c with ⟨-, hno⟩ | ⟨-, l, -, -, hu⟩
  · rw [show linkTexts serde LinkEvent.takesUp c tr = [] from
      Lts.record_eq_nil.mpr fun e he => TunnelEvent.linkText_of_ne (hno e he)] at ht
    cases ht
  · rw [hu]
    exact List.mem_append_left _ ht

end Outpunch
