/-
What the first event of a session chains to.

A session's first event should have the hand-off that activated it as `prev`,
or no `prev` when none did.  The rule is made of two parts: the writer chain
asks for the author's head, which any event of the same key moves, and
`firstLink` asks for the hand-off only while the author has no head.  So a
session event chains to the last event of its key, of whatever class, and to
the activating hand-off only if there is none.

* `Replays.activation` — the hand-off that activated a session, in the log;
* `session_prev` — what a session event must chain to;
* `first_link_iff` — when the first event of a session has the right `prev`.
-/
import AgentMesh.Agreement

open Std Mesh

namespace Flock

variable {P : Primitives} {g : MerkleNode Genesis}

/-! ### Activation -/

/-- The entry is a hand-off to session `a`. -/
def Sealed.activates (a : String) (x : Sealed) : Bool :=
  match x.event.payload.body with
  | .handoff _ to_ _ _ _ _ => decide (to_ = a)
  | _ => false

/-- The hand-off that activated session `a`, if any, as the log has it. -/
def activation (P : Primitives) (a : String) (log : List Sealed) : Option ContentId :=
  lastEvent P (Sealed.activates a) log

theorem activation_snoc_of_not {a : String} {log : List Sealed} {x : Sealed}
    (h : x.activates a = false) : activation P a (log ++ [x]) = activation P a log := by
  rw [activation, lastEvent_snoc, h]
  rfl

/-- The table knows the hand-off that activated each session. -/
theorem Replays.activation {log : List Sealed} {st : State} (h : Replays P g log st)
    (a : String) : (st.sessions.sessions[a]?.bind (·.activatedBy)) = activation P a log := by
  refine replays_invariant (fun log st => ∀ a : String,
    (st.sessions.sessions[a]?.bind (·.activatedBy)) = Flock.activation P a log) ?_ ?_ h a
  · intro user _ a
    simp [State.genesis, Sessions.empty, Flock.activation, lastEvent]
  · intro log st x cert signer conflict _ hinv hacc a
    have hinv' := hinv a
    have hsession := hacc.tableStep.session a
    generalize (st.after P x signer conflict).sessions.sessions[a]? = after at hsession
    generalize st.sessions.sessions[a]? = before at hsession hinv'
    cases hsession with
    | same away =>
      have hnot : x.activates a = false := by
        rw [Sealed.activates]
        split
        · rename_i from_ to_ resume context approval sig hbody
          refine decide_eq_false fun hto => ?_
          subst hto
          exact away from_ resume context approval sig hbody
        · rfl
      rw [activation_snoc_of_not hnot]
      exact hinv'
    | started _ _ body | ended _ _ body | renewed _ _ body =>
      rw [activation_snoc_of_not (by rw [Sealed.activates, body])]
      exact hinv'
    | handedOff _ to_ _ _ _ _ body away =>
      rw [activation_snoc_of_not (by rw [Sealed.activates, body]; exact decide_eq_false away)]
      exact hinv'
    | activated _ _ _ _ _ _ body =>
      have hactivates : x.activates a = true := by
        rw [Sealed.activates, body]
        exact decide_eq_true rfl
      rw [Flock.activation, lastEvent_snoc, if_pos hactivates]
      rfl

/-! ### The two halves of the rule -/

/-- While a session has no head, its event chains to the activating hand-off. -/
theorem firstLink_ok {s : Sessions} {b : Board} {ev : Event} {x : Session}
    (hx : s.sessions[ev.author]? = some x) (hhead : b.headOf ev.author = none)
    (h : s.firstLink b ev = .ok ()) : ev.prev = x.activatedBy := by
  rw [Sessions.firstLink, hx] at h
  simp only [hhead, Option.isSome_none, Bool.false_eq_true, if_false] at h
  split at h
  · rename_i hact
    rw [ensure_ok.mp h, hact]
  · cases h
  · rename_i hact hprev
    rw [hact, hprev]

/-- **What a session event chains to**: the last event of its key, or else the
hand-off that activated it. -/
theorem State.Accepts.session_prev {log : List Sealed} {st : State} (hlog : Replays P g log st)
    {x : Sealed} {cert : CertChain} {signer : Signer} {conflict : Option ConflictKind}
    (h : st.Accepts P x cert signer conflict) {member : String} {pending : Bool}
    (hclass : signer.class_ = .session member pending) :
    x.event.payload.prev =
      (lastBy P x.event.payload.author log).or (activation P x.event.payload.author log) := by
  obtain ⟨s, hs⟩ := h.sessionSigned hclass
  have hact := hlog.activation x.event.payload.author
  rw [hs.known, Option.bind_some] at hact
  rw [← hlog.headOf]
  cases hhead : st.board.headOf x.event.payload.author with
  | none => rw [firstLink_ok hs.known hhead h.vetted.linked, hact, Option.none_or]
  | some p =>
    rcases writerChain_session hclass h.vetted.admissible.writer with hprev | ⟨hnone, -⟩
    · rw [hprev, hhead, Option.some_or]
    · rw [hhead] at hnone
      cases hnone

/-! ### The first event of a session -/

/-- After `log`, entry `x` has signer class session. -/
def SessionEvent (P : Primitives) (g : MerkleNode Genesis) (log : List Sealed) (x : Sealed) :
    Prop :=
  ((signerOf P g log x).bind (·.class_.member)).isSome

instance (log : List Sealed) (x : Sealed) : Decidable (SessionEvent P g log x) :=
  inferInstanceAs (Decidable (_ = true))

/-- `x`, after `log`, is the first session-class event of its author. -/
def FirstOfSession (P : Primitives) (g : MerkleNode Genesis) (log : List Sealed) (x : Sealed) :
    Prop :=
  SessionEvent P g log x ∧ ∀ i < log.length, ∀ y ∈ log[i]?,
    y.event.payload.author = x.event.payload.author → ¬SessionEvent P g (log.take i) y

instance (log : List Sealed) (x : Sealed) : Decidable (FirstOfSession P g log x) :=
  inferInstanceAs (Decidable (_ ∧ _))

/-- **When the first event of a session has the right `prev`.**  It has the
activating hand-off, or no `prev` when there is none, exactly when no earlier
event of any class was signed by the session's key, or the last such event is
that hand-off itself. -/
theorem first_link_iff {frames : List (List Sealed)} {f : Follower}
    (h : Follower.Reaches P g frames f) {pre post : List Sealed} {x : Sealed}
    (hlog : frames.flatten = pre ++ x :: post) (hx : FirstOfSession P g pre x) :
    x.event.payload.prev = activation P x.event.payload.author pre ↔
      lastBy P x.event.payload.author pre = none ∨
        lastBy P x.event.payload.author pre = activation P x.event.payload.author pre := by
  have hrep := h.replays
  rw [hlog] at hrep
  obtain ⟨st, cert, signer, conflict, hpre, hacc, -⟩ := hrep.split
  obtain ⟨member, pending, hclass⟩ : ∃ member pending, signer.class_ = .session member pending := by
    have hsession := hx.1
    rw [SessionEvent, hacc.signerOf hpre] at hsession
    cases hc : signer.class_ with
    | session member pending => exact ⟨member, pending, rfl⟩
    | server | operator => simp [hc, SignerClass.member] at hsession
  rw [hacc.session_prev hpre hclass]
  cases lastBy P x.event.payload.author pre with
  | none => simp
  | some p => simp

set_option maxRecDepth 100000 in
/-- The second session of the small flock first speaks after its hand-off. -/
theorem first_link_iff_handover :
    ∃ f pre, Follower.Reaches Small.P Small.genesis Small.handover f ∧
      Small.handover.flatten = pre ++ [Small.spokenNext] ∧
      FirstOfSession Small.P Small.genesis pre Small.spokenNext ∧
      Small.spokenNext.event.payload.prev = activation Small.P "kkk" pre := by
  obtain ⟨f, hf, -⟩ := Small.handover_reached
  have hlog : Small.handover.flatten = Small.handover.flatten.take 8 ++ [Small.spokenNext] := rfl
  have hfirst : FirstOfSession Small.P Small.genesis (Small.handover.flatten.take 8)
      Small.spokenNext := by
    decide +kernel
  refine ⟨f, _, hf, hlog, hfirst, (first_link_iff hf hlog hfirst).mpr (.inl ?_)⟩
  decide +kernel

set_option maxRecDepth 100000 in
/-- **A first event with the wrong `prev`.**  Key 2 is a listed device and a
session that no hand-off activated.  It answers as the device, so its first
event as the session is accepted only with the answer as `prev`. -/
theorem first_link_skipped :
    ∃ f pre, Follower.Reaches Small.P Small.genesis Small.twoClasses f ∧
      Small.twoClasses.flatten = pre ++ [Small.spokenAfter] ∧
      FirstOfSession Small.P Small.genesis pre Small.spokenAfter ∧
      Small.spokenAfter.event.payload.prev ≠
        activation Small.P Small.spokenAfter.event.payload.author pre := by
  obtain ⟨f, hf, -⟩ : ∃ f, Follower.Reaches Small.P Small.genesis Small.twoClasses f ∧ True := by
    decide +kernel
  have hfirst : FirstOfSession Small.P Small.genesis (Small.twoClasses.flatten.take 7)
      Small.spokenAfter := by
    decide +kernel
  exact ⟨f, _, hf, rfl, hfirst, by decide +kernel⟩

end Flock
