/-
Authority never shrinks without an epoch bump.

A session loses its place among the eligible ones when it ends, when its role
is handed off, or when the roster drops its member.  The first two are policed
by the shape of the frame, the third by comparing rosters during replay; both
ask for the epoch event right after the entry.

* `State.Vetted.eligible` — an entry of any other sort strands nobody;
* `State.replayFrame_eligible` — nor does a frame without an epoch event;
* `authority_ratchet` — the rule, with what the epochs and indexes of the
  records count.
-/
import AgentMesh.Certified

open Std Mesh

namespace Flock

variable {P : Primitives} {g : MerkleNode Genesis}

theorem State.mem_eligible {st : State} {a : String} :
    a ∈ st.eligible ↔ ∃ x, st.sessions.sessions[a]? = some x ∧ x.status ≠ .ended ∧
      ∃ m ∈ st.board.members, m.name = x.member := by
  simp only [State.eligible, List.mem_toFinset, List.mem_map, List.mem_filter, Sessions.mem_live]
  constructor
  · rintro ⟨p, ⟨⟨x, hx, hs, -⟩, hm⟩, rfl⟩
    rw [Sessions.get, hx] at hm
    exact ⟨x, hx, hs, by simpa using hm⟩
  · rintro ⟨x, hx, hs, hm⟩
    refine ⟨(a, x.pubkey, x.epoch), ⟨⟨x, hx, hs, rfl⟩, ?_⟩, rfl⟩
    rw [Sessions.get, hx]
    simpa using hm

/-! ### One entry -/

/-- The body ends session `a`, by itself or by a hand-off. -/
def Body.Ends (a : String) (b : Body) : Prop :=
  (∃ reason, b = .sessionEnd a reason) ∨
    ∃ to_ resume context approval sig, b = .handoff a to_ resume context approval sig

/-- A session keeps its member and the event that started it, and is live
unless it was ended before or the event ends it. -/
theorem TableStep.kept {st : State} {id : ContentId} {ev : Event} {epoch : ℕ} {s' : Sessions}
    (h : TableStep P st id ev epoch s') {a : String} {y : Session}
    (hy : st.sessions.sessions[a]? = some y) :
    ∃ y', s'.sessions[a]? = some y' ∧ y'.start = y.start ∧ y'.member = y.member ∧
      (y'.status = .ended → y.status = .ended ∨ ev.body.Ends a) := by
  have hsession := h.session a
  rw [hy] at hsession
  generalize s'.sessions[a]? = after at hsession
  cases hsession with
  | same | renewed => exact ⟨_, rfl, rfl, rfl, fun hended => .inl hended⟩
  | ended _ reason body => exact ⟨_, rfl, rfl, rfl, fun _ => .inr (.inl ⟨reason, body⟩)⟩
  | handedOff _ to_ resume context approval sig body =>
    exact ⟨_, rfl, rfl, rfl, fun _ => .inr (.inr ⟨to_, resume, context, approval, sig, body⟩)⟩
  | activated => exact ⟨_, rfl, rfl, rfl, nofun⟩

/-- **An entry that ends nobody and drops no member strands nobody.** -/
theorem State.Vetted.eligible {st : State} {x : Sealed} {sig : Assertion} {signer : Signer}
    {conflict : Option ConflictKind}
    (h : st.Vetted P x.event sig x.record.payload.epoch signer conflict)
    (hend : x.kind ≠ .sessionEnd ∧ x.kind ≠ .handoff)
    (hdrop : x.kind = .roster →
      dropsMember st.board.members (st.after P x signer conflict).board.members = false) :
    st.eligible ⊆ (st.after P x signer conflict).eligible := by
  intro a ha
  obtain ⟨y, hy, hlive, m, hm, hname⟩ := State.mem_eligible.mp ha
  have hnot : ¬x.event.payload.body.Ends a := by
    have hfits := h.admissible.fits
    rw [← Sealed.kind] at hfits
    rintro (⟨reason, hb⟩ | ⟨to_, resume, context, approval, asig, hb⟩)
    · rw [hb] at hfits
      exact absurd hfits.symm hend.1
    · rw [hb] at hfits
      exact absurd hfits.symm hend.2
  obtain ⟨y', hy', -, hmember, hkept⟩ := (tableStep_of_checked h.checked).kept hy
  have hlisted : ∃ m' ∈ (st.after P x signer conflict).board.members, m'.name = m.name := by
    by_cases hk : x.kind = .roster
    · exact dropsMember_eq_false.mp (hdrop hk) m hm
    · rw [State.after, Board.record_members hk]
      exact ⟨m, hm, rfl⟩
  obtain ⟨m', hm', hname'⟩ := hlisted
  refine State.mem_eligible.mpr ⟨y', hy', fun hended => ?_, m', hm', by rw [hname', hname, hmember]⟩
  exact (hkept hended).elim hlive hnot

/-! ### One frame -/

theorem head_ne_epoch {rest : List Sealed} (h : ∀ x ∈ rest, x.kind ≠ .epoch) :
    rest.head?.map Sealed.kind ≠ some .epoch := by
  cases rest with
  | nil => simp
  | cons x rest => simpa using h x (by simp)

/-- **A frame without an epoch event strands nobody.** -/
theorem State.replayFrame_eligible {frame : List Sealed} {st' : State} :
    ∀ {st : State}, st.replayFrame P frame = .ok st' → checkFrameShape frame = .ok () →
      (∀ x ∈ frame, x.kind ≠ .epoch) → st.eligible ⊆ st'.eligible := by
  induction frame with
  | nil =>
    intro st h _ _
    cases h
    exact subset_rfl
  | cons x rest ih =>
    intro st h hshape hnone
    simp only [State.replayFrame, bind_ok, ensure_ok] at h
    obtain ⟨next, hnext, _, hdrop, h⟩ := h
    simp only [checkFrameShape, bind_ok, ensure_ok] at hshape
    obtain ⟨_, hend, hshape⟩ := hshape
    -- no epoch event follows `x`, so neither rule lets it strand a session
    have hrest : ∀ y ∈ rest, y.kind ≠ .epoch := fun y hy => hnone y (List.mem_cons_of_mem _ hy)
    have hhead := head_ne_epoch hrest
    obtain ⟨cert, signer, conflict, hacc, rfl⟩ := State.replay_ok.mp hnext
    refine subset_trans (hacc.vetted.eligible ?_ ?_) (ih h hshape hrest)
    · exact ⟨fun hk => hend ⟨.inl hk, hhead⟩, fun hk => hend ⟨.inr hk, hhead⟩⟩
    · intro hk
      by_contra hd
      exact hdrop ⟨hk, by simpa using hd, hhead⟩

/-! ### What epochs and indexes count -/

theorem State.Accepts.epoch_body {st : State} {x : Sealed} {cert : CertChain} {signer : Signer}
    {conflict : Option ConflictKind} (h : st.Accepts P x cert signer conflict)
    (hk : x.kind = .epoch) : x.event.payload.body = .epoch x.record.payload.epoch := by
  have hfits := h.vetted.admissible.fits
  rw [← Sealed.kind, hk] at hfits
  have hcheck := h.vetted.checked
  cases hb : x.event.payload.body with
  | epoch e =>
    simp only [Sessions.check, hb, bind_ok, ensure_ok] at hcheck
    obtain ⟨_, -, rfl⟩ := hcheck
    rfl
  | _ => rw [hb] at hfits; cases hfits

/-- **Authority never shrinks without an epoch bump.**  If a session is
eligible after some accepted frames and not after the next one, that frame
holds an epoch event.  The epoch grows by the number of epoch events of the
frame, each of which carries its record's epoch; the records of the log are
numbered from one, and the epoch of each counts the epoch events up to it. -/
theorem authority_ratchet {frames : List (List Sealed)} {frame : List Sealed} {f f' : Follower}
    (h : Follower.Reaches P g frames f) (hf : f.apply P frame = .ok f') :
    (∀ a ∈ f.st.eligible, a ∉ f'.st.eligible → ∃ x ∈ frame, x.kind = .epoch) ∧
    f'.st.chain.epoch = f.st.chain.epoch + epochCount frame ∧
    (∀ x ∈ frame, x.kind = .epoch → x.event.payload.body = .epoch x.record.payload.epoch) ∧
    ∀ pre x post, frames.flatten ++ frame = pre ++ x :: post →
      x.record.payload.index = pre.length + 1 ∧
        x.record.payload.epoch = epochCount (pre ++ [x]) := by
  have hrep := (h.snoc hf).replays
  rw [List.flatten_append, List.flatten_singleton] at hrep
  have hsplit : ∀ {pre x post}, frames.flatten ++ frame = pre ++ x :: post →
      ∃ st cert signer conflict, Replays P g pre st ∧ st.Accepts P x cert signer conflict := by
    intro pre x post hlog
    rw [hlog] at hrep
    obtain ⟨st, cert, signer, conflict, hpre, hacc, -⟩ := hrep.split
    exact ⟨st, cert, signer, conflict, hpre, hacc⟩
  obtain ⟨-, hshape, next, hnext, rfl⟩ := Follower.apply_ok.mp hf
  refine ⟨fun a ha hna => ?_, ?_, fun x hx hk => ?_, fun pre x post hlog => ?_⟩
  · by_contra hnone
    exact hna (State.replayFrame_eligible hnext hshape
      (fun x hx hk => hnone ⟨x, hx, hk⟩) ha)
  · rw [hrep.epoch, h.replays.epoch, epochCount_append]
  · obtain ⟨p, q, rfl⟩ := List.append_of_mem hx
    obtain ⟨st, cert, signer, conflict, -, hacc⟩ :=
      hsplit (show frames.flatten ++ (p ++ x :: q) = (frames.flatten ++ p) ++ x :: q by simp)
    exact hacc.epoch_body hk
  · obtain ⟨st, cert, signer, conflict, hpre, hacc⟩ := hsplit hlog
    exact ⟨by rw [hacc.extend.index, hpre.index], hpre.record_epoch hacc⟩

set_option maxRecDepth 100000 in
/-- The hand-off of the small flock takes eligibility from a session, and comes
with its epoch event. -/
theorem authority_ratchet_handoff :
    ∃ f f', Follower.Reaches Small.P Small.genesis Small.beforeHandoff f ∧
      f.apply Small.P [Small.handedOff, Small.bumped] = .ok f' ∧
      "kk" ∈ f.st.eligible ∧ "kk" ∉ f'.st.eligible ∧
      (∃ x ∈ [Small.handedOff, Small.bumped], x.kind = .epoch) ∧
      f'.st.chain.epoch = f.st.chain.epoch + 1 := by
  obtain ⟨f, hf, hmem, f', hf', hgone⟩ : ∃ f,
      Follower.Reaches Small.P Small.genesis Small.beforeHandoff f ∧ "kk" ∈ f.st.eligible ∧
        ∃ f', f.apply Small.P [Small.handedOff, Small.bumped] = .ok f' ∧
          "kk" ∉ f'.st.eligible := by
    decide +kernel
  obtain ⟨hepoch, hcount, -⟩ := authority_ratchet hf hf'
  exact ⟨f, f', hf, hf', hmem, hgone, hepoch "kk" hmem hgone, hcount⟩

end Flock
