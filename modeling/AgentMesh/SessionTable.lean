/-
The session table is an exclusive register of roles.

A member's first session holds its role, later ones wait, and only a hand-off
moves the role.  `Sessions.register` forgets everything of the table but who
claims and who holds which role; every event taken into a state, replayed or
committed, is one step of that register, so the table inherits what `Tenure`
proves.

* `TableStep.step` — the table simulates the register;
* `State.Reached.table` — the invariant in every state reached;
* `session_table_exclusive` — the invariant, in the words of the table.
-/
import AgentMesh.Ideal
import AgentMesh.Tenure

open Std Mesh Tenure

namespace Flock

variable {P : Primitives} {g : MerkleNode Genesis}

/-! ### The register behind the table -/

def Status.phase : Status → Phase
  | .active => .active
  | .pending => .pending
  | .ended => .ended

theorem Status.phase_inj {a b : Status} : a.phase = b.phase ↔ a = b := by
  cases a <;> cases b <;> decide

/-- Who claims and who holds each member's role. -/
def Sessions.register (s : Sessions) : Register String String where
  claims := fun a => s.sessions[a]?.map fun x => (x.member, x.status.phase)
  holder := fun m => s.holders[m]?

theorem Sessions.register_claims (s : Sessions) (a : String) :
    s.register.claims a = s.sessions[a]?.map fun x => (x.member, x.status.phase) := rfl

theorem Sessions.register_holder (s : Sessions) (m : String) :
    s.register.holder m = s.holders[m]? := rfl

theorem Sessions.claims_of {s : Sessions} {a : String} {x : Session}
    (h : s.sessions[a]? = some x) : s.register.claims a = some (x.member, x.status.phase) := by
  rw [register_claims, h]
  rfl

theorem Sessions.claims_some {s : Sessions} {a m : String} {p : Phase}
    (h : s.register.claims a = some (m, p)) :
    ∃ x, s.sessions[a]? = some x ∧ x.member = m ∧ x.status.phase = p := by
  obtain ⟨x, hx, hp⟩ := Option.map_eq_some_iff.mp h
  rw [Prod.mk.injEq] at hp
  exact ⟨x, hx, hp⟩

/-- A write to the sessions, seen through the register. -/
theorem Sessions.claims_insert {s s' : Sessions} {a : String} {x : Session}
    (h : s'.sessions = s.sessions.insert a x) (b : String) :
    s'.register.claims b =
      if a = b then some (x.member, x.status.phase) else s.register.claims b := by
  rw [register_claims, h, BTreeMap.get_insert]
  split <;> rfl

/-- The table names one possible active session per member, and a member has a
holder from its first session on. -/
structure Sessions.WellFormed (s : Sessions) : Prop where
  exclusive : Exclusive s.register
  seen : ∀ m, m ∈ s.seen ↔ s.holders[m]? ≠ none

/-! ### One event -/

/-- The hand-off of an event, if it is one: the sessions it moves the role
from and to. -/
def Body.handoffs : Body → Option (String × String)
  | .handoff from_ to_ _ _ _ _ => some (from_, to_)
  | _ => none

/-- **The table simulates the register.**  The label of the abstract step is
the hand-off the event makes. -/
theorem TableStep.step {st : State} {id : ContentId} {ev : Event} {epoch : ℕ} {s' : Sessions}
    (h : TableStep P st id ev epoch s') (hwf : st.sessions.WellFormed) :
    Step st.sessions.register s'.register ev.body.handoffs := by
  cases h with
  | invite member verifier body listed unused =>
    rw [body]
    exact .idle (fun _ => rfl) (fun _ => rfl)
  | start member session cert inv body cites known fresh certified =>
    have hfresh : st.sessions.register.claims session = none := by
      rw [Sessions.register_claims, ExtTreeMap.getElem?_eq_none fresh]
      rfl
    rw [body]
    by_cases hseen : member ∈ st.sessions.seen
    · -- the member has a holder: the new session waits
      refine .wait session member hfresh (fun b => ?_) (fun b => ?_)
      · rw [Sessions.claims_insert rfl, Sessions.enrolled, if_neg (not_not_intro hseen)]
        rfl
      · simp only [Sessions.register, Sessions.withStart, if_neg (not_not_intro hseen)]
    · have hfree : st.sessions.register.holder member = none := by
        by_contra hne
        exact hseen ((hwf.seen member).mpr hne)
      refine .first session member hfresh hfree (fun b => ?_) (fun b => ?_)
      · rw [Sessions.claims_insert rfl, Sessions.enrolled, if_pos hseen]
        rfl
      · simp only [Sessions.register, Sessions.withStart, if_pos hseen, BTreeMap.get_insert]
  | end_ session reason x body known live =>
    rw [body]
    refine .retire session x.member x.status.phase (Sessions.claims_of known) (fun b => ?_)
      (fun _ => rfl)
    rw [Sessions.claims_insert rfl]
    rfl
  | renewal session cert x body known live behind certified =>
    rw [body]
    refine .idle (fun b => ?_) (fun _ => rfl)
    rw [Sessions.claims_insert rfl]
    split
    · rename_i hb
      rw [← hb, Sessions.claims_of known]
    · rfl
  | device cert body issuer notServer fresh =>
    rw [body]
    exact .idle (fun _ => rfl) (fun _ => rfl)
  | handoff from_ to_ resume context approval approvalSig f t body ok =>
    have hholds : st.sessions.register.holder t.member = some from_ := by
      rw [ok.toMember]
      exact ok.holder
    have hfrom := Sessions.claims_of ok.fromKnown
    rw [ok.fromMember, ← ok.toMember] at hfrom
    have hto := Sessions.claims_of ok.toKnown
    rw [ok.pending] at hto
    rw [body]
    refine .transfer from_ to_ t.member f.status.phase hholds hfrom hto (fun b => ?_) (fun b => ?_)
    · simp only [Sessions.register, Sessions.withHandoff, BTreeMap.get_insert]
      by_cases hb : to_ = b
      · rw [if_pos hb, if_pos hb]
        rfl
      · rw [if_neg hb, if_neg hb]
        split
        · rw [Option.map_some, ok.fromMember, ← ok.toMember]
          rfl
        · rfl
    · simp only [Sessions.register, Sessions.withHandoff, BTreeMap.get_insert]
  | other body =>
    have hnone : ev.body.handoffs = none := by
      revert body
      cases ev.body <;> simp [Body.offTable, Body.handoffs]
    rw [hnone]
    exact .idle (fun _ => rfl) (fun _ => rfl)

/-- The members that were ever enrolled are those with a holder. -/
theorem TableStep.seen {st : State} {id : ContentId} {ev : Event} {epoch : ℕ} {s' : Sessions}
    (h : TableStep P st id ev epoch s') (hwf : st.sessions.WellFormed) (m : String) :
    m ∈ s'.seen ↔ s'.holders[m]? ≠ none := by
  cases h with
  | start member session cert inv body cites known fresh certified =>
    rw [Sessions.withStart, Finset.mem_insert, hwf.seen]
    by_cases hm : member = m
    · subst hm
      by_cases hseen : member ∈ st.sessions.seen
      · rw [if_neg (not_not_intro hseen)]
        simpa using (hwf.seen member).mp hseen
      · rw [if_pos hseen, BTreeMap.get_insert, if_pos rfl]
        simp
    · have hne : m ≠ member := fun h => hm h.symm
      split
      · rw [BTreeMap.get_insert, if_neg hm]
        simp [hne]
      · simp [hne]
  | handoff from_ to_ resume context approval approvalSig f t body ok =>
    rw [Sessions.withHandoff, hwf.seen, BTreeMap.get_insert]
    by_cases hm : t.member = m
    · rw [if_pos hm, ← hm, ok.toMember, ok.holder]
      simp
    · rw [if_neg hm]
  | invite | end_ | renewal | device | other => exact hwf.seen m

theorem TableStep.wellFormed {st : State} {id : ContentId} {ev : Event} {epoch : ℕ}
    {s' : Sessions} (h : TableStep P st id ev epoch s') (hwf : st.sessions.WellFormed) :
    s'.WellFormed :=
  ⟨(h.step hwf).exclusive hwf.exclusive, h.seen hwf⟩

theorem Sessions.wellFormed_empty : Sessions.empty.WellFormed where
  exclusive := by
    refine ⟨fun {r c} h => ?_, fun {c r} h => ?_⟩
    · rw [register_holder, Sessions.empty, ExtTreeMap.getElem?_empty] at h
      cases h
    · rw [register_claims, Sessions.empty, ExtTreeMap.getElem?_empty] at h
      cases h
  seen := fun m => by simp [Sessions.empty]

/-! ### Every state reached -/

/-- One move of a reader or of the server: an event, or a whole frame a
follower applies. -/
inductive State.Moves (P : Primitives) (st : State) : State → Prop where
  | event {node : MerkleNode Event} {st' : State} (h : st.Takes P node st') : Moves P st st'
  | frame {head : Option Head} {frame : List Sealed} {f : Follower}
      (h : Follower.apply P ⟨st, head⟩ frame = .ok f) : Moves P st f.st

/-- `st'` is `st` or comes after it. -/
def State.Later (P : Primitives) : State → State → Prop := Relation.ReflTransGen (State.Moves P)

/-- A state a follower of `g`, a rebuild of its log or its server reaches,
whatever frames and calls it was given. -/
def State.Reached (P : Primitives) (g : MerkleNode Genesis) (st : State) : Prop :=
  ∃ st₀, startState P g = .ok st₀ ∧ State.Later P st₀ st

theorem Replays.reached {log : List Sealed} {st : State} (h : Replays P g log st) :
    State.Reached P g st := by
  obtain ⟨st₀, hst, hrun⟩ := h
  exact ⟨st₀, hst, Steps.run_rel (fun _ => .refl) (fun hab hbc => hab.trans hbc)
    (fun hx => .single (.event (.replayed hx))) hrun⟩

/-- A relation kept by single events is kept by every move. -/
theorem State.Later.rel {R : State → State → Prop} (hrefl : ∀ s, R s s)
    (htrans : ∀ {a b c}, R a b → R b c → R a c)
    (hstep : ∀ {st node st'}, State.Takes P st node st' → R st st') {st st' : State}
    (h : State.Later P st st') : R st st' := by
  induction h with
  | refl => exact hrefl st
  | tail _ hmove ih =>
    refine htrans ih ?_
    cases hmove with
    | event h => exact hstep h
    | frame h =>
      obtain ⟨-, -, next, hnext, rfl⟩ := Follower.apply_ok.mp h
      exact Steps.run_rel hrefl htrans (fun hx => hstep (.replayed hx))
        (State.replayFrame_run hnext)

theorem State.Takes.wellFormed {st st' : State} {node : MerkleNode Event}
    (h : st.Takes P node st') (hwf : st.sessions.WellFormed) : st'.sessions.WellFormed := by
  obtain ⟨epoch, hstep⟩ := h.tableStep
  exact hstep.wellFormed hwf

theorem State.Reached.table {st : State} (h : State.Reached P g st) :
    st.sessions.WellFormed := by
  obtain ⟨st₀, hstart, hlater⟩ := h
  obtain ⟨user, -, rfl⟩ := startState_ok.mp hstart
  exact hlater.rel (R := fun s t => s.sessions.WellFormed → t.sessions.WellFormed)
    (fun _ h => h) (fun hab hbc h => hbc (hab h)) (fun hx => hx.wellFormed)
    Sessions.wellFormed_empty

theorem State.Later.ended {st st' : State} (hlater : State.Later P st st')
    (hwf : st.sessions.WellFormed) {a m : String}
    (h : st.sessions.register.claims a = some (m, .ended)) :
    st'.sessions.register.claims a = some (m, .ended) := by
  have hrel := hlater.rel (R := fun s t => s.sessions.WellFormed →
      t.sessions.WellFormed ∧ ∀ a m, s.sessions.register.claims a = some (m, .ended) →
        t.sessions.register.claims a = some (m, .ended))
    (fun _ h => ⟨h, fun _ _ h => h⟩)
    (fun hab hbc h => ⟨(hbc (hab h).1).1, fun a m ha => (hbc (hab h).1).2 a m ((hab h).2 a m ha)⟩)
    (fun hx h => by
      obtain ⟨epoch, hstep⟩ := hx.tableStep
      exact ⟨hstep.wellFormed h, fun a m ha => (hstep.step h).ended_stays ha⟩)
  exact (hrel hwf).2 a m h

/-- **The session table is exclusive.**  In every state reached: a member has
at most one active session, its holder; every other session is pending or
ended, and a holder is active or ended.  An ended session stays ended, and a
pending one becomes active only at a hand-off to it, which ends the session it
replaces. -/
theorem session_table_exclusive {st : State} (h : State.Reached P g st) :
    (∀ (a b : String) (x y : Session), st.sessions.sessions[a]? = some x →
      st.sessions.sessions[b]? = some y → x.status = .active → y.status = .active →
      x.member = y.member → a = b) ∧
    (∀ (a : String) (x : Session), st.sessions.sessions[a]? = some x → x.status = .active →
      st.sessions.holders[x.member]? = some a) ∧
    (∀ (a : String) (x : Session), st.sessions.sessions[a]? = some x →
      st.sessions.holders[x.member]? ≠ some a → x.status = .pending ∨ x.status = .ended) ∧
    (∀ m a : String, st.sessions.holders[m]? = some a → ∃ x, st.sessions.sessions[a]? = some x ∧
      x.member = m ∧ (x.status = .active ∨ x.status = .ended)) ∧
    (∀ (st' : State) (a : String) (x : Session), State.Later P st st' →
      st.sessions.sessions[a]? = some x → x.status = .ended →
      ∃ x', st'.sessions.sessions[a]? = some x' ∧ x'.status = .ended) ∧
    (∀ (node : MerkleNode Event) (st' : State) (a : String) (x x' : Session), st.Takes P node st' →
      st.sessions.sessions[a]? = some x → x.status = .pending →
      st'.sessions.sessions[a]? = some x' → x'.status = .active →
      ∃ from_ resume context approval approvalSig y,
        node.payload.body = .handoff from_ a resume context approval approvalSig ∧
        st'.sessions.sessions[from_]? = some y ∧ y.status = .ended) := by
  have hwf := h.table
  have hclaims : ∀ {a : String} {x : Session} {status : Status},
      st.sessions.sessions[a]? = some x → x.status = status →
        st.sessions.register.claims a = some (x.member, status.phase) := by
    intro a x status hx hs
    rw [← hs]
    exact Sessions.claims_of hx
  refine ⟨?_, ?_, ?_, ?_, ?_, ?_⟩
  · intro a b x y hx hy hxs hys hm
    have hb := hclaims hy hys
    rw [← hm] at hb
    exact hwf.exclusive.active_unique (hclaims hx hxs) hb
  · intro a x hx hs
    exact hwf.exclusive.active_holds (hclaims hx hs)
  · intro a x hx hn
    have hp := hwf.exclusive.not_holder (Sessions.claims_of hx) hn
    exact hp.imp (Status.phase_inj (b := .pending)).mp (Status.phase_inj (b := .ended)).mp
  · intro m a ha
    obtain ⟨p, hp, hne⟩ := hwf.exclusive.holder_claims ha
    obtain ⟨x, hx, hm, rfl⟩ := Sessions.claims_some hp
    refine ⟨x, hx, hm, ?_⟩
    cases hs : x.status with
    | active => exact .inl rfl
    | pending => exact absurd (by rw [hs]; rfl) hne
    | ended => exact .inr rfl
  · intro st' a x hlater hx hs
    obtain ⟨x', hx', -, hp⟩ := Sessions.claims_some (hlater.ended hwf (hclaims hx hs))
    exact ⟨x', hx', (Status.phase_inj (b := .ended)).mp hp⟩
  · intro node st' a x x' htakes hx hs hx' hs'
    obtain ⟨epoch, hstep⟩ := htakes.tableStep
    have hact : st'.sessions.register.claims a = some (x'.member, .active) := by
      rw [Sessions.claims_of hx', hs']
      rfl
    obtain ⟨from_, hlabel, hended⟩ :=
      (hstep.step hwf).activation hwf.exclusive (hclaims hx hs) hact
    obtain ⟨y, hy, -, hp⟩ := Sessions.claims_some hended
    cases hb : node.payload.body with
    | handoff from' to_ resume context approval approvalSig =>
      rw [hb] at hlabel
      cases hlabel
      exact ⟨_, resume, context, approval, approvalSig, y, rfl, hy,
        (Status.phase_inj (b := .ended)).mp hp⟩
    | _ => rw [hb] at hlabel; cases hlabel

set_option maxRecDepth 100000 in
/-- After the hand-over of the small flock the first session has ended for
good. -/
theorem session_table_exclusive_handover :
    ∃ f, Follower.Reaches Small.P Small.genesis Small.handover f ∧
      f.st.sessions.holders["h"]? = some "kkk" ∧
      ∀ st', State.Later Small.P f.st st' →
        ∃ x, st'.sessions.sessions["kk"]? = some x ∧ x.status = .ended := by
  obtain ⟨f, hf, hholder, x, hx, hended⟩ : ∃ f,
      Follower.Reaches Small.P Small.genesis Small.handover f ∧
        f.st.sessions.holders["h"]? = some "kkk" ∧
        ∃ x ∈ f.st.sessions.sessions["kk"]?, x.status = .ended := by
    decide +kernel
  exact ⟨f, hf, hholder, fun st' hlater =>
    (session_table_exclusive hf.replays.reached).2.2.2.2.1 st' "kk" x hlater hx hended⟩

end Flock
