/-
What a log uses once.

An invite admits one session, a token digest names one invite, a session key
is enrolled once and an approval authorises one hand-off.  Each of these is a
key an entry takes only while the table does not hold it; the table only
grows, so no two entries of a history take the same key.

* `TableStep.grows` — the table only grows;
* `Taken.invites_once`, `Taken.verifiers_once`, `Taken.sessions_once`,
  `Taken.approvals_once` — the four keys are distinct along every history.
-/
import AgentMesh.SessionTable

open Std Mesh

namespace Flock

variable {P : Primitives} {g : MerkleNode Genesis}

/-! ### The keys an entry takes -/

/-- The invite a `session-start` cites. -/
def Sealed.citedInvite (x : Sealed) : Option ContentId :=
  match x.event.payload.body with
  | .sessionStart .. => x.event.payload.refs["invite"]?
  | _ => none

/-- The token digest an invite carries. -/
def Sealed.verifier (x : Sealed) : Option RawContentId :=
  match x.event.payload.body with
  | .invite _ verifier => some verifier
  | _ => none

/-- The session key a `session-start` enrolls. -/
def Sealed.startedSession (x : Sealed) : Option String :=
  match x.event.payload.body with
  | .sessionStart _ session _ => some session
  | _ => none

/-- The approval a hand-off consumes. -/
def Sealed.consumedApproval (P : Primitives) (x : Sealed) : Option ContentId :=
  match x.event.payload.body with
  | .handoff _ _ _ _ approval _ => some (P.approvalId approval)
  | _ => none

theorem Sealed.citedInvite_some {x : Sealed} {i : ContentId} (h : x.citedInvite = some i) :
    ∃ member session cert, x.event.payload.body = .sessionStart member session cert ∧
      x.event.payload.refs["invite"]? = some i := by
  rw [citedInvite] at h
  split at h
  · exact ⟨_, _, _, by assumption, h⟩
  · cases h

theorem Sealed.verifier_some {x : Sealed} {v : RawContentId} (h : x.verifier = some v) :
    ∃ member, x.event.payload.body = .invite member v := by
  rw [verifier] at h
  split at h
  · cases h
    exact ⟨_, by assumption⟩
  · cases h

theorem Sealed.startedSession_some {x : Sealed} {a : String} (h : x.startedSession = some a) :
    ∃ member cert, x.event.payload.body = .sessionStart member a cert := by
  rw [startedSession] at h
  split at h
  · cases h
    exact ⟨_, _, by assumption⟩
  · cases h

theorem Sealed.consumedApproval_some {x : Sealed} {a : ContentId}
    (h : x.consumedApproval P = some a) :
    ∃ from_ to_ resume context approval sig,
      x.event.payload.body = .handoff from_ to_ resume context approval sig ∧
        P.approvalId approval = a := by
  rw [consumedApproval] at h
  split at h
  · cases h
    exact ⟨_, _, _, _, _, _, by assumption, rfl⟩
  · cases h

/-! ### The table only grows -/

theorem mem_insert_of_mem {K V : Type} [Ord K] [TransOrd K] {m : BTreeMap K V} {k l : K} {v : V}
    (h : l ∈ m) : l ∈ m.insert k v :=
  ExtTreeMap.mem_insert.mpr (.inr h)

/-- What `s'` keeps of `s` when an event with id `id` was recorded. -/
structure Sessions.Grows (id : ContentId) (s s' : Sessions) : Prop where
  sessions : ∀ a, a ∈ s.sessions → a ∈ s'.sessions
  verifiers : ∀ v, v ∈ s.verifiers → v ∈ s'.verifiers
  approvals : s.approvals ⊆ s'.approvals
  /-- A consumed invite stays consumed, unless an invite with its own id is
  recorded over it. -/
  consumed : ∀ i m, i ≠ id → s.invites[i]? = some ⟨m, true⟩ → s'.invites[i]? = some ⟨m, true⟩

theorem TableStep.grows {st : State} {id : ContentId} {ev : Event} {epoch : ℕ} {s' : Sessions}
    (h : TableStep P st id ev epoch s') : Sessions.Grows id st.sessions s' := by
  cases h with
  | invite member verifier body listed unused =>
    refine ⟨fun _ h => h, fun _ => mem_insert_of_mem, subset_rfl, fun i m hi hm => ?_⟩
    rw [Sessions.withInvite, BTreeMap.get_insert, if_neg (Ne.symm hi), hm]
  | start member session cert inv body cites known fresh certified =>
    refine ⟨fun _ => mem_insert_of_mem, fun _ h => h, subset_rfl, fun i m hi hm => ?_⟩
    rw [Sessions.withStart, BTreeMap.get_modify, hm]
    split <;> rfl
  | end_ session reason x body known live =>
    exact ⟨fun _ => mem_insert_of_mem, fun _ h => h, subset_rfl, fun _ _ _ h => h⟩
  | renewal session cert x body known live behind certified =>
    exact ⟨fun _ => mem_insert_of_mem, fun _ h => h, subset_rfl, fun _ _ _ h => h⟩
  | device cert body issuer notServer fresh =>
    exact ⟨fun _ h => h, fun _ h => h, subset_rfl, fun _ _ _ h => h⟩
  | handoff from_ to_ resume context approval approvalSig f t body ok =>
    exact ⟨fun _ h => mem_insert_of_mem (mem_insert_of_mem h), fun _ h => h,
      Finset.subset_insert .., fun _ _ _ h => h⟩
  | other body => exact ⟨fun _ h => h, fun _ h => h, subset_rfl, fun _ _ _ h => h⟩

theorem Taken.invite_mem {log : List Sealed} {st : State} (h : Taken P g log st)
    {i : ContentId} {v : Invite} (hi : st.sessions.invites[i]? = some v) :
    ∃ x ∈ log, P.eventId x.event = i ∧
      ∃ verifier, x.event.payload.body = .invite v.member verifier := by
  induction h generalizing v with
  | nil hst =>
    obtain ⟨user, -, rfl⟩ := startState_ok.mp hst
    simp [State.genesis, Sessions.empty] at hi
  | @snoc log st st' x _ hx ih =>
    have hold : ∀ {v : Invite}, st.sessions.invites[i]? = some v →
        ∃ y ∈ log ++ [x], P.eventId y.event = i ∧
          ∃ verifier, y.event.payload.body = .invite v.member verifier := by
      intro v hv
      obtain ⟨y, hy, hid, hb⟩ := ih hv
      exact ⟨y, List.mem_append_left _ hy, hid, hb⟩
    obtain ⟨epoch, hstep⟩ := hx.tableStep
    generalize st'.sessions = s' at hstep hi
    cases hstep with
    | invite member verifier body listed unused =>
      rw [Sessions.withInvite, BTreeMap.get_insert] at hi
      split at hi
      · rename_i hid
        cases hi
        exact ⟨x, by simp, hid, verifier, body⟩
      · exact hold hi
    | start member session cert' inv body cites known fresh certified =>
      rw [Sessions.withStart, BTreeMap.get_modify] at hi
      split at hi
      · obtain ⟨w, hw, rfl⟩ := Option.map_eq_some_iff.mp hi
        exact hold (v := w) hw
      · exact hold hi
    | end_ | renewal | device | handoff | other => exact hold hi

/-! ### Distinct keys -/

theorem Taken.invites_once {log : List Sealed} {st : State} (h : Taken P g log st) :
    (log.filterMap Sealed.citedInvite).Nodup ∧
      ∀ i ∈ log.filterMap Sealed.citedInvite, ∃ m, st.sessions.invites[i]? = some ⟨m, true⟩ := by
  refine Steps.Trace.nodup Sealed.citedInvite
    (fun st i => ∃ m, st.sessions.invites[i]? = some ⟨m, true⟩) ?_ ?_ h
  · rintro log st x st' i hlog hx ⟨m, hm⟩
    -- the consumed invite is in the log, so the new event is another one
    have hne : i ≠ P.eventId x.event := by
      intro he
      obtain ⟨y, hy, hid, -⟩ := Taken.invite_mem hlog hm
      exact (Taken.get_mem hlog i).mpr ⟨y, hy, hid⟩ (he ▸ hx.fresh)
    obtain ⟨epoch, hstep⟩ := hx.tableStep
    exact ⟨m, hstep.grows.consumed i m hne hm⟩
  · intro log st x st' i _ hx hk
    obtain ⟨member, session, c, hb, hi⟩ := Sealed.citedInvite_some hk
    obtain ⟨epoch, hstep⟩ := hx.tableStep
    obtain ⟨inv, hinv, hknown, -, -, hs'⟩ := hstep.of_start hb
    rw [hi] at hinv
    cases hinv
    refine ⟨fun ⟨m, hm⟩ => ?_, member, ?_⟩
    · rw [hknown] at hm
      cases hm
    · rw [hs', Sessions.withStart, BTreeMap.get_modify, if_pos rfl, hknown]
      rfl

theorem Taken.verifiers_once {log : List Sealed} {st : State} (h : Taken P g log st) :
    (log.filterMap Sealed.verifier).Nodup := by
  refine (Steps.Trace.nodup Sealed.verifier (fun st v => v ∈ st.sessions.verifiers) ?_ ?_ h).1
  · intro log st x st' v _ hx hv
    obtain ⟨epoch, hstep⟩ := hx.tableStep
    exact hstep.grows.verifiers v hv
  · intro log st x st' v _ hx hk
    obtain ⟨member, hb⟩ := Sealed.verifier_some hk
    obtain ⟨epoch, hstep⟩ := hx.tableStep
    obtain ⟨-, hunused, hs'⟩ := hstep.of_invite hb
    exact ⟨hunused, by rw [hs']; exact ExtTreeMap.mem_insert_self⟩

theorem Taken.sessions_once {log : List Sealed} {st : State} (h : Taken P g log st) :
    (log.filterMap Sealed.startedSession).Nodup ∧
      ∀ a ∈ log.filterMap Sealed.startedSession, a ∈ st.sessions.sessions := by
  refine Steps.Trace.nodup Sealed.startedSession (fun st a => a ∈ st.sessions.sessions) ?_ ?_ h
  · intro log st x st' a _ hx ha
    obtain ⟨epoch, hstep⟩ := hx.tableStep
    exact hstep.grows.sessions a ha
  · intro log st x st' a _ hx hk
    obtain ⟨member, c, hb⟩ := Sealed.startedSession_some hk
    obtain ⟨epoch, hstep⟩ := hx.tableStep
    obtain ⟨inv, -, -, hfresh, -, hs'⟩ := hstep.of_start hb
    exact ⟨hfresh, by rw [hs']; exact ExtTreeMap.mem_insert_self⟩

theorem Taken.approvals_once {log : List Sealed} {st : State} (h : Taken P g log st) :
    (log.filterMap (Sealed.consumedApproval P)).Nodup ∧
      ∀ a ∈ log.filterMap (Sealed.consumedApproval P), a ∈ st.sessions.approvals := by
  refine Steps.Trace.nodup (Sealed.consumedApproval P)
    (fun st a => a ∈ st.sessions.approvals) ?_ ?_ h
  · intro log st x st' a _ hx ha
    obtain ⟨epoch, hstep⟩ := hx.tableStep
    exact hstep.grows.approvals ha
  · intro log st x st' a _ hx hk
    obtain ⟨from_, to_, resume, context, approval, sig, hb, rfl⟩ := Sealed.consumedApproval_some hk
    obtain ⟨epoch, hstep⟩ := hx.tableStep
    obtain ⟨f, t, hok, hs'⟩ := hstep.of_handoff hb
    exact ⟨hok.unused, by rw [hs']; exact Finset.mem_insert_self ..⟩

end Flock
