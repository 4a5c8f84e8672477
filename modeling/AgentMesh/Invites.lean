/-
Invites and the roster.

An invite is minted only for a member on the roster.  A `session-start` asks
for an invite that was not consumed, and no longer for the roster: a member
dropped in between can still be enrolled with an invite minted before.  What it
gets is a session that signs nothing while the member is absent.

* `Taken.roster` — the roster is the last one of the log;
* `Taken.invited` — an unconsumed invite of the table is one of the log, minted
  for a member of the roster and cited by nobody;
* `session_start_invited` — what a `session-start` of a server's log rests on.
-/
import AgentMesh.SingleUse
import AgentMesh.Effects

open Std Mesh Framing

namespace Flock

variable {P : Primitives} {g : MerkleNode Genesis} {log : List Sealed} {st : State}

/-! ### The roster of a log -/

/-- The roster after `log`: the last one recorded, or that of genesis. -/
def rosterAfter (g : MerkleNode Genesis) (log : List Sealed) : List Member :=
  log.foldl (fun members x =>
    match x.event.payload.body with
    | .roster new _ => new
    | _ => members) g.payload.roster

/-- Some member of the roster has this name. -/
def Listed (members : List Member) (name : String) : Prop := ∃ m ∈ members, m.name = name

instance (members : List Member) (name : String) : Decidable (Listed members name) :=
  inferInstanceAs (Decidable (∃ m ∈ members, m.name = name))

theorem State.Takes.members {node : MerkleNode Event} {st' : State} (h : st.Takes P node st') :
    st'.board.members =
      match node.payload.body with
      | .roster new _ => new
      | _ => st.board.members := by
  obtain ⟨_, _, signer, conflict, hv, hboard, -⟩ := h.vetted
  have hfits := hv.admissible.fits
  rw [hboard]
  cases hb : node.payload.body with
  | roster members roots =>
    rw [hb] at hfits
    rw [hv.admissible.roster_conflict hfits.symm]
    exact Board.record_roster hfits.symm hb
  | _ =>
    rw [hb] at hfits
    exact Board.record_members (by rw [← hfits]; nofun)

/-- **The roster is the last one of the log.** -/
theorem Taken.roster (h : Taken P g log st) : st.board.members = rosterAfter g log := by
  induction h with
  | nil hst =>
    obtain ⟨user, -, rfl⟩ := startState_ok.mp hst
    rfl
  | snoc _ hx ih =>
    rw [hx.members, ih, rosterAfter, rosterAfter, List.foldl_append]
    rfl

theorem listed_append {more : List Sealed} {name : String} (h : Listed (rosterAfter g log) name)
    (hkeep : ∀ r ∈ more, ∀ members roots, r.event.payload.body = .roster members roots →
      Listed members name) : Listed (rosterAfter g (log ++ more)) name := by
  induction more generalizing log with
  | nil => rwa [List.append_nil]
  | cons r more ih =>
    have hnext : Listed (rosterAfter g (log ++ [r])) name := by
      rw [rosterAfter, List.foldl_append, ← rosterAfter, List.foldl_cons, List.foldl_nil]
      split
      · rename_i members roots hb
        exact hkeep r List.mem_cons_self members roots hb
      · exact h
    rw [List.append_cons]
    exact ih hnext fun r' hr' => hkeep r' (List.mem_cons_of_mem _ hr')

/-! ### The invites of a log -/

/-- **An unconsumed invite of the table** is in the log, was minted for a member
of the roster, and is cited by no `session-start`. -/
theorem Taken.invited (h : Taken P g log st) {id : ContentId} {member : String}
    (hi : st.sessions.invites[id]? = some ⟨member, false⟩) :
    ∃ a i b verifier, log = a ++ i :: b ∧ P.eventId i.event = id ∧
      i.event.payload.body = .invite member verifier ∧ Listed (rosterAfter g a) member ∧
      ∀ y ∈ log, y.citedInvite ≠ some id := by
  obtain ⟨i, hmem, hid, verifier, hb⟩ := h.invite_mem hi
  obtain ⟨a, b, rfl⟩ := List.append_of_mem hmem
  obtain ⟨u, v, hu, hx⟩ := Steps.Trace.split h
  have hu : Taken P g a u := hu
  obtain ⟨epoch, hstep⟩ := hx.tableStep
  obtain ⟨hlisted, -, -⟩ := hstep.of_invite hb
  refine ⟨a, i, b, verifier, rfl, hid, hb, hu.roster ▸ hlisted, fun y hy hcited => ?_⟩
  obtain ⟨m, hm⟩ := h.invites_once.2 id (List.mem_filterMap.mpr ⟨y, hy, hcited⟩)
  rw [hi] at hm
  cases hm

theorem State.Vetted.listed {node : MerkleNode Event} {sig : Assertion} {epoch : ℕ}
    {signer : Signer} {conflict : Option ConflictKind}
    (h : st.Vetted P node sig epoch signer conflict) {member : String} {pending : Bool}
    (hclass : signer.class_ = .session member pending) : Listed st.board.members member := by
  obtain ⟨m, _, _, hsigner, -⟩ := h.admissible.table
  obtain ⟨-, r, hr, -⟩ := signerMember_session hclass hsigner
  exact ⟨r, List.mem_of_find?_eq_some hr, by simpa using List.find?_some hr⟩

/-! ### Sessions that start -/

/-- **What a `session-start` rests on.**  In every run of a server, on whatever
log it was opened, a `session-start` cites an invite for the member it names,
minted while that member was on the roster and cited by no `session-start`
before.  The member is on the roster still if no roster since the invite dropped
it; while it is not, the server admits no event a session of it signs. -/
theorem session_start_invited {key : AgentKey P.toCrypto} {genesis : SignedGenesis}
    {logFile refusalFile : File} {s : Server P}
    (hopen : Server.open_ key genesis logFile refusalFile = .ok s) (calls : List (Call × Io)) :
    (∀ pre x post member session cert,
      (s.serve calls).frames.flatten = pre ++ x :: post →
      x.event.payload.body = .sessionStart member session cert →
        ∃ a i b verifier, pre = a ++ i :: b ∧
          x.citedInvite = some (P.eventId i.event) ∧
          i.event.payload.body = .invite member verifier ∧
          Listed (rosterAfter genesis.node a) member ∧
          (∀ y ∈ pre, y.citedInvite ≠ some (P.eventId i.event)) ∧
          ((∀ r ∈ b, ∀ members roots, r.event.payload.body = .roster members roots →
            Listed members member) → Listed (rosterAfter genesis.node pre) member)) ∧
    ∀ node sig p member pending,
      (s.serve calls).st.prepare (s.serve calls).key node sig = .ok p →
      p.signer.class_ = .session member pending →
        Listed (rosterAfter genesis.node (s.serve calls).frames.flatten) member := by
  have htaken := Server.serve_taken hopen calls
  refine ⟨?_, ?_⟩
  · intro pre x post member session cert hlog hb
    rw [hlog] at htaken
    obtain ⟨u, v, hu, hx⟩ := Steps.Trace.split htaken
    obtain ⟨epoch, hstep⟩ := hx.tableStep
    obtain ⟨inv, hcites, hknown, -⟩ := hstep.of_start hb
    obtain ⟨a, i, b, verifier, hpre, rfl, hi, hlisted, hunused⟩ := Taken.invited hu hknown
    refine ⟨a, i, b, verifier, hpre, ?_, hi, hlisted, hunused, fun hkeep => ?_⟩
    · rw [Sealed.citedInvite, hb]
      exact hcites
    · rw [hpre]
      refine listed_append hlisted fun r hr members roots hroster => ?_
      rcases List.mem_cons.mp hr with rfl | hr
      · rw [hi] at hroster
        cases hroster
      · exact hkeep r hr members roots hroster
  · intro node sig p member pending hp hclass
    obtain ⟨signer, conflict, hv, -, rfl⟩ := State.prepare_ok.mp hp
    rw [← htaken.roster]
    exact hv.listed hclass

set_option maxRecDepth 100000 in
/-- The start of the small flock's first session rests on its invite. -/
theorem session_start_invited_enrolled :
    ∃ s, Server.open_ Small.key Small.signedGenesis ⟨[], []⟩ ⟨[], []⟩ = .ok s ∧
      (s.serve Small.enrolledTwice).frames.flatten = [Small.invited] ++ Small.started :: [] ∧
      Small.started.citedInvite = some (Small.P.eventId Small.invited.event) := by
  obtain ⟨s, hopen, hframes⟩ :
      ∃ s, Server.open_ Small.key Small.signedGenesis ⟨[], []⟩ ⟨[], []⟩ = .ok s ∧
        (s.serve Small.enrolledTwice).frames.flatten = [Small.invited] ++ Small.started :: [] := by
    decide +kernel
  obtain ⟨a, i, b, verifier, hpre, hcites, -⟩ :=
    (session_start_invited hopen Small.enrolledTwice).1 _ _ _ _ _ _ hframes rfl
  have hi : i = Small.invited := by
    have hmem : i ∈ [Small.invited] := by rw [hpre]; simp
    exact List.mem_singleton.mp hmem
  exact ⟨s, hopen, hframes, hi ▸ hcites⟩

set_option maxRecDepth 100000 in
/-- **An invite outlives its member.**  The roster dropped `h` before its invite
was used, and the server admits the `session-start` all the same. -/
theorem session_start_dropped :
    ∃ s pre x post cert, Server.open_ Small.key Small.signedGenesis ⟨[], []⟩ ⟨[], []⟩ = .ok s ∧
      (s.serve Small.enrolledDropped).frames.flatten = pre ++ x :: post ∧
      x.event.payload.body = .sessionStart "h" "kk" cert ∧
      ¬Listed (rosterAfter Small.genesis pre) "h" := by
  obtain ⟨s, hopen, hframes⟩ :
      ∃ s, Server.open_ Small.key Small.signedGenesis ⟨[], []⟩ ⟨[], []⟩ = .ok s ∧
        (s.serve Small.enrolledDropped).frames.flatten =
          [Small.invited, Small.dropped, Small.bumpedDrop] ++ Small.startedDropped :: [] := by
    decide +kernel
  exact ⟨s, _, _, _, _, hopen, hframes, rfl, by decide +kernel⟩

end Flock
