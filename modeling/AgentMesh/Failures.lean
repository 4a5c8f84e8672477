/-
Calls that fail.

An error can come before anything is written, from the append of a frame, or
from a refusal that could or could not be journaled.  State and journal move
only after an append returned, so none of them has moved when the call fails;
and an append that failed stops the server, for good: every later call that
would write is refused before it writes.

* `Server.Tries` — the entry points but `admit` give up, or are one transaction;
* `Server.transact_failed`, `Server.admitNode_failed` — a failure leaves state
  and journal;
* `Server.Does.of_poisoned` — a stopped server changes in nothing but its held
  challenges;
* `failed_calls` — these together.
-/
import AgentMesh.Journal
import AgentMesh.Ideal

open Std Mesh Framing

namespace Flock

variable {P : Primitives}

/-- The calls that write when they succeed; the others only issue challenges. -/
def Call.writes : Call → Bool
  | .enrollBegin .. | .renewalChallenges | .renewBegin .. => false
  | _ => true

namespace Server

variable {α β : Type} {s : Server P}

/-- What a failure leaves: state and journal, and the log too unless the server
has stopped. -/
structure Unchanged (s t : Server P) : Prop where
  st : t.st = s.st
  journal : t.journal = s.journal
  log : t.log = s.log ∨ t.poisoned = true

theorem Unchanged.refl (s : Server P) : Unchanged s s := ⟨rfl, rfl, .inl rfl⟩

theorem returning_error {f : α → β} {r : Server P × Except ServerError α} {e : ServerError} :
    (returning f r).2 = .error e ↔ r.2 = .error e := by
  obtain ⟨s, r⟩ := r
  cases r <;> simp [returning, Except.map]

theorem returning_returning {γ : Type} (f : α → β) (g : β → γ)
    (r : Server P × Except ServerError α) :
    returning g (returning f r) = returning (fun a => g (f a)) r := by
  obtain ⟨s, r⟩ := r
  cases r <;> rfl

/-! ### Transactions -/

theorem commitFrame_failed {sealed : List Sealed} {next : State} {fault : Option Fault}
    {e : ServerError} (h : (s.commitFrame sealed next fault).2 = .error e) :
    Unchanged s (s.commitFrame sealed next fault).1 := by
  rw [commitFrame, append] at h ⊢
  cases ha : s.log.append P.frameCodec ⟨sealed⟩ fault with
  | mk log r =>
    rw [ha] at h
    cases r with
    | ok u => cases h
    | error e' => exact ⟨rfl, rfl, .inr rfl⟩

theorem transact_failed {specs : List Spec} {fault : Option Fault} {e : ServerError}
    (h : (s.transact specs fault).2 = .error e) : Unchanged s (s.transact specs fault).1 := by
  rw [transact] at h ⊢
  split
  · exact .refl s
  · rename_i hup
    rw [if_neg hup] at h
    split
    · exact .refl s
    · rename_i hseal
      simp only [hseal] at h
      split
      · rename_i hfits
        rw [if_pos hfits, returning_error] at h
        exact commitFrame_failed h
      · exact .refl s

theorem transact_poisoned (hp : s.poisoned = true) (specs : List Spec) (fault : Option Fault) :
    s.transact specs fault = (s, .error .poisoned) := by
  rw [transact, if_pos hp]

/-! ### Entry points -/

/-- An entry point gives up before it writes, or is one transaction.  It may
have consumed a challenge. -/
inductive Tries (s : Server P) : Server P × Except ServerError α → Prop where
  | stopped (challenges : BTreeMap (BitVec 256) Held) (e : ServerError) :
      Tries s ({ s with challenges := challenges }, .error e)
  | transacts (challenges : BTreeMap (BitVec 256) Held) (specs : List Spec)
      (fault : Option Fault) (f : List ContentId → α) :
      Tries s (returning f (({ s with challenges := challenges } : Server P).transact specs fault))

theorem Tries.returning {r : Server P × Except ServerError α} (h : Tries s r) (f : α → β) :
    Tries s (returning f r) := by
  cases h with
  | stopped challenges e => exact .stopped challenges e
  | transacts challenges specs fault g =>
    rw [returning_returning]
    exact .transacts challenges specs fault _

theorem Tries.after_held (challenges : BTreeMap (BitVec 256) Held)
    {r : Server P × Except ServerError α}
    (h : Tries ({ s with challenges := challenges } : Server P) r) : Tries s r := by
  cases h with
  | stopped challenges' e => exact .stopped challenges' e
  | transacts challenges' specs fault f => exact .transacts challenges' specs fault f

theorem Tries.failed {r : Server P × Except ServerError α} (h : Tries s r) {e : ServerError}
    (he : r.2 = .error e) : Unchanged s r.1 := by
  cases h with
  | stopped challenges e' => exact ⟨rfl, rfl, .inl rfl⟩
  | transacts challenges specs fault f =>
    obtain ⟨hst, hjournal, hlog⟩ := transact_failed (returning_error.mp he)
    exact ⟨hst, hjournal, hlog⟩

theorem Tries.of_poisoned {r : Server P × Except ServerError α} (h : Tries s r)
    (hp : s.poisoned = true) : ∃ e, r.2 = .error e := by
  cases h with
  | stopped challenges e => exact ⟨e, rfl⟩
  | transacts challenges specs fault f =>
    refine ⟨.poisoned, returning_error.mpr ?_⟩
    rw [transact_poisoned (s := { s with challenges := challenges }) hp]

theorem tries_transact (specs : List Spec) (fault : Option Fault) (f : List ContentId → α) :
    Tries s (Server.returning f (s.transact specs fault)) :=
  .transacts s.challenges specs fault f

theorem tries_error (e : ServerError) : Tries s ((s, .error e) : Server P × Except _ α) :=
  .stopped s.challenges e

theorem enrollFinish_tries (challenge : PossessionChallenge) (proof : Signature) (io : Io) :
    Tries s (s.enrollFinish challenge proof io) := by
  rw [enrollFinish]
  split <;> rename_i heq <;> obtain rfl := congrArg Prod.fst heq
  · exact .stopped ..
  · exact .stopped ..
  · refine .after_held (s.challenges.erase challenge.nonce) ?_
    rw [startSession]
    split
    · exact .stopped ..
    · exact tries_transact ..

theorem renewFinish_tries (challenge : PossessionChallenge) (proof : Signature) (io : Io) :
    Tries s (s.renewFinish challenge proof io) := by
  rw [renewFinish]
  split <;> rename_i heq <;> obtain rfl := congrArg Prod.fst heq
  · exact .stopped ..
  · exact .stopped ..
  · split
    · exact .stopped ..
    · split
      · exact .stopped ..
      · refine .after_held (s.challenges.erase challenge.nonce) ?_
        rw [renewSession]
        split
        · exact .stopped ..
        · exact tries_transact ..

theorem endSession_tries (session : String) (reason : EndReason) (io : Io) :
    Tries s (s.endSession session reason io) := by
  rw [endSession]
  split
  · exact tries_error _
  · exact tries_transact ..

theorem handoff_tries (approval : MerkleNode HandoffApproval) (sig : Assertion) (io : Io) :
    Tries s (s.handoff approval sig io) := by
  rw [handoff]
  split
  · exact tries_transact ..
  · exact tries_error _

/-! ### Admission -/

theorem refuseEvent_unchanged (node : MerkleNode Event) (why : Refusal) (io : Io) :
    Unchanged s (s.refuseEvent node why io).1 ∧ ∃ e, (s.refuseEvent node why io).2 = .error e := by
  rw [refuseEvent, recordRefusal]
  cases ha : s.refusalLog.append P.refusalCodec (.sign s.key s.refusalPrev
      ⟨P.eventId node, node.payload.author, why, s.admitted⟩) io.refusalFault with
  | mk log r =>
    cases r with
    | ok u => exact ⟨⟨rfl, rfl, .inl rfl⟩, _, rfl⟩
    | error e => exact ⟨⟨rfl, rfl, .inl rfl⟩, _, rfl⟩

/-- **An event that is not admitted changes nothing**, whatever the reason. -/
theorem admitNode_failed {node : MerkleNode Event} {sig : Assertion} {io : Io} {e : ServerError}
    (h : (s.admitNode node sig io).2 = .error e) : Unchanged s (s.admitNode node sig io).1 := by
  have hcame := s.admitNode_admission node sig io
  generalize s.admitNode node sig io = r at hcame h ⊢
  cases hcame with
  | givesUp | known => exact .refl s
  | refuses up why => exact (refuseEvent_unchanged node why io).1
  | single | bumped =>
    rw [receive, returning_error] at h
    exact commitFrame_failed h

/-! ### Calls -/

/-- A call that writes is an admission, or gives up, or is one transaction. -/
theorem call_tries {c : Call} (hc : c.writes = true) (io : Io) :
    (∃ node sig, c = .admitNode node sig) ∨ Tries s (s.call c io) := by
  cases c with
  | enrollBegin | renewalChallenges | renewBegin => cases hc
  | admitNode node sig => exact .inl ⟨node, sig, rfl⟩
  | invite member => exact .inr ((tries_transact ..).returning _)
  | enrollFinish challenge proof => exact .inr ((enrollFinish_tries challenge proof io).returning _)
  | endSession session reason => exact .inr ((endSession_tries session reason io).returning _)
  | renewFinish challenge proof => exact .inr ((renewFinish_tries challenge proof io).returning _)
  | registerDevice cert => exact .inr ((tries_transact ..).returning _)
  | replaceRoster members => exact .inr ((tries_transact ..).returning _)
  | setRoots roots => exact .inr ((tries_transact ..).returning _)
  | handoff approval sig => exact .inr ((handoff_tries approval sig io).returning _)

theorem call_failed {c : Call} (hc : c.writes = true) {io : Io} {e : ServerError}
    (h : (s.call c io).2 = .error e) : Unchanged s (s.call c io).1 := by
  rcases call_tries hc io with ⟨node, sig, rfl⟩ | htries
  · exact admitNode_failed (returning_error.mp h)
  · exact htries.failed h

theorem call_of_poisoned (hp : s.poisoned = true) {c : Call} (hc : c.writes = true) (io : Io) :
    ∃ e, (s.call c io).2 = .error e := by
  rcases call_tries hc io with ⟨node, sig, rfl⟩ | htries
  · refine ⟨.poisoned, returning_error.mpr ?_⟩
    rw [admitNode, if_pos hp]
  · exact htries.of_poisoned hp

/-- **A stopped server writes nothing**: only its held challenges change. -/
theorem Does.of_poisoned {s' : Server P} (h : s.Does s') (hp : s.poisoned = true) :
    s' = { s with challenges := s'.challenges } := by
  refine h.invariant (fun t => t = { s with challenges := t.challenges }) ?_ rfl
  intro t t' he ht
  have hpt : t.poisoned = true := by
    rw [ht]
    exact hp
  cases he with
  | held challenges => rw [ht]
  | published up | broken up | refused up | brokenRefusal up =>
    rw [up] at hpt
    cases hpt

end Server

/-- **A failed call changes nothing or stops the server.**  Of every server,
every call that would write and returned an error, for whatever reason, left
board, sessions, chain and journal as they were, and the log too unless the
server has stopped.  Whatever is called on a stopped server, neither log file
changes, and every such call fails. -/
theorem failed_calls (s : Server P) :
    (∀ (c : Call) (io : Io) (e : ServerError), c.writes = true → (s.call c io).2 = .error e →
      (s.call c io).1.st = s.st ∧ (s.call c io).1.journal = s.journal ∧
      ((s.call c io).1.log = s.log ∨ (s.call c io).1.poisoned = true)) ∧
    (s.poisoned = true → ∀ calls : List (Call × Io),
      (s.serve calls).poisoned = true ∧ (s.serve calls).log = s.log ∧
      (s.serve calls).refusalLog = s.refusalLog ∧
      ∀ (c : Call) (io : Io), c.writes = true → ∃ e, ((s.serve calls).call c io).2 = .error e) := by
  refine ⟨fun c io e hc he => ?_, fun hp calls => ?_⟩
  · obtain ⟨hst, hjournal, hlog⟩ := Server.call_failed hc he
    exact ⟨hst, hjournal, hlog⟩
  · have hsame := (s.serve_does calls).of_poisoned hp
    have hpoisoned : (s.serve calls).poisoned = true := by
      rw [hsame]
      exact hp
    refine ⟨hpoisoned, ?_, ?_, fun c io hc => Server.call_of_poisoned hpoisoned hc io⟩
    · rw [hsame]
    · rw [hsame]

set_option maxRecDepth 100000 in
/-- The append of the small flock's `session-start` dies: nothing has changed,
and the server takes no second invite. -/
theorem failed_calls_torn :
    ∃ s t : Server Small.P,
      Server.open_ Small.key Small.signedGenesis ⟨[], []⟩ ⟨[], []⟩ = .ok s ∧
      t = (s.serve Small.enrolledTorn) ∧ t.poisoned = true ∧
      t.st.board.order = (s.serve Small.begun).st.board.order ∧
      ∃ e, (t.call (.invite "w") (Small.drawing 6)).2 = .error e := by
  obtain ⟨s, hopen, hpoisoned, hfails⟩ :
      ∃ s, Server.open_ Small.key Small.signedGenesis ⟨[], []⟩ ⟨[], []⟩ = .ok s ∧
        (s.serve Small.enrolledTorn).poisoned = true ∧
        ((s.serve Small.begun).call (Small.finish 11 ⟨some (.write 5), none, fun _ => 0⟩).1
          ⟨some (.write 5), none, fun _ => 0⟩).2 = .error (.io "injected crash") := by
    decide +kernel
  obtain ⟨hkept, -⟩ := failed_calls (s.serve Small.begun)
  obtain ⟨hst, -, -⟩ := hkept _ _ _ rfl hfails
  refine ⟨s, _, hopen, rfl, hpoisoned, congrArg (fun st => st.board.order) hst, ?_⟩
  obtain ⟨-, hstopped⟩ := failed_calls (s.serve Small.enrolledTorn)
  exact (hstopped hpoisoned []).2.2.2 _ _ rfl

end Flock
