/-
What the server does with challenges.

A begin call issues challenges and holds them with what they are for; a finish
call consumes one before anything else is decided.

* `Server.call_issues`, `Server.call_answers` — what each call does to the held
  challenges, and what it hands out;
* `Server.enrollFinish_ok`, `Server.renewFinish_ok` — what a finish that
  succeeded found;
* `Server.issues_enroll`, `Server.issues_renew` — what an issued challenge is
  for;
* `Server.HoldsOwn.call` — a server holds challenges of its own key only.
-/
import AgentMesh.Effects

open Std Mesh Framing

namespace Flock

variable {P : Primitives}

/-! ### What a call issues -/

def hold (challenges : BTreeMap (BitVec 256) Held) (h : Held) : BTreeMap (BitVec 256) Held :=
  challenges.insert h.challenge.nonce h

/-- The renewal challenges for the sessions due, each with the next nonce. -/
def renewals (key : AgentKey P.toCrypto) (epoch : ℕ) (rand : ℕ → BitVec 256) :
    ℕ → List (String × PubKey) → List Held
  | _, [] => []
  | i, (session, pubkey) :: due =>
    ⟨key.possessionChallenge pubkey (rand i), .renew session epoch⟩ ::
      renewals key epoch rand (i + 1) due

/-- The challenges a call issues, with what each is for. -/
def Server.issues (s : Server P) (io : Io) : Call → List Held
  | .enrollBegin token member pubkey =>
    match s.enrollable token member pubkey with
    | .ok invite => [⟨s.key.possessionChallenge pubkey (io.rand 0), .enroll invite⟩]
    | .error _ => []
  | .renewBegin last =>
    match s.renewable last with
    | .ok info => [⟨s.key.possessionChallenge info.pubkey (io.rand 0),
        .renew ((last.agentFingerprint P.toCrypto).hex P.toCrypto) s.st.chain.epoch⟩]
    | .error _ => []
  | .renewalChallenges => renewals s.key s.st.chain.epoch io.rand 0 s.due
  | _ => []

/-- The challenge a finish call answers. -/
def Call.answers : Call → Option PossessionChallenge
  | .enrollFinish challenge _ | .renewFinish challenge _ => some challenge
  | _ => none

def Reply.handsOut : Reply → List PossessionChallenge
  | .challenge c => [c]
  | .challenges cs => cs.map (·.2)
  | _ => []

theorem get_hold_some {held : List Held} {m : BTreeMap (BitVec 256) Held} {n : BitVec 256}
    {h : Held} (hn : (held.foldl hold m)[n]? = some h) :
    m[n]? = some h ∨ h ∈ held ∧ h.challenge.nonce = n := by
  induction held generalizing m with
  | nil => exact .inl hn
  | cons x held ih =>
    rcases ih hn with hm | ⟨hmem, hnonce⟩
    · rw [hold, BTreeMap.get_insert] at hm
      split at hm
      · rename_i hx
        cases hm
        exact .inr ⟨List.mem_cons_self, hx⟩
      · exact .inl hm
    · exact .inr ⟨List.mem_cons_of_mem _ hmem, hnonce⟩

/-! ### Calls that leave the challenges alone -/

namespace Server

section Frame

variable {s : Server P}

theorem commitFrame_challenges (sealed : List Sealed) (next : State) (fault : Option Fault) :
    (s.commitFrame sealed next fault).1.challenges = s.challenges := by
  rw [commitFrame, append]
  cases s.log.append P.frameCodec ⟨sealed⟩ fault with
  | mk log r => cases r <;> rfl

theorem refuseEvent_challenges (node : MerkleNode Event) (why : Refusal) (io : Io) :
    (s.refuseEvent node why io).1.challenges = s.challenges := by
  rw [refuseEvent, recordRefusal]
  cases s.refusalLog.append P.refusalCodec _ io.refusalFault with
  | mk log r => cases r <;> rfl

theorem transact_challenges (specs : List Spec) (fault : Option Fault) :
    (s.transact specs fault).1.challenges = s.challenges := by
  rw [transact]
  split
  · rfl
  · split
    · rfl
    · split
      · exact commitFrame_challenges ..
      · rfl

theorem admitNode_challenges (node : MerkleNode Event) (sig : Assertion) (io : Io) :
    (s.admitNode node sig io).1.challenges = s.challenges := by
  have hcame := s.admitNode_admission node sig io
  generalize s.admitNode node sig io = r at hcame ⊢
  cases hcame with
  | givesUp | known => rfl
  | refuses => exact refuseEvent_challenges ..
  | single | bumped => exact commitFrame_challenges ..

end Frame

/-! ### Begin and finish -/

theorem issueAll_issues (epoch : ℕ) (rand : ℕ → BitVec 256) (due : List (String × PubKey)) :
    ∀ (s : Server P) (i : ℕ),
      (issueAll epoch rand s i due).1.challenges =
        (renewals s.key epoch rand i due).foldl hold s.challenges ∧
      (issueAll epoch rand s i due).2.map (·.2) =
        (renewals s.key epoch rand i due).map (·.challenge) := by
  induction due with
  | nil => exact fun s i => ⟨rfl, rfl⟩
  | cons d due ih =>
    intro s i
    obtain ⟨hheld, hout⟩ := ih (s.issue d.2 (.renew d.1 epoch) (rand i)).1 (i + 1)
    exact ⟨hheld, congrArg (List.cons _) hout⟩

/-- The challenges the result of a call hands out. -/
def handedOut (r : Except ServerError Reply) : List PossessionChallenge :=
  match r with
  | .ok reply => reply.handsOut
  | .error _ => []

theorem handedOut_returning {α : Type} {f : α → Reply} (hf : ∀ a, (f a).handsOut = [])
    (r : Server P × Except ServerError α) : handedOut (returning f r).2 = [] := by
  obtain ⟨s, r⟩ := r
  cases r with
  | ok a => exact hf a
  | error e => rfl

/-- **A call that answers no challenge** holds and hands out what it issues. -/
theorem call_issues (s : Server P) (io : Io) {c : Call} (hc : c.answers = none) :
    (s.call c io).1.challenges = (s.issues io c).foldl hold s.challenges ∧
      handedOut (s.call c io).2 = (s.issues io c).map (·.challenge) := by
  cases c with
  | enrollFinish | renewFinish => cases hc
  | admitNode node sig => exact ⟨admitNode_challenges .., handedOut_returning (fun _ => rfl) _⟩
  | invite | registerDevice | replaceRoster | setRoots =>
    exact ⟨transact_challenges .., handedOut_returning (fun _ => rfl) _⟩
  | endSession session reason =>
    refine ⟨?_, handedOut_returning (fun _ => rfl) _⟩
    rw [call, returning_fst, endSession]
    split
    · rfl
    · exact transact_challenges ..
  | handoff approval sig =>
    refine ⟨?_, handedOut_returning (fun _ => rfl) _⟩
    rw [call, returning_fst, handoff]
    split
    · exact transact_challenges ..
    · rfl
  | enrollBegin token member pubkey =>
    rw [call, issues, enrollBegin]
    cases s.enrollable token member pubkey <;> exact ⟨rfl, rfl⟩
  | renewBegin last =>
    rw [call, issues, renewBegin]
    cases s.renewable last <;> exact ⟨rfl, rfl⟩
  | renewalChallenges => exact issueAll_issues s.st.chain.epoch io.rand s.due s 0

/-- **A call that answers a challenge** consumes it, whatever it returns. -/
theorem call_answers (s : Server P) (io : Io) {c : Call} {challenge : PossessionChallenge}
    (hc : c.answers = some challenge) :
    (s.call c io).1.challenges = s.challenges.erase challenge.nonce ∧ s.issues io c = [] ∧
      handedOut (s.call c io).2 = [] := by
  cases c with
  | enrollFinish challenge' proof =>
    cases hc
    refine ⟨?_, rfl, handedOut_returning (fun _ => rfl) _⟩
    rw [call, returning_fst, enrollFinish]
    split <;> rename_i heq <;> obtain rfl := congrArg Prod.fst heq
    · rfl
    · rfl
    · rw [startSession]
      split
      · rfl
      · exact transact_challenges ..
  | renewFinish challenge' proof =>
    cases hc
    refine ⟨?_, rfl, handedOut_returning (fun _ => rfl) _⟩
    rw [call, returning_fst, renewFinish]
    split <;> rename_i heq <;> obtain rfl := congrArg Prod.fst heq
    · rfl
    · rfl
    · split
      · rfl
      · split
        · rfl
        · rw [renewSession]
          split
          · rfl
          · exact transact_challenges ..
  | _ => cases hc

/-! ### What a finish found -/

section Finish

variable {s : Server P} {challenge : PossessionChallenge} {proof : Signature} {io : Io}

theorem take_ok {purpose : Purpose} {s' : Server P} (h : s.take challenge = (s', .ok purpose)) :
    s.challenges[challenge.nonce]? = some ⟨challenge, purpose⟩ ∧
      s' = { s with challenges := s.challenges.erase challenge.nonce } := by
  rw [take, Prod.mk.injEq] at h
  obtain ⟨hs, h⟩ := h
  refine ⟨?_, hs.symm⟩
  split at h
  · rename_i held hheld
    split at h
    · rename_i hsame
      cases h
      rw [hheld, ← hsame]
    · cases h
  · cases h

theorem certify_ok {member : String} {cert : CertChain}
    (h : s.certify challenge proof member = .ok cert) :
    P.verifyStrict challenge.subjectPubkey challenge.signingBytes proof = true ∧
      cert.agentPubkey = challenge.subjectPubkey := by
  simp only [certify, mapError_ok, AgentKey.delegateExternal, AgentKey.certifyPubkey, bind_ok,
    ensure_ok, pure, Except.pure, Except.ok.injEq] at h
  obtain ⟨_, -, _, hproof, _, -, rfl⟩ := h
  exact ⟨hproof, rfl⟩

theorem enrollFinish_ok {e : Enrolled} (h : (s.enrollFinish challenge proof io).2 = .ok e) :
    ∃ invite, s.challenges[challenge.nonce]? = some ⟨challenge, .enroll invite⟩ ∧
      P.verifyStrict challenge.subjectPubkey challenge.signingBytes proof = true ∧
      e.cert.agentPubkey = challenge.subjectPubkey ∧
      e.session = (Fingerprint.ofBytes P.toCrypto challenge.subjectPubkey).hex P.toCrypto := by
  rw [enrollFinish] at h
  split at h
  · cases h
  · cases h
  · rename_i s' invite htake
    obtain ⟨hheld, rfl⟩ := take_ok htake
    rw [startSession] at h
    split at h
    · cases h
    · rename_i cert hcert
      obtain ⟨hproof, hkey⟩ := certify_ok hcert
      obtain ⟨_, -, rfl⟩ := returning_ok.mp h
      exact ⟨invite, hheld, hproof, hkey, by rw [← hkey]; rfl⟩

theorem renewFinish_ok {cert : CertChain} (h : (s.renewFinish challenge proof io).2 = .ok cert) :
    ∃ session info, s.challenges[challenge.nonce]? =
        some ⟨challenge, .renew session s.st.chain.epoch⟩ ∧
      s.live session = some info ∧
      P.verifyStrict challenge.subjectPubkey challenge.signingBytes proof = true ∧
      cert.agentPubkey = challenge.subjectPubkey := by
  rw [renewFinish] at h
  split at h
  · cases h
  · cases h
  · rename_i s' session epoch htake
    obtain ⟨hheld, rfl⟩ := take_ok htake
    split at h
    · cases h
    · rename_i hepoch
      rw [not_not] at hepoch
      split at h
      · cases h
      · rename_i info hlive
        rw [renewSession] at h
        split at h
        · cases h
        · rename_i cert' hcert
          obtain ⟨hproof, hkey⟩ := certify_ok hcert
          obtain ⟨_, -, rfl⟩ := returning_ok.mp h
          refine ⟨session, info, ?_, hlive, hproof, hkey⟩
          rw [hheld, hepoch]

theorem live_some {session : String} {info : SessionInfo} (h : s.live session = some info) :
    ∃ x, s.st.sessions.sessions[session]? = some x ∧ x.status ≠ .ended ∧
      info.pubkey = x.pubkey := by
  rw [live, Option.filter_eq_some_iff, Sessions.get, Option.map_eq_some_iff] at h
  obtain ⟨⟨x, hx, rfl⟩, hlive⟩ := h
  exact ⟨x, hx, by simpa using hlive, rfl⟩

end Finish

/-! ### What an issued challenge is for -/

theorem mem_renewals {key : AgentKey P.toCrypto} {epoch : ℕ} {rand : ℕ → BitVec 256}
    {due : List (String × PubKey)} {h : Held} :
    ∀ {i : ℕ}, h ∈ renewals key epoch rand i due →
      ∃ session pubkey nonce, (session, pubkey) ∈ due ∧
        h = ⟨key.possessionChallenge pubkey nonce, .renew session epoch⟩ := by
  induction due with
  | nil => exact fun h => nomatch h
  | cons d due ih =>
    intro i hmem
    rcases List.mem_cons.mp hmem with rfl | hmem
    · exact ⟨d.1, d.2, rand i, List.mem_cons_self, rfl⟩
    · obtain ⟨session, pubkey, nonce, hdue, rfl⟩ := ih hmem
      exact ⟨session, pubkey, nonce, List.mem_cons_of_mem _ hdue, rfl⟩

section Issued

variable {s : Server P} {io : Io} {c : Call} {challenge : PossessionChallenge}

theorem issues_enroll {invite : InviteInfo} (h : ⟨challenge, .enroll invite⟩ ∈ s.issues io c) :
    ∃ token member, c = .enrollBegin token member challenge.subjectPubkey := by
  cases c with
  | enrollBegin token member pubkey =>
    rw [issues] at h
    split at h
    · rw [List.mem_singleton, Held.mk.injEq] at h
      exact ⟨token, member, by rw [h.1]; rfl⟩
    · cases h
  | renewBegin last =>
    rw [issues] at h
    split at h
    · rw [List.mem_singleton, Held.mk.injEq] at h
      cases h.2
    · cases h
  | renewalChallenges =>
    obtain ⟨_, _, _, -, h⟩ := mem_renewals h
    rw [Held.mk.injEq] at h
    cases h.2
  | _ => cases h

/-- A renewal challenge was issued to a live session, for its key and the epoch
it was issued in. -/
theorem issues_renew {session : String} {epoch : ℕ}
    (h : ⟨challenge, .renew session epoch⟩ ∈ s.issues io c) :
    epoch = s.st.chain.epoch ∧
      (∃ x, s.st.sessions.sessions[session]? = some x ∧ x.status ≠ .ended ∧
        x.pubkey = challenge.subjectPubkey) ∧
      (c = .renewalChallenges ∨ ∃ last, c = .renewBegin last ∧
        session = (last.agentFingerprint P.toCrypto).hex P.toCrypto) := by
  cases c with
  | enrollBegin token member pubkey =>
    rw [issues] at h
    split at h
    · rw [List.mem_singleton, Held.mk.injEq] at h
      cases h.2
    · cases h
  | renewBegin last =>
    rw [issues] at h
    split at h
    · rename_i info hinfo
      rw [List.mem_singleton, Held.mk.injEq] at h
      obtain ⟨rfl, hpurpose⟩ := h
      cases hpurpose
      simp only [renewable, bind_ok, okOr_ok, ensure_ok, pure, Except.pure,
        Except.ok.injEq] at hinfo
      obtain ⟨info', hlive, _, -, _, -, rfl⟩ := hinfo
      obtain ⟨x, hx, hs, hkey⟩ := live_some hlive
      exact ⟨rfl, ⟨x, hx, hs, hkey.symm⟩, .inr ⟨last, rfl, rfl⟩⟩
    · cases h
  | renewalChallenges =>
    obtain ⟨session', pubkey, nonce, hdue, h⟩ := mem_renewals h
    rw [Held.mk.injEq] at h
    obtain ⟨rfl, hpurpose⟩ := h
    cases hpurpose
    simp only [due, List.mem_map, List.mem_filter] at hdue
    obtain ⟨p, ⟨hp, -⟩, hpair⟩ := hdue
    obtain ⟨x, hx, hs, hkey⟩ := Sessions.mem_live.mp hp
    rw [Prod.mk.injEq] at hpair
    obtain ⟨rfl, rfl⟩ := hpair
    exact ⟨rfl, ⟨x, hx, hs, by rw [hkey]; rfl⟩, .inl rfl⟩
  | _ => cases h

theorem issues_issuer {h : Held} (hmem : h ∈ s.issues io c) :
    h.challenge.issuerPubkey = s.key.cert.agentPubkey := by
  cases c with
  | enrollBegin | renewBegin =>
    rw [issues] at hmem
    split at hmem
    · rw [List.mem_singleton.mp hmem]
      rfl
    · cases hmem
  | renewalChallenges =>
    obtain ⟨_, _, _, -, rfl⟩ := mem_renewals hmem
    rfl
  | _ => cases hmem

end Issued

/-! ### Whose challenges are held -/

/-- Every challenge held names the key `pubkey`. -/
def HoldsOwn (pubkey : PubKey) (s : Server P) : Prop :=
  ∀ (n : BitVec 256) (h : Held), s.challenges[n]? = some h → h.challenge.issuerPubkey = pubkey

theorem HoldsOwn.call {s : Server P} (h : s.HoldsOwn s.key.cert.agentPubkey) (c : Call) (io : Io) :
    (s.call c io).1.HoldsOwn s.key.cert.agentPubkey := by
  intro n held hheld
  cases hc : c.answers with
  | none =>
    rw [(s.call_issues io hc).1] at hheld
    rcases get_hold_some hheld with hold | ⟨hissued, -⟩
    · exact h n held hold
    · exact issues_issuer hissued
  | some challenge =>
    rw [(s.call_answers io hc).1, BTreeMap.get_erase] at hheld
    split at hheld
    · cases hheld
    · exact h n held hheld

end Server

end Flock
