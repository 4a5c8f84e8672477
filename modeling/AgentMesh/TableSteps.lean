/-
What one admitted event does to the session table.

`Sessions.check` guards a server event and `Sessions.observe` records it; they
are separate case analyses over the same bodies.  `TableStep` puts the two
together: one constructor for each body that touches the table, with the
guards its `check` arm established and the table its `observe` arm builds.
Every invariant of the table is proved by cases on this relation and never
unfolds the two functions again.

* `Accepts.tableStep` — every accepted entry takes one of these steps;
* `TableStep.session` — what such a step does to one session;
* `resolve_ok`, `certOk_ok`, `checkHandoff_ok`, `approverOk_ok` — what the
  signer, the certificates and the hand-off arm established.
-/
import AgentMesh.Follower

open Std Mesh

namespace Flock

variable {P : Primitives}

/-! ### Who signed -/

/-- What `resolve` established about a signature, by the class it found. -/
inductive Resolved (P : Primitives) (s : Sessions) (sig : Assertion) (event : ContentId)
    (server : PubKey) (user : UserPublic) (epoch : ℕ) : Signer → Prop where
  | server (key : sig.author.agentPubkey = server)
      (signed : sig.verify P.toCrypto event server epoch = .ok ()) :
      Resolved P s sig event server user epoch
        ⟨sig.author.agentFingerprint P.toCrypto, .server⟩
  | device (key : sig.author.agentPubkey ≠ server) (issued : sig.author.issuedByUser = true)
      (registered : P.certCid sig.author ∈ s.chains)
      (signed : sig.verifyUser P.toCrypto event user epoch = .ok ()) :
      Resolved P s sig event server user epoch
        ⟨sig.author.agentFingerprint P.toCrypto, .operator⟩
  | session (x : Session) (key : sig.author.agentPubkey ≠ server)
      (issued : sig.author.issuedByUser = false)
      (known : s.sessions[(sig.author.agentFingerprint P.toCrypto).hex P.toCrypto]? = some x)
      (live : x.status ≠ .ended) (recorded : P.certCid sig.author ∈ x.certs)
      (signed : sig.verify P.toCrypto event server epoch = .ok ()) :
      Resolved P s sig event server user epoch
        ⟨sig.author.agentFingerprint P.toCrypto, .session x.member (decide (x.status = .pending))⟩

theorem resolve_ok {s : Sessions} {sig : Assertion} {event : ContentId} {server : PubKey}
    {user : UserPublic} {epoch : ℕ} {signer : Signer}
    (h : s.resolve P sig event server user epoch = .ok signer) :
    Resolved P s sig event server user epoch signer := by
  rw [Sessions.resolve] at h
  split at h
  · rename_i hkey
    simp only [bind_ok, mapError_ok, pure, Except.pure, Except.ok.injEq] at h
    obtain ⟨_, hsig, rfl⟩ := h
    exact .server hkey hsig
  · rename_i hkey
    split at h
    · rename_i hissued
      simp only [bind_ok, ensure_ok, mapError_ok, pure, Except.pure, Except.ok.injEq] at h
      obtain ⟨_, hreg, _, hsig, rfl⟩ := h
      exact .device hkey hissued hreg hsig
    · rename_i hissued
      simp only [bind_ok, ensure_ok, okOr_ok, mapError_ok, pure, Except.pure,
        Except.ok.injEq] at h
      obtain ⟨x, hx, _, hlive, _, hrec, _, hsig, rfl⟩ := h
      exact .session x hkey (by simpa using hissued) hx hlive hrec hsig

/-! ### The guards of a hand-off -/

/-- Who signed a hand-off approval, and what that allows.  The two ways are an
operator device the roster lists, for a shepherd or the delegate, and an
active shepherd session, for a helper that is not the delegate. -/
inductive Approver (P : Primitives) (st : State) (member : Member) (apId : ContentId)
    (sig : Assertion) (epoch : ℕ) : Prop where
  | device (operator : Member) (listed : operator ∈ st.board.members)
      (role : operator.role = .operator)
      (device : sig.author.agentFingerprint P.toCrypto ∈ operator.devices)
      (signed : sig.verifyUser P.toCrypto apId st.chain.user epoch = .ok ())
      (moved : member.delegate = true ∨ member.role = .shepherd)
  | shepherd (fp : Fingerprint) (approver : Member) (name : String)
      (resolved : st.sessions.resolve P sig apId st.chain.serverPub st.chain.user epoch =
        .ok ⟨fp, .session name false⟩)
      (found : (st.board.members.find? fun m => decide (m.name = name)) = some approver)
      (role : approver.role = .shepherd) (moved : member.role = .helper)
      (notDelegate : member.delegate = false)

theorem approverOk_ok {st : State} {member : Member} {apId : ContentId} {sig : Assertion}
    {epoch : ℕ} {u : Unit}
    (h : st.sessions.approverOk P member st.board apId sig st.chain epoch = .ok u) :
    Approver P st member apId sig epoch := by
  rw [Sessions.approverOk] at h
  split at h
  · simp only [bind_ok, ensure_ok, mapError_ok, List.any_eq_true, Bool.and_eq_true,
      decide_eq_true_eq] at h
    obtain ⟨_, ⟨m, hm, hrole, hdev⟩, _, hsig, hmoved⟩ := h
    exact .device m hm hrole hdev hsig hmoved
  · simp only [bind_ok, ensure_ok] at h
    obtain ⟨_, hdel, ⟨fp, cls⟩, hres, h⟩ := h
    split at h
    · rename_i name hcls
      cases hcls
      obtain ⟨hrole, hhelper⟩ := ensure_ok.mp h
      obtain ⟨m, hm, hmr⟩ := Option.map_eq_some_iff.mp hrole
      exact .shepherd fp m name hres hm hmr hhelper hdel
    · cases h

/-- What the hand-off arm of `check` established. -/
structure HandoffOk (P : Primitives) (st : State) (ev : Event) (epoch : ℕ) (from_ to_ : String)
    (resume : ContentId) (context : Option FileRef) (approval : MerkleNode HandoffApproval)
    (approvalSig : Assertion) (f t : Session) : Prop where
  parents : approval.parents = ∅
  flock : approval.payload.flock = st.board.flock
  bound : approval.payload.from_ = from_ ∧ approval.payload.to_ = to_ ∧
    approval.payload.resume = resume ∧ approval.payload.context = context
  cited : approval.payload.context ≠ none
  unused : P.approvalId approval ∉ st.sessions.approvals
  fromKnown : st.sessions.sessions[from_]? = some f
  toKnown : st.sessions.sessions[to_]? = some t
  fromMember : f.member = approval.payload.member
  toMember : t.member = approval.payload.member
  holder : st.sessions.holders[approval.payload.member]? = some from_
  pending : t.status = .pending
  resumes : resume = (st.board.headOf from_).getD f.start
  refs : ev.refs.toList = [("from", f.start), ("resume", resume), ("to", t.start)]
  approved : ∃ member, (st.board.members.find? fun m =>
      decide (m.name = approval.payload.member)) = some member ∧
    Approver P st member (P.approvalId approval) approvalSig epoch

theorem checkHandoff_ok {st : State} {ev : Event} {epoch : ℕ} {from_ to_ : String}
    {resume : ContentId} {context : Option FileRef} {approval : MerkleNode HandoffApproval}
    {approvalSig : Assertion} {u : Unit}
    (h : st.sessions.checkHandoff P st.board ev epoch st.chain from_ to_ resume context approval
      approvalSig = .ok u) :
    ∃ f t, HandoffOk P st ev epoch from_ to_ resume context approval approvalSig f t := by
  simp only [Sessions.checkHandoff, bind_ok, ensure_ok, okOr_ok, refsAre, Prod.mk.injEq] at h
  obtain ⟨_, ⟨h1, h2⟩, _, ⟨h3, h4, h5, h6⟩, _, h7, _, h8, f, h9, t, h10, _, ⟨h11, h12⟩, _, h13, _,
    h14, _, h15, _, h16, m, h17, h18⟩ := h
  exact ⟨f, t, h1, h2, ⟨h3, h4, h5, h6⟩, h7, h8, h9, h10, h11, h12, h13, h14, h15, h16, m, h17,
    approverOk_ok h18⟩

/-! ### Certificates -/

/-- A certificate the server issued to a session, bounded to one epoch. -/
structure SessionCert (P : Primitives) (cert : CertChain) (session : String) (epoch : ℕ)
    (server : PubKey) : Prop where
  subject : (cert.agentFingerprint P.toCrypto).hex P.toCrypto = session
  verifies : cert.verifyAt P.toCrypto epoch = .ok ()
  issuer : ∃ parent, cert.issuer = .agent server parent
  caveats : cert.metadata.caveats = bounded epoch

theorem certOk_ok {cert : CertChain} {session : String} {epoch : ℕ} {server : PubKey} {u : Unit} :
    certOk P cert session epoch server = .ok u ↔ SessionCert P cert session epoch server := by
  have hissuer : ∀ {u : Unit}, issuedByServer cert server = .ok u ↔
      ∃ parent, cert.issuer = .agent server parent := by
    intro u
    rw [issuedByServer]
    cases cert.issuer with
    | user v => exact ⟨fun h => (nomatch h), fun ⟨_, h⟩ => (nomatch h)⟩
    | agent pk parent =>
      rw [ensure_ok]
      exact ⟨fun h => ⟨parent, by rw [h]⟩, fun ⟨_, h⟩ => by cases h; rfl⟩
  simp only [certOk, bind_ok, ensure_ok, mapError_ok, hissuer]
  constructor
  · rintro ⟨_, h1, _, h2, _, h3, h4⟩
    exact ⟨h1, h2, h3, h4⟩
  · rintro ⟨h1, h2, h3, h4⟩
    exact ⟨(), h1, (), h2, (), h3, h4⟩

theorem issuedByFlockUser_ok {cert : CertChain} {user : UserPublic} {u : Unit} :
    issuedByFlockUser cert user = .ok u ↔ cert.issuer = .user user := by
  rw [issuedByFlockUser]
  cases cert.issuer with
  | user v =>
    rw [ensure_ok, Issuer.user.injEq]
  | agent pk parent => exact ⟨fun h => (nomatch h), fun h => (nomatch h)⟩

theorem liveSession_ok {s : Sessions} {session : String} {x : Session} :
    s.liveSession session = .ok x ↔ s.sessions[session]? = some x ∧ x.status ≠ .ended := by
  rw [Sessions.liveSession, okOr_ok, Option.filter_eq_some_iff, decide_eq_true_eq]

theorem Sessions.mem_live {s : Sessions} {p : String × PubKey × ℕ} :
    p ∈ s.live ↔
      ∃ x, s.sessions[p.1]? = some x ∧ x.status ≠ .ended ∧ p.2 = (x.pubkey, x.epoch) := by
  obtain ⟨b, k, e⟩ := p
  simp only [Sessions.live, List.mem_map, List.mem_filter, decide_eq_true_eq, Prod.exists,
    ExtTreeMap.mem_toList_iff_getElem?_eq_some, Prod.mk.injEq]
  constructor
  · rintro ⟨c, x, ⟨hx, hs⟩, rfl, rfl, rfl⟩
    exact ⟨x, hx, hs, rfl, rfl⟩
  · rintro ⟨x, hx, hs, rfl, rfl⟩
    exact ⟨b, x, ⟨hx, hs⟩, rfl, rfl, rfl⟩

/-! ### The steps -/

/-- A body that leaves the table alone. -/
def Body.offTable : Body → Bool
  | .invite .. | .sessionStart .. | .sessionEnd .. | .handoff .. | .renewal .. | .deviceCert .. =>
    false
  | _ => true

/-- The session a `session-start` creates: the member's first is active. -/
def Sessions.enrolled (s : Sessions) (P : Primitives) (id : ContentId) (member : String)
    (cert : CertChain) (epoch : ℕ) : Session where
  member := member
  pubkey := cert.agentPubkey
  start := id
  status := if member ∉ s.seen then .active else .pending
  certs := {P.certCid cert}
  epoch := epoch
  activatedBy := none

def Sessions.withInvite (s : Sessions) (id : ContentId) (member : String)
    (verifier : RawContentId) : Sessions :=
  { s with
    verifiers := s.verifiers.insert verifier id
    invites := s.invites.insert id ⟨member, false⟩ }

/-- The table with a new session, whose invite is consumed. -/
def Sessions.withStart (s : Sessions) (P : Primitives) (id inv : ContentId)
    (member session : String) (cert : CertChain) (epoch : ℕ) : Sessions :=
  { s with
    invites := s.invites.modify inv fun x => { x with consumed := true }
    seen := insert member s.seen
    holders := if member ∉ s.seen then s.holders.insert member session else s.holders
    chains := s.chains.insert (P.certCid cert) cert
    sessions := s.sessions.insert session (s.enrolled P id member cert epoch) }

def Sessions.withEnd (s : Sessions) (session : String) (x : Session) : Sessions :=
  { s with sessions := s.sessions.insert session { x with status := .ended } }

/-- The table with a new certificate for session `x`. -/
def Sessions.withRenewal (s : Sessions) (P : Primitives) (session : String) (x : Session)
    (cert : CertChain) (epoch : ℕ) : Sessions :=
  { s with
    chains := s.chains.insert (P.certCid cert) cert
    sessions := s.sessions.insert session
      { x with certs := insert (P.certCid cert) x.certs, epoch := epoch } }

/-- The table with a registered device certificate. -/
def Sessions.withDevice (s : Sessions) (P : Primitives) (cert : CertChain) : Sessions :=
  { s with chains := s.chains.insert (P.certCid cert) cert }

/-- The table after a hand-off from session `f` to session `t`. -/
def Sessions.withHandoff (s : Sessions) (P : Primitives) (id : ContentId) (from_ to_ : String)
    (f t : Session) (approval : MerkleNode HandoffApproval) : Sessions :=
  { s with
    approvals := insert (P.approvalId approval) s.approvals
    sessions := (s.sessions.insert from_ { f with status := .ended }).insert to_
      { t with status := .active, activatedBy := some id }
    holders := s.holders.insert t.member to_ }

/-- One step of the table: guards and result for each body that touches it. -/
inductive TableStep (P : Primitives) (st : State) (id : ContentId) (ev : Event) (epoch : ℕ) :
    Sessions → Prop where
  | invite (member : String) (verifier : RawContentId) (body : ev.body = .invite member verifier)
      (listed : ∃ m ∈ st.board.members, m.name = member)
      (unused : verifier ∉ st.sessions.verifiers) :
      TableStep P st id ev epoch (st.sessions.withInvite id member verifier)
  | start (member session : String) (cert : CertChain) (inv : ContentId)
      (body : ev.body = .sessionStart member session cert)
      (cites : ev.refs["invite"]? = some inv)
      (known : st.sessions.invites[inv]? = some ⟨member, false⟩)
      (fresh : session ∉ st.sessions.sessions)
      (certified : SessionCert P cert session epoch st.chain.serverPub) :
      TableStep P st id ev epoch (st.sessions.withStart P id inv member session cert epoch)
  | end_ (session : String) (reason : EndReason) (x : Session)
      (body : ev.body = .sessionEnd session reason)
      (known : st.sessions.sessions[session]? = some x) (live : x.status ≠ .ended) :
      TableStep P st id ev epoch (st.sessions.withEnd session x)
  | renewal (session : String) (cert : CertChain) (x : Session)
      (body : ev.body = .renewal session epoch cert)
      (known : st.sessions.sessions[session]? = some x) (live : x.status ≠ .ended)
      (behind : x.epoch < epoch)
      (certified : SessionCert P cert session epoch st.chain.serverPub) :
      TableStep P st id ev epoch (st.sessions.withRenewal P session x cert epoch)
  | device (cert : CertChain) (body : ev.body = .deviceCert cert)
      (issuer : cert.issuer = .user st.chain.user)
      (notServer : cert.agentPubkey ≠ st.chain.serverPub)
      (fresh : P.certCid cert ∉ st.sessions.chains) :
      TableStep P st id ev epoch (st.sessions.withDevice P cert)
  | handoff (from_ to_ : String) (resume : ContentId) (context : Option FileRef)
      (approval : MerkleNode HandoffApproval) (approvalSig : Assertion) (f t : Session)
      (body : ev.body = .handoff from_ to_ resume context approval approvalSig)
      (ok : HandoffOk P st ev epoch from_ to_ resume context approval approvalSig f t) :
      TableStep P st id ev epoch (st.sessions.withHandoff P id from_ to_ f t approval)
  | other (body : ev.body.offTable = true) : TableStep P st id ev epoch st.sessions

/-! ### The step of a given body -/

section Inversion

variable {st : State} {id : ContentId} {ev : Event} {epoch : ℕ} {s' : Sessions}

theorem TableStep.of_invite {member : String} {verifier : RawContentId}
    (h : TableStep P st id ev epoch s') (hb : ev.body = .invite member verifier) :
    (∃ m ∈ st.board.members, m.name = member) ∧ verifier ∉ st.sessions.verifiers ∧
      s' = st.sessions.withInvite id member verifier := by
  cases h with
  | invite _ _ body listed unused =>
    rw [body] at hb
    cases hb
    exact ⟨listed, unused, rfl⟩
  | other body =>
    rw [hb] at body
    cases body
  | start _ _ _ _ body | end_ _ _ _ body | renewal _ _ _ body | device _ body
  | handoff _ _ _ _ _ _ _ _ body =>
    rw [body] at hb
    cases hb

theorem TableStep.of_start {member session : String} {cert : CertChain}
    (h : TableStep P st id ev epoch s') (hb : ev.body = .sessionStart member session cert) :
    ∃ inv, ev.refs["invite"]? = some inv ∧ st.sessions.invites[inv]? = some ⟨member, false⟩ ∧
      session ∉ st.sessions.sessions ∧ SessionCert P cert session epoch st.chain.serverPub ∧
      s' = st.sessions.withStart P id inv member session cert epoch := by
  cases h with
  | start _ _ _ inv body cites known fresh certified =>
    rw [body] at hb
    cases hb
    exact ⟨inv, cites, known, fresh, certified, rfl⟩
  | other body =>
    rw [hb] at body
    cases body
  | invite _ _ body | end_ _ _ _ body | renewal _ _ _ body | device _ body
  | handoff _ _ _ _ _ _ _ _ body =>
    rw [body] at hb
    cases hb

theorem TableStep.of_end {session : String} {reason : EndReason}
    (h : TableStep P st id ev epoch s') (hb : ev.body = .sessionEnd session reason) :
    ∃ x, st.sessions.sessions[session]? = some x ∧ x.status ≠ .ended ∧
      s' = st.sessions.withEnd session x := by
  cases h with
  | end_ _ _ x body known live =>
    rw [body] at hb
    cases hb
    exact ⟨x, known, live, rfl⟩
  | other body =>
    rw [hb] at body
    cases body
  | invite _ _ body | start _ _ _ _ body | renewal _ _ _ body | device _ body
  | handoff _ _ _ _ _ _ _ _ body =>
    rw [body] at hb
    cases hb

theorem TableStep.of_renewal {session : String} {e : ℕ} {cert : CertChain}
    (h : TableStep P st id ev epoch s') (hb : ev.body = .renewal session e cert) :
    e = epoch ∧ ∃ x, st.sessions.sessions[session]? = some x ∧ x.status ≠ .ended ∧
      x.epoch < epoch ∧ SessionCert P cert session epoch st.chain.serverPub ∧
      s' = st.sessions.withRenewal P session x cert epoch := by
  cases h with
  | renewal _ _ x body known live behind certified =>
    rw [body] at hb
    cases hb
    exact ⟨rfl, x, known, live, behind, certified, rfl⟩
  | other body =>
    rw [hb] at body
    cases body
  | invite _ _ body | start _ _ _ _ body | end_ _ _ _ body | device _ body
  | handoff _ _ _ _ _ _ _ _ body =>
    rw [body] at hb
    cases hb

theorem TableStep.of_handoff {from_ to_ : String} {resume : ContentId} {context : Option FileRef}
    {approval : MerkleNode HandoffApproval} {approvalSig : Assertion}
    (h : TableStep P st id ev epoch s')
    (hb : ev.body = .handoff from_ to_ resume context approval approvalSig) :
    ∃ f t, HandoffOk P st ev epoch from_ to_ resume context approval approvalSig f t ∧
      s' = st.sessions.withHandoff P id from_ to_ f t approval := by
  cases h with
  | handoff _ _ _ _ _ _ f t body ok =>
    rw [body] at hb
    cases hb
    exact ⟨f, t, ok, rfl⟩
  | other body =>
    rw [hb] at body
    cases body
  | invite _ _ body | start _ _ _ _ body | end_ _ _ _ body | renewal _ _ _ body
  | device _ body =>
    rw [body] at hb
    cases hb

end Inversion

/-! ### One session of the table -/

/-- What a step of the table does to its record of session `a`. -/
inductive SessionStep (P : Primitives) (st : State) (id : ContentId) (ev : Event) (epoch : ℕ)
    (a : String) : Option Session → Option Session → Prop where
  | same {x : Option Session} (away : ∀ from_ resume context approval sig,
      ev.body ≠ .handoff from_ a resume context approval sig) : SessionStep P st id ev epoch a x x
  | started (member : String) (cert : CertChain) (body : ev.body = .sessionStart member a cert)
      (certified : SessionCert P cert a epoch st.chain.serverPub) :
      SessionStep P st id ev epoch a none (some (st.sessions.enrolled P id member cert epoch))
  | ended (x : Session) (reason : EndReason) (body : ev.body = .sessionEnd a reason) :
      SessionStep P st id ev epoch a (some x) (some { x with status := .ended })
  | renewed (x : Session) (cert : CertChain) (body : ev.body = .renewal a epoch cert)
      (behind : x.epoch < epoch) (certified : SessionCert P cert a epoch st.chain.serverPub) :
      SessionStep P st id ev epoch a (some x)
        (some { x with certs := insert (P.certCid cert) x.certs, epoch := epoch })
  | handedOff (x : Session) (to_ : String) (resume : ContentId) (context : Option FileRef)
      (approval : MerkleNode HandoffApproval) (sig : Assertion)
      (body : ev.body = .handoff a to_ resume context approval sig) (away : to_ ≠ a) :
      SessionStep P st id ev epoch a (some x) (some { x with status := .ended })
  | activated (x : Session) (from_ : String) (resume : ContentId) (context : Option FileRef)
      (approval : MerkleNode HandoffApproval) (sig : Assertion)
      (body : ev.body = .handoff from_ a resume context approval sig) :
      SessionStep P st id ev epoch a (some x)
        (some { x with status := .active, activatedBy := some id })

/-- **A step of the table, seen from one session.** -/
theorem TableStep.session {st : State} {id : ContentId} {ev : Event} {epoch : ℕ} {s' : Sessions}
    (h : TableStep P st id ev epoch s') (a : String) :
    SessionStep P st id ev epoch a st.sessions.sessions[a]? s'.sessions[a]? := by
  cases h with
  | invite member verifier body | device cert body =>
    exact .same fun _ _ _ _ _ hbody => by cases body.symm.trans hbody
  | start member session cert inv body cites known fresh certified =>
    rw [Sessions.withStart, BTreeMap.get_insert]
    split
    · rename_i hs
      subst hs
      rw [ExtTreeMap.getElem?_eq_none fresh]
      exact .started member cert body certified
    · exact .same fun _ _ _ _ _ hbody => by cases body.symm.trans hbody
  | end_ session reason x body known live =>
    rw [Sessions.withEnd, BTreeMap.get_insert]
    split
    · rename_i hs
      subst hs
      rw [known]
      exact .ended x reason body
    · exact .same fun _ _ _ _ _ hbody => by cases body.symm.trans hbody
  | renewal session cert x body known live behind certified =>
    rw [Sessions.withRenewal, BTreeMap.get_insert]
    split
    · rename_i hs
      subst hs
      rw [known]
      exact .renewed x cert body behind certified
    · exact .same fun _ _ _ _ _ hbody => by cases body.symm.trans hbody
  | handoff from_ to_ resume context approval sig f t body ok =>
    rw [Sessions.withHandoff, BTreeMap.get_insert, BTreeMap.get_insert]
    by_cases hto : to_ = a
    · subst hto
      rw [if_pos rfl, ok.toKnown]
      exact .activated t from_ resume context approval sig body
    · rw [if_neg hto]
      split
      · rename_i hs
        subst hs
        rw [ok.fromKnown]
        exact .handedOff f to_ resume context approval sig body hto
      · refine .same fun from' resume' context' approval' sig' hbody => ?_
        rw [body] at hbody
        cases hbody
        exact hto rfl
  | other body =>
    refine .same fun from_ resume context approval sig hbody => ?_
    rw [hbody] at body
    cases body

theorem modify_known {K V : Type} [Ord K] [TransOrd K] [LawfulEqOrd K] [DecidableEq K]
    {m : BTreeMap K V} {k : K} {v : V} (h : m[k]? = some v) (f : V → V) :
    m.modify k f = m.insert k (f v) := by
  refine ExtTreeMap.ext_getElem? fun l => ?_
  rw [BTreeMap.get_modify, BTreeMap.get_insert]
  by_cases hkl : k = l
  · subst hkl
    rw [if_pos rfl, if_pos rfl, h]
    rfl
  · rw [if_neg hkl, if_neg hkl]

theorem observe_handoff {s : Sessions} {id : ContentId} {ev : Event} {epoch : ℕ}
    {from_ to_ : String} {resume : ContentId} {context : Option FileRef}
    {approval : MerkleNode HandoffApproval} {approvalSig : Assertion} {f t : Session}
    (hb : ev.body = .handoff from_ to_ resume context approval approvalSig)
    (hf : s.sessions[from_]? = some f) (ht : s.sessions[to_]? = some t) :
    s.observe P id ev epoch = s.withHandoff P id from_ to_ f t approval := by
  rw [Sessions.observe, hb]
  -- the record of `to_` once `from_` has ended: its own, or `from_`'s when they coincide
  have hto : ∃ t', (s.sessions.insert from_ { f with status := .ended })[to_]? = some t' ∧
      t'.member = t.member ∧
      ({ t' with status := .active, activatedBy := some id } : Session) =
        { t with status := .active, activatedBy := some id } := by
    rw [BTreeMap.get_insert]
    by_cases hft : from_ = to_
    · subst hft
      rw [hf] at ht
      cases ht
      exact ⟨_, if_pos rfl, rfl, rfl⟩
    · exact ⟨t, by rw [if_neg hft, ht], rfl, rfl⟩
  obtain ⟨t', ht', hmem, hrec⟩ := hto
  simp only [modify_known hf, modify_known ht', ht', hrec]
  rw [hmem]
  rfl

/-- **Every accepted event takes one step of the table.** -/
theorem tableStep_of_checked {st : State} {id : ContentId} {ev : Event} {epoch : ℕ}
    (h : st.sessions.check P st.board ev epoch st.chain = .ok ()) :
    TableStep P st id ev epoch (st.sessions.observe P id ev epoch) := by
  rw [Sessions.check] at h
  cases hb : ev.body with
  | invite member verifier =>
    simp only [hb, bind_ok, ensure_ok, List.any_eq_true, decide_eq_true_eq] at h
    obtain ⟨_, hm, _, -, hv⟩ := h
    rw [Sessions.observe, hb]
    exact .invite member verifier hb hm hv
  | sessionStart member session cert =>
    simp only [hb, bind_ok, ensure_ok, okOr_ok, Option.bind_eq_some_iff, Option.map_eq_some_iff,
      certOk_ok] at h
    obtain ⟨⟨i, inv⟩, ⟨i', hi, inv', hinv, hp⟩, _, -, _, hcons, _, hmem, _, hfresh, hcert⟩ := h
    cases hp
    have hknown : st.sessions.invites[i]? = some ⟨member, false⟩ := by
      rw [hinv, ← hcons, ← hmem]
    rw [Sessions.observe, hb]
    simp only [hi, decide_eq_true_eq]
    exact .start member session cert i hb hi hknown hfresh hcert
  | sessionEnd session reason =>
    simp only [hb, bind_ok, liveSession_ok] at h
    obtain ⟨x, ⟨hx, hlive⟩, -⟩ := h
    rw [Sessions.observe, hb]
    simp only [modify_known hx]
    exact .end_ session reason x hb hx hlive
  | renewal session e cert =>
    simp only [hb, bind_ok, liveSession_ok, ensure_ok, certOk_ok] at h
    obtain ⟨x, ⟨hx, hlive⟩, _, -, _, rfl, _, hbehind, hcert⟩ := h
    rw [Sessions.observe, hb]
    simp only [hx, modify_known hx]
    exact .renewal session cert x hb hx hlive hbehind hcert
  | deviceCert cert =>
    simp only [hb, bind_ok, ensure_ok, issuedByFlockUser_ok] at h
    obtain ⟨_, -, _, hissuer, _, hserver, _, -, hfresh⟩ := h
    rw [Sessions.observe, hb]
    exact .device cert hb hissuer hserver hfresh
  | handoff from_ to_ resume context approval approvalSig =>
    simp only [hb] at h
    obtain ⟨f, t, hok⟩ := checkHandoff_ok h
    rw [observe_handoff hb hok.fromKnown hok.toKnown]
    exact .handoff from_ to_ resume context approval approvalSig f t hb hok
  | _ =>
    have hobs : st.sessions.observe P id ev epoch = st.sessions := by rw [Sessions.observe, hb]
    rw [hobs]
    exact .other (by rw [hb]; rfl)

theorem State.Accepts.tableStep {st : State} {s : Sealed} {cert : CertChain} {signer : Signer}
    {conflict : Option ConflictKind} (h : st.Accepts P s cert signer conflict) :
    TableStep P st (P.eventId s.event) s.event.payload s.record.payload.epoch
      (st.after P s signer conflict).sessions :=
  tableStep_of_checked h.vetted.checked

end Flock
