/-
The entry points: invite, enroll, end a session, renew, hand off.

Enrollment and renewal are two calls each: the first mints a possession
challenge and holds it with what it is for, the second consumes it.  Held
challenges are volatile: opening the server forgets them.  `Server.call` is
one call of any kind, and `Server.serve` a sequence of them.
-/
import AgentMesh.Server

open Std Mesh Framing

namespace Flock

/-- A fresh invite.  The token is shown once and never stored. -/
structure Invited where
  token : String
  event : ContentId
  deriving DecidableEq

/-- A session the server has certified. -/
structure Enrolled where
  session : String
  cert : CertChain
  /-- A replacement session: it signs nothing until a hand-off. -/
  pending : Bool
  deriving DecidableEq

variable {P : Primitives}

namespace Server

/-! ### Challenges -/

/-- Mint a challenge for `pubkey` and hold it. -/
def issue (s : Server P) (pubkey : PubKey) (purpose : Purpose) (nonce : BitVec 256) :
    Server P × PossessionChallenge :=
  let challenge := s.key.possessionChallenge pubkey nonce
  ({ s with challenges := s.challenges.insert challenge.nonce ⟨challenge, purpose⟩ }, challenge)

/-- Consume a challenge: it must be exactly one this server issued. -/
def take (s : Server P) (challenge : PossessionChallenge) :
    Server P × Except ServerError Purpose :=
  ({ s with challenges := s.challenges.erase challenge.nonce },
    match s.challenges[challenge.nonce]? with
    | some held =>
      if held.challenge = challenge then .ok held.purpose
      else .error (.session
        "challenge was not issued by this server, or was already used")
    | none => .error (.session "challenge was not issued by this server, or was already used"))

/-- Verify possession and mint a certificate bounded to the current epoch. -/
def certify (s : Server P) (challenge : PossessionChallenge) (proof : Signature)
    (member : String) : Except ServerError CertChain :=
  let server := s.key.cert
  let m : AgentMetadata := {
    role := member
    host := server.metadata.host
    capabilities := []
    issuedAt := server.metadata.issuedAt
    expiresAt := none
    caveats := sessionCaveats s.st.chain.epoch }
  (s.key.delegateExternal challenge proof m).mapError fun e => .session e.text

def live (s : Server P) (session : String) : Option SessionInfo :=
  (s.st.sessions.get session).filter fun i => decide (i.status ≠ .ended)

/-! ### Invites and enrollment -/

/-- Record an invite for `member` and return its token. -/
def invite (s : Server P) (member : String) (io : Io) :
    Server P × Except ServerError Invited :=
  let token := P.hexEncode (io.rand 0)
  returning (fun ids => ⟨token, ids[0]!⟩)
    (s.transact [⟨.invite, [], .invite member (tokenDigest P token)⟩] io.logFault)

/-- What a token allows now: its invite, if it may enroll this key. -/
def enrollable (s : Server P) (token member : String) (pubkey : PubKey) :
    Except ServerError InviteInfo := do
  let invite ← okOr (s.st.sessions.invite (tokenDigest P token)) (.session "unknown invite token")
  ensure (invite.consumed = false) (.session "invite token already consumed")
  ensure (invite.member = member) (.session "invite token is for another member")
  ensure (s.st.sessions.get ((Fingerprint.ofBytes P.toCrypto pubkey).hex P.toCrypto) = none)
    (.session "key already enrolled")
  return invite

/-- A token, the member it claims and the session's public key: mint the
possession challenge, bound to that key. -/
def enrollBegin (s : Server P) (token member : String) (pubkey : PubKey) (io : Io) :
    Server P × Except ServerError PossessionChallenge :=
  match s.enrollable token member pubkey with
  | .error e => (s, .error e)
  | .ok invite =>
    let (s, challenge) := s.issue pubkey (.enroll invite) (io.rand 0)
    (s, .ok challenge)

/-- Certify the key of an enrollment challenge and admit its `session-start`. -/
def startSession (s : Server P) (challenge : PossessionChallenge) (proof : Signature)
    (invite : InviteInfo) (io : Io) : Server P × Except ServerError Enrolled :=
  match s.certify challenge proof invite.member with
  | .error e => (s, .error e)
  | .ok cert =>
    let session := (cert.agentFingerprint P.toCrypto).hex P.toCrypto
    let r := s.transact [⟨.sessionStart, [("invite", invite.event)],
      .sessionStart invite.member session cert⟩] io.logFault
    let pending := match r.1.st.sessions.get session with
      | some i => decide (i.status = .pending)
      | none => false
    returning (fun _ => ⟨session, cert, pending⟩) r

/-- Consume the challenge, certify the key and admit `session-start`, which
consumes the token, in one transaction. -/
def enrollFinish (s : Server P) (challenge : PossessionChallenge) (proof : Signature) (io : Io) :
    Server P × Except ServerError Enrolled :=
  match s.take challenge with
  | (s, .error e) => (s, .error e)
  | (s, .ok (.renew ..)) => (s, .error (.session "challenge was not issued for enrollment"))
  | (s, .ok (.enroll invite)) => s.startSession challenge proof invite io

/-! ### Ending and renewing -/

/-- End `session` and bump the epoch: one frame, one fsync. -/
def endSession (s : Server P) (session : String) (reason : EndReason) (io : Io) :
    Server P × Except ServerError Unit :=
  match s.live session with
  | none => (s, .error (.session "no such live session"))
  | some info =>
    returning (fun _ => ())
      (s.transact [⟨.sessionEnd, [("session", info.start)], .sessionEnd session reason⟩,
        s.st.bumpSpec] io.logFault)

/-- Issue a renewal challenge to each of the sessions due, in order. -/
def issueAll (epoch : ℕ) (rand : ℕ → BitVec 256) :
    Server P → ℕ → List (String × PubKey) → Server P × List (String × PossessionChallenge)
  | s, _, [] => (s, [])
  | s, i, (session, pubkey) :: due =>
    let (s, challenge) := s.issue pubkey (.renew session epoch) (rand i)
    let (s, rest) := issueAll epoch rand s (i + 1) due
    (s, (session, challenge) :: rest)

/-- The live sessions whose certificate is behind the epoch. -/
def due (s : Server P) : List (String × PubKey) :=
  (s.st.sessions.live.filter fun p => decide (p.2.2 < s.st.chain.epoch)).map fun p => (p.1, p.2.1)

def renewalChallenges (s : Server P) (io : Io) :
    Server P × List (String × PossessionChallenge) :=
  issueAll s.st.chain.epoch io.rand s 0 s.due

/-- What an earlier certificate allows now: its session, if it may be renewed. -/
def renewable (s : Server P) (last : CertChain) : Except ServerError SessionInfo := do
  let session := (last.agentFingerprint P.toCrypto).hex P.toCrypto
  let info ← okOr (s.live session) (.session "no such live session")
  ensure (s.st.sessions.issued session (P.certCid last))
    (.session "not a certificate the log recorded for this session")
  ensure (info.epoch < s.st.chain.epoch) (.session "session is already certified for this epoch")
  return info

/-- A session that missed bumps presents an earlier certificate and gets a
challenge for the current epoch. -/
def renewBegin (s : Server P) (last : CertChain) (io : Io) :
    Server P × Except ServerError PossessionChallenge :=
  match s.renewable last with
  | .error e => (s, .error e)
  | .ok info =>
    let session := (last.agentFingerprint P.toCrypto).hex P.toCrypto
    let (s, challenge) := s.issue info.pubkey (.renew session s.st.chain.epoch) (io.rand 0)
    (s, .ok challenge)

/-- Certify the key of a renewal challenge and log the new certificate. -/
def renewSession (s : Server P) (challenge : PossessionChallenge) (proof : Signature)
    (session : String) (epoch : ℕ) (info : SessionInfo) (io : Io) :
    Server P × Except ServerError CertChain :=
  match s.certify challenge proof info.member with
  | .error e => (s, .error e)
  | .ok cert =>
    returning (fun _ => cert)
      (s.transact [⟨.renewal, [("session", info.start)], .renewal session epoch cert⟩] io.logFault)

def renewFinish (s : Server P) (challenge : PossessionChallenge) (proof : Signature) (io : Io) :
    Server P × Except ServerError CertChain :=
  match s.take challenge with
  | (s, .error e) => (s, .error e)
  | (s, .ok (.enroll _)) => (s, .error (.session "challenge was not issued for renewal"))
  | (s, .ok (.renew session epoch)) =>
    if epoch ≠ s.st.chain.epoch then
      (s, .error (.session "the epoch moved since this challenge was issued"))
    else
      match s.live session with
      | none => (s, .error (.session "the session ended since this challenge was issued"))
      | some info => s.renewSession challenge proof session epoch info io

/-! ### Devices, rosters and hand-offs -/

/-- One transaction whose first event is the answer. -/
def transactEvent (s : Server P) (specs : List Spec) (io : Io) :
    Server P × Except ServerError ContentId :=
  returning (fun ids => ids[0]!) (s.transact specs io.logFault)

/-- Record an operator device's certificate in the log. -/
def registerDevice (s : Server P) (cert : CertChain) (io : Io) :
    Server P × Except ServerError ContentId :=
  s.transactEvent [⟨.deviceCert, [], .deviceCert cert⟩] io

/-- The events of a new roster: with the epoch bump if it drops a member. -/
def rosterSpecs (s : Server P) (members : List Member) : List Spec :=
  ⟨.roster, [("replaces", s.st.board.rosterId)], .roster members s.st.board.roots⟩ ::
    if dropsMember s.st.board.members members then [s.st.bumpSpec] else []

/-- Replace the roster with a server-signed `roster` event. -/
def replaceRoster (s : Server P) (members : List Member) (io : Io) :
    Server P × Except ServerError ContentId :=
  s.transactEvent (s.rosterSpecs members) io

/-- Replace the declared file roots, keeping the roster. -/
def setRoots (s : Server P) (roots : List String) (io : Io) :
    Server P × Except ServerError ContentId :=
  s.transactEvent [⟨.roster, [("replaces", s.st.board.rosterId)],
    .roster s.st.board.members roots⟩] io

/-- Move a member's role from one session to another, on the roster
authority's single-use approval: `handoff` then `epoch`, one frame. -/
def handoff (s : Server P) (approval : MerkleNode HandoffApproval) (sig : Assertion) (io : Io) :
    Server P × Except ServerError ContentId :=
  let a := approval.payload
  match s.st.sessions.get a.from_, s.st.sessions.get a.to_ with
  | some f, some t =>
    s.transactEvent [⟨.handoff, [("from", f.start), ("resume", a.resume), ("to", t.start)],
      .handoff a.from_ a.to_ a.resume a.context approval sig⟩, s.st.bumpSpec] io
  | _, _ => (s, .error (.session "handoff names an unknown session"))

end Server

/-! ### Calls -/

/-- A call on the server. -/
inductive Call where
  | admitNode (node : MerkleNode Event) (sig : Assertion)
  | invite (member : String)
  | enrollBegin (token member : String) (pubkey : PubKey)
  | enrollFinish (challenge : PossessionChallenge) (proof : Signature)
  | endSession (session : String) (reason : EndReason)
  | renewalChallenges
  | renewBegin (last : CertChain)
  | renewFinish (challenge : PossessionChallenge) (proof : Signature)
  | registerDevice (cert : CertChain)
  | replaceRoster (members : List Member)
  | setRoots (roots : List String)
  | handoff (approval : MerkleNode HandoffApproval) (sig : Assertion)

/-- What a call returned. -/
inductive Reply where
  | receipt (r : Receipt)
  | invited (i : Invited)
  | challenge (c : PossessionChallenge)
  | enrolled (e : Enrolled)
  | done
  | challenges (cs : List (String × PossessionChallenge))
  | cert (c : CertChain)
  | event (id : ContentId)
  deriving DecidableEq

namespace Server

def call (s : Server P) (c : Call) (io : Io) : Server P × Except ServerError Reply :=
  match c with
  | .admitNode node sig => returning .receipt (s.admitNode node sig io)
  | .invite member => returning .invited (s.invite member io)
  | .enrollBegin token member pubkey => returning .challenge (s.enrollBegin token member pubkey io)
  | .enrollFinish challenge proof => returning .enrolled (s.enrollFinish challenge proof io)
  | .endSession session reason => returning (fun _ => .done) (s.endSession session reason io)
  | .renewalChallenges =>
    let (s, cs) := s.renewalChallenges io
    (s, .ok (.challenges cs))
  | .renewBegin last => returning .challenge (s.renewBegin last io)
  | .renewFinish challenge proof => returning .cert (s.renewFinish challenge proof io)
  | .registerDevice cert => returning .event (s.registerDevice cert io)
  | .replaceRoster members => returning .event (s.replaceRoster members io)
  | .setRoots roots => returning .event (s.setRoots roots io)
  | .handoff approval sig => returning .event (s.handoff approval sig io)

def serve (s : Server P) (calls : List (Call × Io)) : Server P :=
  calls.foldl (fun s c => (s.call c.1 c.2).1) s

end Server

end Flock
