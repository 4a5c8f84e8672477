/-
The session table, derived from the admitted log in replay order.

Nothing here is stored: every reader that folds the same log gets the same
table.  `Sessions.resolve` answers who signed an event, `Sessions.check`
whether a server event is legal given what came before, `Sessions.firstLink`
what a session's first event must chain to, and `Sessions.observe` records an
admitted event.
-/
import AgentMesh.Chain

open Std Mesh

namespace Flock

inductive Status where
  /-- May sign. -/
  | active
  /-- A replacement: signs nothing until a hand-off activates it. -/
  | pending
  /-- Over.  Never renewed, never signs. -/
  | ended
  deriving DecidableEq, Repr

structure Session where
  member : String
  pubkey : PubKey
  start : ContentId
  status : Status
  certs : Finset ContentId
  epoch : ℕ
  /-- The hand-off that activated it. -/
  activatedBy : Option ContentId
  deriving DecidableEq

structure Invite where
  member : String
  consumed : Bool
  deriving DecidableEq

/-- Invites and sessions, rebuilt from the log. -/
structure Sessions where
  invites : BTreeMap ContentId Invite
  verifiers : BTreeMap RawContentId ContentId
  sessions : BTreeMap String Session
  seen : Finset String
  /-- The session that holds each member's role; an ended holder still holds. -/
  holders : BTreeMap String String
  /-- Approvals already consumed by a hand-off. -/
  approvals : Finset ContentId
  /-- Every certificate the log recorded, by the id a record cites it with. -/
  chains : BTreeMap ContentId CertChain
  deriving DecidableEq

/-- An invite as the server looks it up by token digest. -/
structure InviteInfo where
  event : ContentId
  member : String
  consumed : Bool
  deriving DecidableEq

/-- A live session as the server renews it. -/
structure SessionInfo where
  member : String
  pubkey : PubKey
  start : ContentId
  status : Status
  epoch : ℕ
  deriving DecidableEq

/-- What a session certificate must be: `top`, bounded to `epoch`. -/
def bounded (epoch : ℕ) : Caveats :=
  { Caveats.top with validForGeneration := .only {epoch} }

/-- The caveats of a session certificate valid at `epoch` only. -/
def sessionCaveats (epoch : ℕ) : Caveats := bounded epoch

variable (P : Primitives)

/-- The digest an invite event carries for a bearer token. -/
def tokenDigest (token : String) : RawContentId := P.rawId (utf8 token)

/-- The server key itself issued the certificate. -/
def issuedByServer (cert : CertChain) (server : PubKey) : Except String Unit :=
  match cert.issuer with
  | .agent pubkey _ => ensure (pubkey = server) "certificate is not issued by the server key"
  | .user _ => .error "certificate is not issued by the server key"

/-- The flock's user key itself issued the certificate. -/
def issuedByFlockUser (cert : CertChain) (user : UserPublic) : Except String Unit :=
  match cert.issuer with
  | .user u => ensure (u = user) "not a device certificate of this flock's user"
  | .agent .. => .error "not a device certificate of this flock's user"

/-- The certificate is the server's, for this session, bounded to this epoch. -/
def certOk (cert : CertChain) (session : String) (epoch : ℕ) (server : PubKey) :
    Except String Unit := do
  ensure ((cert.agentFingerprint P.toCrypto).hex P.toCrypto = session)
    "certificate is for another key"
  (cert.verifyAt P.toCrypto epoch).mapError fun e => "certificate: " ++ e.text
  issuedByServer cert server
  ensure (cert.metadata.caveats = bounded epoch) "certificate is not bounded to this epoch alone"

def refsAre (ev : Event) (want : List (String × ContentId)) : Except String Unit :=
  ensure (ev.refs.toList = want) "references are not the ones this event takes"

namespace Sessions

def empty : Sessions := ⟨∅, ∅, ∅, ∅, ∅, ∅, ∅⟩

/-- The certificate chain the log recorded under `cid`. -/
def cert (s : Sessions) (cid : ContentId) : Option CertChain := s.chains[cid]?

/-- Who signed `event`: the server, a registered device, or a session that is
not ended, with a certificate valid at `epoch`. -/
def resolve (s : Sessions) (sig : Assertion) (event : ContentId) (server : PubKey)
    (user : UserPublic) (epoch : ℕ) : Except String Signer :=
  let fingerprint := sig.author.agentFingerprint P.toCrypto
  if sig.author.agentPubkey = server then do
    (sig.verify P.toCrypto event server epoch).mapError MeshError.text
    return ⟨fingerprint, .server⟩
  else if sig.author.issuedByUser then do
    -- a device: certified directly by the flock's user and registered in the log
    ensure (P.certCid sig.author ∈ s.chains) "device certificate is not registered in the log"
    (sig.verifyUser P.toCrypto event user epoch).mapError MeshError.text
    return ⟨fingerprint, .operator⟩
  else do
    let x ← okOr s.sessions[fingerprint.hex P.toCrypto]? "not a session of this flock"
    ensure (x.status ≠ .ended) "session ended"
    -- only a certificate the log recorded for this session
    ensure (P.certCid sig.author ∈ x.certs)
      "certificate was not issued to this session by the server"
    (sig.verify P.toCrypto event server epoch).mapError MeshError.text
    return ⟨fingerprint, .session x.member (decide (x.status = .pending))⟩

/-- A session that has not ended. -/
def liveSession (s : Sessions) (session : String) : Except String Session :=
  okOr (s.sessions[session]?.filter fun x => decide (x.status ≠ .ended)) "no such live session"

/-- The roster's hand-off authority signed it: an active shepherd session for
a helper, or a listed operator device for a shepherd or for the delegate. -/
def approverOk (s : Sessions) (member : Member) (b : Board) (apId : ContentId) (sig : Assertion)
    (chain : Chain) (epoch : ℕ) : Except String Unit :=
  if sig.author.issuedByUser then do
    let fp := sig.author.agentFingerprint P.toCrypto
    ensure (b.members.any fun m => decide (m.role = .operator) && decide (fp ∈ m.devices))
      "key is certified by the flock's user but is not a listed operator device"
    (sig.verifyUser P.toCrypto apId chain.user epoch).mapError fun e => "approval: " ++ e.text
    ensure (member.delegate = true ∨ member.role = .shepherd)
      "an operator device approves a shepherd or delegate hand-off only"
  else do
    ensure (member.delegate = false) "the delegate's hand-off needs an operator device's approval"
    let signer ← s.resolve P sig apId chain.serverPub chain.user epoch
    match signer.class_ with
    | .session approver false =>
      ensure ((b.members.find? fun m => decide (m.name = approver)).map (·.role) = some .shepherd ∧
          member.role = .helper)
        "only a shepherd approves a hand-off, and only a helper's"
    | _ => .error "approval is not signed by a roster authority"

/-- The hand-off arm of `check`. -/
def checkHandoff (s : Sessions) (b : Board) (ev : Event) (epoch : ℕ) (chain : Chain)
    (from_ to_ : String) (resume : ContentId) (context : Option FileRef)
    (approval : MerkleNode HandoffApproval) (approvalSig : Assertion) : Except String Unit := do
  let apId := P.approvalId approval
  let a := approval.payload
  ensure (approval.parents = ∅ ∧ a.flock = b.flock) "approval is not for this flock"
  ensure ((a.from_, a.to_, a.resume, a.context) = (from_, to_, resume, context))
    "handoff differs from the approval it cites"
  ensure (a.context ≠ none) "handoff cites no context file"
  ensure (apId ∉ s.approvals) "approval already consumed"
  let f ← okOr s.sessions[from_]? "handoff names an unknown session"
  let t ← okOr s.sessions[to_]? "handoff names an unknown session"
  ensure (f.member = a.member ∧ t.member = a.member)
    "sessions do not belong to the approved member"
  ensure (s.holders[a.member]? = some from_) "from is not the member's current holder"
  ensure (t.status = .pending) "to is not a pending replacement"
  ensure (resume = (b.headOf from_).getD f.start) "resume is not the old session's last head"
  refsAre ev [("from", f.start), ("resume", resume), ("to", t.start)]
  let member ← okOr (b.members.find? fun m => decide (m.name = a.member))
    "member is not on the roster"
  s.approverOk P member b apId approvalSig chain epoch

/-- Whether a server event is legal now, at record epoch `epoch`. -/
def check (s : Sessions) (b : Board) (ev : Event) (epoch : ℕ) (chain : Chain) :
    Except String Unit :=
  match ev.body with
  | .invite member verifier => do
    ensure (b.members.any fun m => decide (m.name = member)) "invite for a member not on the roster"
    refsAre ev []
    ensure (verifier ∉ s.verifiers) "invite verifier already in the log"
  | .sessionStart member session cert => do
    let (id, invite) ← okOr
      (ev.refs["invite"]?.bind fun id => s.invites[id]?.map fun i => (id, i))
      "session-start names no known invite"
    refsAre ev [("invite", id)]
    ensure (invite.consumed = false) "invite already consumed"
    ensure (invite.member = member) "invite is for another member"
    ensure (session ∉ s.sessions) "session key already enrolled"
    certOk P cert session epoch chain.serverPub
  | .sessionEnd session _ => do
    let x ← s.liveSession session
    refsAre ev [("session", x.start)]
  | .epoch e => do
    refsAre ev []
    ensure (e = epoch) "epoch body is not the record epoch"
  | .renewal session e cert => do
    let x ← s.liveSession session
    refsAre ev [("session", x.start)]
    ensure (e = epoch) "renewal is not for the current epoch"
    ensure (x.epoch < epoch) "session is already certified for this epoch"
    certOk P cert session epoch chain.serverPub
  | .deviceCert cert => do
    refsAre ev []
    issuedByFlockUser cert chain.user
    ensure (cert.agentPubkey ≠ chain.serverPub) "the server key is not an operator device"
    (cert.verifyAt P.toCrypto epoch).mapError fun e => "certificate: " ++ e.text
    ensure (P.certCid cert ∉ s.chains) "device certificate already registered"
  | .handoff from_ to_ resume context approval approvalSig =>
    s.checkHandoff P b ev epoch chain from_ to_ resume context approval approvalSig
  | _ => .ok ()

/-- What `session`'s next event must have as `prev`: its own head or, before
its first event, the hand-off that activated it. -/
def chainHead (s : Sessions) (b : Board) (session : String) : Option ContentId :=
  (b.headOf session).or (s.sessions[session]?.bind (·.activatedBy))

/-- A session's first event: exactly the activating hand-off as `prev`, or no
`prev` when no hand-off activated it. -/
def firstLink (s : Sessions) (b : Board) (ev : Event) : Except String Unit :=
  match s.sessions[ev.author]? with
  | none => .ok ()
  | some x =>
    if (b.headOf ev.author).isSome then .ok ()
    else match x.activatedBy, ev.prev with
      | some h, prev =>
        ensure (prev = some h) "the first event after a hand-off must have prev = the handoff"
      | none, some _ =>
        .error "a session no hand-off activated cannot chain its first event onto a hand-off"
      | none, none => .ok ()

/-- Record an admitted event.  Call only after `check`. -/
def observe (s : Sessions) (id : ContentId) (ev : Event) (epoch : ℕ) : Sessions :=
  match ev.body with
  | .invite member verifier =>
    { s with
      verifiers := s.verifiers.insert verifier id
      invites := s.invites.insert id ⟨member, false⟩ }
  | .sessionStart member session cert =>
    let first := decide (member ∉ s.seen)
    { s with
      invites := match ev.refs["invite"]? with
        | some i => s.invites.modify i fun x => { x with consumed := true }
        | none => s.invites
      seen := insert member s.seen
      holders := if first then s.holders.insert member session else s.holders
      chains := s.chains.insert (P.certCid cert) cert
      sessions := s.sessions.insert session
        { member := member
          pubkey := cert.agentPubkey
          start := id
          status := if first then .active else .pending
          certs := {P.certCid cert}
          epoch := epoch
          activatedBy := none } }
  | .sessionEnd session _ =>
    { s with sessions := s.sessions.modify session fun x => { x with status := .ended } }
  | .handoff from_ to_ _ _ approval _ =>
    let ended := s.sessions.modify from_ fun x => { x with status := .ended }
    { s with
      approvals := insert (P.approvalId approval) s.approvals
      sessions := ended.modify to_ fun x =>
        { x with status := .active, activatedBy := some id }
      holders := match ended[to_]? with
        | some x => s.holders.insert x.member to_
        | none => s.holders }
  | .deviceCert cert => { s with chains := s.chains.insert (P.certCid cert) cert }
  | .renewal session e cert =>
    match s.sessions[session]? with
    | some _ =>
      { s with
        chains := s.chains.insert (P.certCid cert) cert
        sessions := s.sessions.modify session fun x =>
          { x with certs := insert (P.certCid cert) x.certs, epoch := e } }
    | none => s
  | _ => s

/-- The invite a token digest names. -/
def invite (s : Sessions) (verifier : RawContentId) : Option InviteInfo := do
  let event ← s.verifiers[verifier]?
  let i ← s.invites[event]?
  return ⟨event, i.member, i.consumed⟩

/-- One session. -/
def get (s : Sessions) (session : String) : Option SessionInfo :=
  s.sessions[session]?.map fun x => ⟨x.member, x.pubkey, x.start, x.status, x.epoch⟩

/-- Whether `cert` is one the log recorded for `session`. -/
def issued (s : Sessions) (session : String) (cert : ContentId) : Bool :=
  match s.sessions[session]? with
  | some x => decide (cert ∈ x.certs)
  | none => false

/-- Every session that has not ended: fingerprint, key and latest epoch. -/
def live (s : Sessions) : List (String × PubKey × ℕ) :=
  (s.sessions.toList.filter fun p => decide (p.2.status ≠ .ended)).map fun p =>
    (p.1, p.2.pubkey, p.2.epoch)

end Sessions

end Flock
