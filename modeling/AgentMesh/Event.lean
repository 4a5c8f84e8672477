/-
Genesis and event schema of a flock.

Both are payloads of Merkle nodes: the node's id is the event's identity and
the signature is detached.  Counters and epochs are natural numbers; ids,
keys and certificates are those of the protocol crate.
-/
import AgentMesh.CertChain

open Std Mesh

namespace Flock

inductive Kind where
  | roster | brief | review | ack | result | verdict | job | jobEnd | ask | answer
  | relayedAnswer | status | nudged | nudgeMisfire | pane | epoch | renewal
  | sessionStart | deviceCert | sessionEnd | handoff | invite
  deriving DecidableEq, Repr

inductive Role where
  | shepherd | reviewer | helper | adapter | operator
  deriving DecidableEq, Repr

structure Member where
  name : String
  role : Role
  /-- Operator members only: the device keys whose signature counts as theirs. -/
  devices : List Fingerprint
  /-- The flock's one human delegate. -/
  delegate : Bool
  deriving DecidableEq

inductive Outcome where
  | completed | failed
  deriving DecidableEq, Repr

inductive EndReason where
  | closed | lost
  deriving DecidableEq, Repr

/-- A cited file: a declared root, a path under it and the bytes' id. -/
structure FileRef where
  root : String
  path : String
  id : RawContentId
  deriving DecidableEq

/-- What the roster's hand-off authority signs: one specific hand-off. -/
structure HandoffApproval where
  flock : ContentId
  member : String
  from_ : String
  to_ : String
  resume : ContentId
  context : Option FileRef
  deriving DecidableEq

inductive Body where
  | roster (members : List Member) (roots : List String)
  | brief (to_ lane : String)
  | review (to_ lane head : String)
  | ack
  | result (outcome : Outcome)
  | verdict (head : String) (approved : Bool)
  | job (lane label : String)
  | jobEnd (code : Option ℤ) (signal : Option ℤ)
  | ask (lane : Option String) (text : String)
  | answer (text : String)
  | relayedAnswer (text : String)
  | status (text : String)
  | nudged (target : String)
  | nudgeMisfire (target expected found : String)
  | pane (pane tab : String)
  | invite (member : String) (verifier : RawContentId)
  | sessionStart (member session : String) (cert : CertChain)
  | sessionEnd (session : String) (reason : EndReason)
  | handoff (from_ to_ : String) (resume : ContentId) (context : Option FileRef)
      (approval : MerkleNode HandoffApproval) (approvalSig : Assertion)
  | epoch (epoch : ℕ)
  | renewal (session : String) (epoch : ℕ) (cert : CertChain)
  | deviceCert (cert : CertChain)
  deriving DecidableEq

/-- The kind a body is a legal payload for. -/
def Body.kind : Body → Kind
  | roster .. => .roster
  | brief .. => .brief
  | review .. => .review
  | ack => .ack
  | result .. => .result
  | verdict .. => .verdict
  | job .. => .job
  | jobEnd .. => .jobEnd
  | ask .. => .ask
  | answer .. => .answer
  | relayedAnswer .. => .relayedAnswer
  | status .. => .status
  | nudged .. => .nudged
  | nudgeMisfire .. => .nudgeMisfire
  | pane .. => .pane
  | invite .. => .invite
  | sessionStart .. => .sessionStart
  | sessionEnd .. => .sessionEnd
  | handoff .. => .handoff
  | epoch .. => .epoch
  | renewal .. => .renewal
  | deviceCert .. => .deviceCert

/-- Whether this body is a legal payload for `kind`: one kind per variant. -/
def Body.fits (b : Body) (kind : Kind) : Bool := decide (b.kind = kind)

structure Genesis where
  kind : String
  name : String
  serverCert : CertChain
  roster : List Member
  salt : String
  deriving DecidableEq

structure Event where
  flock : ContentId
  kind : Kind
  /-- Author fingerprint, hex. -/
  author : String
  /-- The author's previous event. -/
  prev : Option ContentId
  /-- Named references to other events. -/
  refs : BTreeMap String ContentId
  files : List FileRef
  /-- The author's claim of when. -/
  at_ : ℕ
  body : Body
  deriving DecidableEq

namespace Event

/-- Parents this event's node must have: `prev` plus every reference. -/
def expectedParents (e : Event) : Finset ContentId :=
  (e.prev.toList ++ e.refs.values).toFinset

def node (e : Event) : MerkleNode Event := ⟨e.expectedParents, e⟩

end Event

end Flock
