/-
Admission records, sealed events and refusal records.

What the server writes: one `Sealed` per admitted event (the event, its
detached signature, the admission record and the server's signature over it),
grouped into frames, and one `RefusalEntry` per refused event.  `Primitives`
collects the third-party functions the flock crates call: content ids and
canonical dag-cbor.
-/
import AgentMesh.Event

open Std Mesh

namespace Flock

/-- The server-signed admission record's payload. -/
structure AdmissionRecord where
  index : ℕ
  epoch : ℕ
  event : ContentId
  cert : ContentId
  deriving DecidableEq

/-- One admitted event with everything a reader needs to verify it. -/
structure Sealed where
  event : MerkleNode Event
  eventSig : Signature
  record : MerkleNode AdmissionRecord
  recordSig : Signature
  deriving DecidableEq

/-- One transaction: the requested event first, then any records it caused. -/
structure Frame where
  sealed : List Sealed
  deriving DecidableEq

inductive Refusal where
  | unencodable | wrongFlock | authorMismatch | badParents | bodyKindMismatch
  | pendingSession | unknownMember | notAllowed | badPrev | writerFork
  | missingRef (role : String) | unexpectedRef (role : String) | unknownRef (role : String)
  | wrongRefKind (role : String)
  | crossLane | notAddressee | adapterCannotAck | headMismatch | staleRoster | tooLarge
  | devicesLocked | devicesOnNonOperator | notAListedDevice | delegateLocked
  | multipleDelegates | duplicateMember | rootsLocked | badRoot | undeclaredRoot
  | badClaim | badExit
  deriving DecidableEq

/-- The payload of one refusal record.  The stored reason is the refusal
itself: the crate's `Reason` has one variant for each `Refusal`. -/
structure RefusalRecord where
  event : ContentId
  author : String
  reason : Refusal
  admitted : ℕ
  deriving DecidableEq

/-- One refusal and the server's signature over it. -/
structure RefusalEntry where
  record : MerkleNode RefusalRecord
  sig : Assertion
  deriving DecidableEq

/-- The genesis node and the server's signature over its id. -/
structure SignedGenesis where
  node : MerkleNode Genesis
  sig : Assertion
  deriving DecidableEq

/-- Third-party functions of the flock crates. -/
structure Primitives extends Crypto where
  eventId : MerkleNode Event → ContentId
  recordId : MerkleNode AdmissionRecord → ContentId
  genesisId : MerkleNode Genesis → ContentId
  approvalId : MerkleNode HandoffApproval → ContentId
  refusalId : MerkleNode RefusalRecord → ContentId
  /-- The content id of a certificate chain. -/
  certCid : CertChain → ContentId
  /-- `RawContentId::from_content`. -/
  rawId : Bytes → RawContentId
  /-- Canonical dag-cbor of a frame and of a refusal entry, with what is said of
  bytes that are none, and how long a frame is as one response message. -/
  frameCbor : Frame → Bytes
  frameOfCbor : Bytes → Option Frame
  frameFault : Bytes → String
  refusalCbor : RefusalEntry → Bytes
  refusalOfCbor : Bytes → Option RefusalEntry
  refusalFault : Bytes → String
  respFrameLen : List Sealed → ℕ
  /-- The first four bytes of a frame header's BLAKE3 check. -/
  headerCheck : Bytes → BitVec 32

/-- Content ids are injective. -/
structure Primitives.IdsInjective (P : Primitives) : Prop where
  event : Function.Injective P.eventId
  record : Function.Injective P.recordId
  cert : Function.Injective P.certCid
  approval : Function.Injective P.approvalId

end Flock
