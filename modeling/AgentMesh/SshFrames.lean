/-
The frames of an authenticated session over SSH.

The SSH account is not the agent key that signs envelopes, so both ends of the
byte stream prove the key in their certificate to each other before any
envelope travels.  Each sends a Hello with a fresh nonce, its certificate and
the session's parameters, and then a Proof: a signature over the two Hellos as
they were on the wire.  After that every envelope is a record, signed with the
session, the direction and a counter.

Here are the frames, the bytes that are hashed and signed, and the checks an
end makes; `SshHandshake` and `SshRecords` run them.

* `validateLocalIdentity_ok`, `validatePeerHello_ok`, `verifyPeerProof_ok` —
  what the checks establish;
* `transcriptInput_inj`, `makeProofMessage_inj`, `makeRecordMessage_inj` — the
  bytes determine what they are about.
-/
import AgentMesh.EnvelopeStream

def Transport.TransportError.text : TransportError → String
  | .iroh why => "iroh error: " ++ why
  | .badCertChain why => "cert chain rejected: " ++ why
  | .revoked agent => "peer revoked: agent " ++ agent
  | .revocationUnavailable why => "revocation log unavailable: " ++ why
  | .badEnvelope why => "envelope rejected: " ++ why
  | .peerClosed => "connection closed by peer"
  | .io why => "io: " ++ why

open Mesh Framing Transport

namespace Ssh

/-! ### Roles, parameters and frames -/

/-- Maximum encoded Hello or Proof payload. -/
def maxHandshakeFrameBytes : ℕ := 16 * 1024

/-- Maximum JSON of one envelope in a session record. -/
def maxSessionEnvelopeBytes : ℕ := 16 * 1024 * 1024

def protocolLabel : String := "agent-mesh-session"

def transportLabel : String := "ssh"

def protocolVersion : ℕ := 1

def recordVersion : ℕ := 1

inductive RecordDirection where
  | initiatorToResponder
  | responderToInitiator
  deriving DecidableEq

/-- Which endpoint role a side has. -/
inductive SessionRole where
  /-- The spoke, which opened the SSH channel. -/
  | initiator
  /-- The hub-side listener, which accepted it. -/
  | responder
  deriving DecidableEq

/-- What the initiator wants the connection for. -/
inductive SessionPurpose where
  | messages
  | stream
  deriving DecidableEq

namespace SessionRole

def opposite : SessionRole → SessionRole
  | initiator => responder
  | responder => initiator

def asByte : SessionRole → UInt8
  | initiator => 0
  | responder => 1

def outboundDirection : SessionRole → RecordDirection
  | initiator => .initiatorToResponder
  | responder => .responderToInitiator

def inboundDirection (r : SessionRole) : RecordDirection := r.opposite.outboundDirection

theorem opposite_ne (r : SessionRole) : r.opposite ≠ r := by
  cases r <;> decide

theorem asByte_inj {r r' : SessionRole} (h : r.asByte = r'.asByte) : r = r' := by
  cases r <;> cases r' <;> first | rfl | exact absurd h (by decide)

theorem outboundDirection_inj {r r' : SessionRole}
    (h : r.outboundDirection = r'.outboundDirection) : r = r' := by
  cases r <;> cases r' <;> first | rfl | cases h

end SessionRole

/-- Protocol parameters, bound into the transcript. -/
structure SessionParameters where
  recordVersion : ℕ
  maxEnvelopeBytes : ℕ
  currentGeneration : Option ℕ
  deriving DecidableEq

/-- The parameters of protocol version 1. -/
def SessionParameters.new (currentGeneration : Option ℕ) : SessionParameters where
  recordVersion := Ssh.recordVersion
  maxEnvelopeBytes := maxSessionEnvelopeBytes
  currentGeneration := currentGeneration

/-- Deadlines, in milliseconds. -/
structure SessionTimeouts where
  authentication : ℕ
  record : ℕ

inductive SessionError where
  | timeout (phase : String) (duration : ℕ)
  | io (why : String)
  | badHandshakeFrame (why : String)
  | frameTooLarge (kind : String) (actual maximum : ℕ)
  | unexpectedFrame (expected actual : String)
  | protocolMismatch
  | parameterMismatch
  | roleMismatch
  | unexpectedResponder
  | invalidLocalIdentity (why : String)
  | badPeerCertificate (why : String)
  | peerRevoked (agent : String)
  | revocationUnavailable (why : String)
  | differentUser (peer localUser : String)
  | transcriptMismatch
  | badPeerProof
  | recordSessionMismatch
  | recordDirectionMismatch
  | recordCounterMismatch (expected actual : ℕ)
  | badRecordSignature
  | badEnvelope (why : String)
  | counterExhausted
  | poisoned
  deriving DecidableEq

def SessionParameters.validate (p : SessionParameters) : Except SessionError Unit :=
  ensure (p.recordVersion = Ssh.recordVersion ∧ p.maxEnvelopeBytes = maxSessionEnvelopeBytes)
    .parameterMismatch

structure HelloFrame where
  protocol : String
  version : ℕ
  transport : String
  role : SessionRole
  nonce : BitVec 256
  cert : CertChain
  parameters : SessionParameters
  expectedResponder : Option Fingerprint
  purpose : SessionPurpose
  deriving DecidableEq

def HelloFrame.new (role : SessionRole) (nonce : BitVec 256) (cert : CertChain)
    (parameters : SessionParameters) (expectedResponder : Option Fingerprint) : HelloFrame where
  protocol := protocolLabel
  version := protocolVersion
  transport := transportLabel
  role := role
  nonce := nonce
  cert := cert
  parameters := parameters
  expectedResponder := expectedResponder
  purpose := .messages

def HelloFrame.withPurpose (h : HelloFrame) (purpose : SessionPurpose) : HelloFrame :=
  { h with purpose := purpose }

structure ProofFrame where
  role : SessionRole
  transcriptId : BitVec 256
  signature : Signature
  deriving DecidableEq

inductive AuthFrame where
  | hello (h : HelloFrame)
  | proof (p : ProofFrame)
  deriving DecidableEq

def AuthFrame.kind : AuthFrame → String
  | .hello _ => "hello"
  | .proof _ => "proof"

/-- The wire with the JSON of handshake frames. -/
structure CarrierWire extends EnvelopeWire where
  authFrameJson : AuthFrame → Bytes
  authFrameOfJson : Bytes → Except String AuthFrame

structure CarrierWire.Lawful (W : CarrierWire) : Prop where
  authFrame : ∀ f, W.authFrameOfJson (W.authFrameJson f) = .ok f
  envelope : ∀ env, W.envelopeOfJson (W.envelopeJson env) = .ok env

/-! ### What is hashed and signed -/

def transcriptDomain : Bytes := ascii "agent-mesh/ssh-session/v1/transcript" ++ [0]

def proofDomain : Bytes := ascii "agent-mesh/ssh-session/v1/proof" ++ [0]

def recordDomain : Bytes := ascii "agent-mesh/ssh-session/v1/record" ++ [0]

/-- What the hasher is fed: each Hello behind its length. -/
def transcriptInput (initiatorHello responderHello : Bytes) : Bytes :=
  transcriptDomain ++ Delimited.bytes initiatorHello ++ Delimited.bytes responderHello

def makeProofMessage (role : SessionRole) (transcriptId : BitVec 256) : Bytes :=
  proofDomain ++ [role.asByte] ++ bytes32 transcriptId

def RecordDirection.asByte : RecordDirection → UInt8
  | .initiatorToResponder => 0
  | .responderToInitiator => 1

def RecordDirection.fromByte (value : UInt8) : Except SessionError RecordDirection :=
  if value = 0 then .ok .initiatorToResponder
  else if value = 1 then .ok .responderToInitiator
  else .error .recordDirectionMismatch

section Wire

variable (W : CarrierWire)

def makeTranscriptId (initiatorHello responderHello : Bytes) : BitVec 256 :=
  W.payloadHash (transcriptInput initiatorHello responderHello)

def makeRecordMessage (transcriptId : BitVec 256) (direction : RecordDirection) (counter : ℕ)
    (envelopeBytes : Bytes) : Bytes :=
  recordDomain ++ bytes32 transcriptId ++ [direction.asByte] ++ beBytes 8 counter ++
    be32 envelopeBytes.length ++ bytes32 (W.payloadHash envelopeBytes)

/-! ### Frames as bytes -/

def encodeAuthFrame (frame : AuthFrame) : Except SessionError Bytes :=
  let bytes := W.authFrameJson frame
  if 2 ^ 32 ≤ bytes.length then
    .error (.frameTooLarge "handshake" (2 ^ 32 - 1) maxHandshakeFrameBytes)
  else if maxHandshakeFrameBytes < bytes.length then
    .error (.frameTooLarge "handshake" bytes.length maxHandshakeFrameBytes)
  else .ok bytes

def decodeAuthFrame (raw : Bytes) : Except SessionError AuthFrame :=
  (W.authFrameOfJson raw).mapError .badHandshakeFrame

def expectHello (raw : Bytes) : Except SessionError HelloFrame := do
  match ← decodeAuthFrame W raw with
  | .hello hello => .ok hello
  | frame => .error (.unexpectedFrame "hello" frame.kind)

def expectProof (raw : Bytes) : Except SessionError ProofFrame := do
  match ← decodeAuthFrame W raw with
  | .proof proof => .ok proof
  | frame => .error (.unexpectedFrame "proof" frame.kind)

/-! ### Checks -/

/-- A transport-level revocation failure, as the session error it is. -/
def revocationError : TransportError → SessionError
  | .revoked agent => .peerRevoked agent
  | other => .revocationUnavailable other.text

variable {W} in
def validateLocalIdentity (agent : AgentKey W.toCrypto) (state : RevocationState) :
    Except SessionError Unit := do
  (agent.cert.verifyWith W.toCrypto state).mapError fun e =>
    .invalidLocalIdentity (e.text W.toCrypto)
  ensure (W.publicKey agent.signing = agent.cert.agentPubkey)
    (.invalidLocalIdentity "signing key does not match certificate leaf")

/-- The responder is the one the initiator named, whichever end looks. -/
def checkResponder (localHello peer : HelloFrame) (localCert : CertChain) :
    Except SessionError Unit :=
  match localHello.role with
  | .initiator =>
    ensure (peer.expectedResponder = none ∧
      localHello.expectedResponder = some (peer.cert.agentFingerprint W.toCrypto))
      .unexpectedResponder
  | .responder =>
    ensure (localHello.expectedResponder = none ∧
      peer.expectedResponder = some (localCert.agentFingerprint W.toCrypto))
      .unexpectedResponder

/-- What a certificate that does not verify is reported as. -/
def peerCertError : RevocationError → SessionError
  | .revoked agent => .peerRevoked (agent.hex W.toCrypto)
  | other => .badPeerCertificate (other.text W.toCrypto)

/-- The peer's key, if its Hello is acceptable. -/
def validatePeerHello (localHello peer : HelloFrame) (localCert : CertChain)
    (parameters : SessionParameters) (state : RevocationState) : Except SessionError PubKey := do
  ensure (peer.protocol = protocolLabel ∧ peer.version = protocolVersion ∧
    peer.transport = transportLabel) .protocolMismatch
  ensure (peer.role = localHello.role.opposite) .roleMismatch
  peer.parameters.validate
  ensure (peer.parameters = parameters) .parameterMismatch
  checkResponder W localHello peer localCert
  let localUser := localCert.userFingerprint W.toCrypto
  let peerUser := peer.cert.userFingerprint W.toCrypto
  ensure (peerUser = localUser)
    (.differentUser (peerUser.hex W.toCrypto) (localUser.hex W.toCrypto))
  (peer.cert.verifyWith W.toCrypto state).mapError (peerCertError W)
  match W.keyError peer.cert.agentPubkey with
  | some _ => .error (.badPeerCertificate "invalid ed25519 leaf key")
  | none => .ok peer.cert.agentPubkey

def verifyPeerProof (proof : ProofFrame) (expectedRole : SessionRole) (transcriptId : BitVec 256)
    (peerKey : PubKey) : Except SessionError Unit := do
  ensure (proof.role = expectedRole) .roleMismatch
  ensure (proof.transcriptId = transcriptId) .transcriptMismatch
  ensure (W.verifyStrict peerKey (makeProofMessage expectedRole transcriptId) proof.signature)
    .badPeerProof

end Wire

/-! ### What the checks establish -/

section Checks

variable {W : CarrierWire}

theorem encodeAuthFrame_ok {frame : AuthFrame} {raw : Bytes}
    (h : encodeAuthFrame W frame = .ok raw) :
    raw = W.authFrameJson frame ∧ raw.length ≤ maxHandshakeFrameBytes := by
  simp only [encodeAuthFrame] at h
  split at h
  · cases h
  · split at h
    · cases h
    · cases h
      exact ⟨rfl, by omega⟩

theorem expectHello_ok {raw : Bytes} {hello : HelloFrame} :
    expectHello W raw = .ok hello ↔ W.authFrameOfJson raw = .ok (.hello hello) := by
  rw [expectHello, bind_ok]
  simp only [decodeAuthFrame, mapError_ok]
  constructor
  · rintro ⟨frame, hframe, h⟩
    cases frame with
    | hello h' =>
      cases h
      exact hframe
    | proof p => cases h
  · intro h
    exact ⟨_, h, rfl⟩

theorem validateLocalIdentity_ok {agent : AgentKey W.toCrypto} {state : RevocationState} :
    validateLocalIdentity agent state = .ok () ↔
      agent.cert.verifyWith W.toCrypto state = .ok () := by
  simp only [validateLocalIdentity, bind_ok, mapError_ok, ensure_ok]
  constructor
  · rintro ⟨_, hcert, -⟩
    exact hcert
  · intro hcert
    exact ⟨(), hcert, agent.seed_matches⟩

/-- The initiator named the responder, whichever end looks. -/
def NamesResponder (W : CarrierWire) (localHello peer : HelloFrame) (localCert : CertChain) :
    Prop :=
  match localHello.role with
  | .initiator => localHello.expectedResponder = some (peer.cert.agentFingerprint W.toCrypto)
  | .responder => peer.expectedResponder = some (localCert.agentFingerprint W.toCrypto)

theorem checkResponder_names {localHello peer : HelloFrame} {localCert : CertChain}
    (h : checkResponder W localHello peer localCert = .ok ()) :
    NamesResponder W localHello peer localCert := by
  unfold checkResponder at h
  unfold NamesResponder
  cases hrole : localHello.role with
  | initiator =>
    rw [hrole] at h
    exact (ensure_ok.mp h).2
  | responder =>
    rw [hrole] at h
    exact (ensure_ok.mp h).2

structure Acceptable (W : CarrierWire) (localHello peer : HelloFrame) (localCert : CertChain)
    (parameters : SessionParameters) (state : RevocationState) : Prop where
  role : peer.role = localHello.role.opposite
  parameters : peer.parameters = parameters
  responder : NamesResponder W localHello peer localCert
  user : peer.cert.userFingerprint W.toCrypto = localCert.userFingerprint W.toCrypto
  cert : peer.cert.verifyWith W.toCrypto state = .ok ()

theorem validatePeerHello_ok {localHello peer : HelloFrame} {localCert : CertChain}
    {parameters : SessionParameters} {state : RevocationState} {key : PubKey}
    (h : validatePeerHello W localHello peer localCert parameters state = .ok key) :
    Acceptable W localHello peer localCert parameters state ∧ key = peer.cert.agentPubkey := by
  simp only [validatePeerHello, bind_ok, ensure_ok, mapError_ok] at h
  obtain ⟨_, -, _, hrole, _, -, _, hparams, _, hresponder, _, huser, _, hcert, hkey⟩ := h
  refine ⟨⟨hrole, hparams, checkResponder_names hresponder, huser, hcert⟩, ?_⟩
  split at hkey
  · cases hkey
  · cases hkey
    rfl

theorem verifyPeerProof_ok {proof : ProofFrame} {expectedRole : SessionRole}
    {transcriptId : BitVec 256} {peerKey : PubKey}
    (h : verifyPeerProof W proof expectedRole transcriptId peerKey = .ok ()) :
    W.verifyStrict peerKey (makeProofMessage expectedRole transcriptId) proof.signature = true := by
  simp only [verifyPeerProof, bind_ok, ensure_ok] at h
  obtain ⟨_, -, _, -, hsig⟩ := h
  exact hsig

end Checks

/-! ### The bytes determine what they are about -/

section Injective

variable {W : CarrierWire}

theorem length_bytes32 (x : BitVec 256) : (bytes32 x).length = 32 := by simp [bytes32]

theorem RecordDirection.asByte_inj {d d' : RecordDirection} (h : d.asByte = d'.asByte) :
    d = d' := by
  cases d <;> cases d' <;> first | rfl | exact absurd h (by decide)

theorem RecordDirection.fromByte_asByte (d : RecordDirection) : fromByte d.asByte = .ok d := by
  cases d <;> rfl

theorem delimited_append_inj {a b s t : Bytes} (ha : a.length < 2 ^ 32) (hb : b.length < 2 ^ 32)
    (h : Delimited.bytes a ++ s = Delimited.bytes b ++ t) : a = b ∧ s = t := by
  rw [Delimited.bytes, Delimited.bytes, List.append_assoc, List.append_assoc] at h
  obtain ⟨hlen, h⟩ := List.append_inj h rfl
  have hlen : a.length = b.length := by
    rw [← ofBe32_be32 ha, hlen, ofBe32_be32 hb]
  exact List.append_inj h hlen

theorem transcriptInput_inj {a b a' b' : Bytes} (ha : a.length < 2 ^ 32)
    (hb : b.length < 2 ^ 32) (ha' : a'.length < 2 ^ 32) (hb' : b'.length < 2 ^ 32)
    (h : transcriptInput a b = transcriptInput a' b') : a = a' ∧ b = b' := by
  rw [transcriptInput, transcriptInput, List.append_assoc, List.append_assoc] at h
  have h := (List.append_inj h rfl).2
  obtain ⟨hfirst, h⟩ := delimited_append_inj ha ha' h
  have hsecond : Delimited.bytes b ++ [] = Delimited.bytes b' ++ [] := by
    rw [List.append_nil, List.append_nil, h]
  exact ⟨hfirst, (delimited_append_inj hb hb' hsecond).1⟩

theorem makeProofMessage_inj {role role' : SessionRole} {t t' : BitVec 256}
    (h : makeProofMessage role t = makeProofMessage role' t') : role = role' ∧ t = t' := by
  obtain ⟨h, ht⟩ := List.append_inj h rfl
  have hrole := (List.append_inj h rfl).2
  exact ⟨SessionRole.asByte_inj (List.cons.inj hrole).1, bytes32_injective ht⟩

/-- A record's message determines everything in it, the envelope's bytes up to
their length and hash. -/
theorem makeRecordMessage_inj {t t' : BitVec 256} {d d' : RecordDirection} {n n' : ℕ}
    {b b' : Bytes} (hn : n < 2 ^ 64) (hn' : n' < 2 ^ 64) (hb : b.length < 2 ^ 32)
    (hb' : b'.length < 2 ^ 32)
    (h : makeRecordMessage W t d n b = makeRecordMessage W t' d' n' b') :
    t = t' ∧ d = d' ∧ n = n' ∧ b.length = b'.length ∧ W.payloadHash b = W.payloadHash b' := by
  have hwidth : ∀ x : ℕ, x < 2 ^ 64 → x < 256 ^ 8 := by
    intro x hx
    omega
  -- the fields from the last one to the first, each of a fixed length
  obtain ⟨h, hhash⟩ := List.append_inj' h (by rw [length_bytes32, length_bytes32])
  obtain ⟨h, hlen⟩ := List.append_inj' h rfl
  obtain ⟨h, hcounter⟩ := List.append_inj' h (by rw [length_beBytes, length_beBytes])
  obtain ⟨h, hdir⟩ := List.append_inj' h rfl
  obtain ⟨-, ht⟩ := List.append_inj' h (by rw [length_bytes32, length_bytes32])
  refine ⟨bytes32_injective ht, RecordDirection.asByte_inj (List.cons.inj hdir).1,
    beBytes_inj (hwidth n hn) (hwidth n' hn') hcounter, ?_, bytes32_injective hhash⟩
  rw [← ofBe32_be32 hb, hlen, ofBe32_be32 hb']

end Injective

end Ssh
