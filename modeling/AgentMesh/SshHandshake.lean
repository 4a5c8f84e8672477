/-
The handshake of a session over SSH.

`authenticate` as a machine: it starts by checking itself against the
revocation log and drawing a nonce, then exchanges the Hellos and the Proofs,
writing and reading each flight concurrently.  The bytes it reads are whatever
the carrier delivers.  A flight is over when the own frame is written and a
whole frame has been read; an error, a deadline or a dropped future ends the
handshake for good.

* `Handshake.Sound` — what holds of an end in every state of its handshake;
* `Handshake.start_sound`, `Handshake.step_sound` — it holds from the start,
  whatever happens;
* `Handshake.Sound.same_hellos` — ends with one transcript have one pair of
  Hellos.
-/
import AgentMesh.SshFrames

open Mesh Transport

namespace Ssh

variable {W : CarrierWire}

/-- A byte stream that has not authenticated its peer yet. -/
structure UnauthenticatedMeshSession (W : CarrierWire) where
  localAgent : AgentKey W.toCrypto
  role : SessionRole
  expectedResponder : Option Fingerprint
  parameters : SessionParameters
  timeouts : SessionTimeouts
  purpose : SessionPurpose

namespace UnauthenticatedMeshSession

/-- The spoke's side; the responder must be named. -/
def initiator (localAgent : AgentKey W.toCrypto) (expectedResponder : Fingerprint)
    (parameters : SessionParameters) (timeouts : SessionTimeouts) :
    UnauthenticatedMeshSession W where
  localAgent := localAgent
  role := .initiator
  expectedResponder := some expectedResponder
  parameters := parameters
  timeouts := timeouts
  purpose := .messages

/-- The hub's side. -/
def responder (localAgent : AgentKey W.toCrypto) (parameters : SessionParameters)
    (timeouts : SessionTimeouts) : UnauthenticatedMeshSession W where
  localAgent := localAgent
  role := .responder
  expectedResponder := none
  parameters := parameters
  timeouts := timeouts
  purpose := .messages

def withPurpose (u : UnauthenticatedMeshSession W) (purpose : SessionPurpose) :
    UnauthenticatedMeshSession W :=
  { u with purpose := purpose }

end UnauthenticatedMeshSession

/-- What a handshake establishes. -/
structure HandshakeOutcome where
  peerPurpose : SessionPurpose
  peer : Bus.AuthenticatedPeer
  peerCert : CertChain
  peerVerifyingKey : PubKey
  transcriptId : BitVec 256
  deriving DecidableEq

inductive Phase where
  /-- The Hellos are exchanged. -/
  | hello
  /-- The Proofs are exchanged. -/
  | proof (peerHello : HelloFrame) (peerKey : PubKey) (transcriptId : BitVec 256)
  | authenticated (outcome : HandshakeOutcome)
  | failed (e : SessionError)
  /-- The future was dropped. -/
  | dropped
  deriving DecidableEq

/-- A call of `authenticate`. -/
structure Handshake (W : CarrierWire) where
  /-- The session, its parameters at the log's generation. -/
  session : UnauthenticatedMeshSession W
  state : RevocationState
  nonce : BitVec 256
  localHelloRaw : Bytes
  /-- The peer's Hello as it was read, once it has been accepted. -/
  peerHelloRaw : Option Bytes
  /-- What the current flight writes. -/
  outbound : Bytes
  /-- The current flight's frame is written. -/
  written : Bool
  phase : Phase

namespace Handshake

def helloOf (session : UnauthenticatedMeshSession W) (nonce : BitVec 256) : HelloFrame :=
  (HelloFrame.new session.role nonce session.localAgent.cert session.parameters
    session.expectedResponder).withPurpose session.purpose

def localHello (h : Handshake W) : HelloFrame := helloOf h.session h.nonce

/-- The two Hellos in the order of the roles: the initiator's first. -/
def hellosWith (h : Handshake W) (peerHelloRaw : Bytes) : Bytes × Bytes :=
  match h.session.role with
  | .initiator => (h.localHelloRaw, peerHelloRaw)
  | .responder => (peerHelloRaw, h.localHelloRaw)

/-- The Hellos of this handshake, once both are there. -/
def hellos (h : Handshake W) : Option (Bytes × Bytes) := h.peerHelloRaw.map h.hellosWith

def transcriptWith (h : Handshake W) (peerHelloRaw : Bytes) : BitVec 256 :=
  makeTranscriptId W (h.hellosWith peerHelloRaw).1 (h.hellosWith peerHelloRaw).2

/-- The transcript of this handshake; the own Proof is signed as soon as there is
one. -/
def transcript (h : Handshake W) : Option (BitVec 256) := h.peerHelloRaw.map h.transcriptWith

def signedProof (h : Handshake W) : Option Bytes :=
  h.transcript.map (makeProofMessage h.session.role)

def fail (h : Handshake W) (e : SessionError) : Handshake W := { h with phase := .failed e }

/-- Everything before the first byte: the log's generation, the own identity
and the Hello (the nonce is fresh randomness). -/
def start (u : UnauthenticatedMeshSession W) (revocation : Except TransportError RevocationState)
    (nonce : BitVec 256) : Except SessionError (Handshake W) := do
  let state ← revocation.mapError revocationError
  let session := { u with
    parameters := { u.parameters with currentGeneration := some state.generation } }
  session.parameters.validate
  validateLocalIdentity session.localAgent state
  let localHelloRaw ← encodeAuthFrame W (.hello (helloOf session nonce))
  return {
    session := session
    state := state
    nonce := nonce
    localHelloRaw := localHelloRaw
    peerHelloRaw := none
    outbound := Delimited.bytes localHelloRaw
    written := false
    phase := .hello }

/-- The peer's Hello and key, if the Hello is acceptable. -/
def checkHello (h : Handshake W) (raw : Bytes) : Except SessionError (HelloFrame × PubKey) := do
  let peerHello ← expectHello W raw
  let peerKey ← validatePeerHello W h.localHello peerHello h.session.localAgent.cert
    h.session.parameters h.state
  return (peerHello, peerKey)

/-- The peer's Hello has been read: check it, and sign the Proof. -/
def onHello (h : Handshake W) (raw : Bytes) : Handshake W :=
  match h.checkHello raw with
  | .error e => h.fail e
  | .ok (peerHello, peerKey) =>
    let transcriptId := h.transcriptWith raw
    let proofMessage := makeProofMessage h.session.role transcriptId
    let localProof : ProofFrame :=
      ⟨h.session.role, transcriptId, W.sign h.session.localAgent.signing proofMessage⟩
    let heard := { h with peerHelloRaw := some raw }
    match encodeAuthFrame W (.proof localProof) with
    | .error e => heard.fail e
    | .ok localProofRaw =>
      { heard with
        outbound := Delimited.bytes localProofRaw
        written := false
        phase := .proof peerHello peerKey transcriptId }

def checkProof (h : Handshake W) (raw : Bytes) (peerKey : PubKey) (transcriptId : BitVec 256) :
    Except SessionError Unit := do
  let peerProof ← expectProof W raw
  verifyPeerProof W peerProof h.session.role.opposite transcriptId peerKey

/-- The peer's Proof has been read: check it, and the peer against the log once
more. -/
def onProof (h : Handshake W) (raw : Bytes) (peerHello : HelloFrame) (peerKey : PubKey)
    (transcriptId : BitVec 256) (live : Except TransportError Unit) : Handshake W :=
  match h.checkProof raw peerKey transcriptId with
  | .error e => h.fail e
  | .ok () =>
    match live with
    | .error e => h.fail (revocationError e)
    | .ok () =>
      { h with
        phase := .authenticated {
          peerPurpose := peerHello.purpose
          peer := ⟨peerHello.cert.userFingerprint W.toCrypto,
            peerHello.cert.agentFingerprint W.toCrypto⟩
          peerCert := peerHello.cert
          peerVerifyingKey := peerKey
          transcriptId := transcriptId } }

/-- Poll the handshake on the bytes that are there; `live` is what the log says
of the peer if it comes to that.  The result has the bytes not read. -/
def poll (h : Handshake W) (live : Except TransportError Unit) (inbound : Bytes) :
    Handshake W × Bytes :=
  match h.phase with
  | .hello =>
    match Delimited.front maxHandshakeFrameBytes inbound with
    | .short => (h, inbound)
    | .oversized len => (h.fail (.frameTooLarge "handshake" len maxHandshakeFrameBytes), inbound)
    -- the frame is not looked at before the own one is written
    | .whole raw rest => if h.written then (h.onHello raw, rest) else (h, inbound)
  | .proof peerHello peerKey transcriptId =>
    match Delimited.front maxHandshakeFrameBytes inbound with
    | .short => (h, inbound)
    | .oversized len => (h.fail (.frameTooLarge "handshake" len maxHandshakeFrameBytes), inbound)
    | .whole raw rest =>
      if h.written then (h.onProof raw peerHello peerKey transcriptId live, rest)
      else (h, inbound)
  | _ => (h, inbound)

def running (h : Handshake W) : Bool :=
  match h.phase with
  | .hello | .proof .. => true
  | _ => false

inductive Act where
  /-- The flight's frame is written and flushed. -/
  | flushed
  | poll (live : Except TransportError Unit)
  | io (why : String)
  | timeout
  | drop

def step (h : Handshake W) (inbound : Bytes) : Act → Handshake W × Bytes
  | .flushed => ({ h with written := true }, inbound)
  | .poll live => h.poll live inbound
  | .io why => (if h.running then h.fail (.io why) else h, inbound)
  | .timeout =>
    (if h.running then
      h.fail (.timeout "mesh session authentication" h.session.timeouts.authentication)
    else h, inbound)
  | .drop => (if h.running then { h with phase := .dropped } else h, inbound)

/-! ### What holds of an end in every state -/

/-- The outcome of a handshake in which the peer said `peer`. -/
def outcomeOf (W : CarrierWire) (peer : HelloFrame) (transcriptId : BitVec 256) :
    HandshakeOutcome where
  peerPurpose := peer.purpose
  peer := ⟨peer.cert.userFingerprint W.toCrypto, peer.cert.agentFingerprint W.toCrypto⟩
  peerCert := peer.cert
  peerVerifyingKey := peer.cert.agentPubkey
  transcriptId := transcriptId

/-- An end with this session, log and nonce reads these bytes as this Hello, and
accepts it. -/
structure Heard (session : UnauthenticatedMeshSession W) (state : RevocationState)
    (nonce : BitVec 256) (raw : Bytes) (peer : HelloFrame) : Prop where
  length : raw.length ≤ maxHandshakeFrameBytes
  parsed : W.authFrameOfJson raw = .ok (.hello peer)
  acceptable : Acceptable W (helloOf session nonce) peer session.localAgent.cert
    session.parameters state

/-- The peer's key signed the Proof of the other role. -/
def Proved (h : Handshake W) (peer : HelloFrame) (transcriptId : BitVec 256) : Prop :=
  ∃ s, W.verifyStrict peer.cert.agentPubkey
    (makeProofMessage h.session.role.opposite transcriptId) s = true

/-- What the phase says about what was heard. -/
def PhaseSound (h : Handshake W) : Prop :=
  match h.phase with
  | .hello => h.peerHelloRaw = none
  | .proof peer key t =>
    ∃ raw, h.peerHelloRaw = some raw ∧ Heard h.session h.state h.nonce raw peer ∧
      key = peer.cert.agentPubkey ∧ t = h.transcriptWith raw
  | .authenticated o =>
    ∃ raw peer, h.peerHelloRaw = some raw ∧ Heard h.session h.state h.nonce raw peer ∧
      o = outcomeOf W peer (h.transcriptWith raw) ∧ h.Proved peer (h.transcriptWith raw)
  | _ => True

structure Sound (h : Handshake W) : Prop where
  raw : h.localHelloRaw = W.authFrameJson (.hello h.localHello)
  length : h.localHelloRaw.length ≤ maxHandshakeFrameBytes
  cert : h.session.localAgent.cert.verifyWith W.toCrypto h.state = .ok ()
  heard : ∀ raw, h.peerHelloRaw = some raw → ∃ peer, Heard h.session h.state h.nonce raw peer
  phase : h.PhaseSound

theorem start_ok {u : UnauthenticatedMeshSession W}
    {revocation : Except TransportError RevocationState} {nonce : BitVec 256} {h : Handshake W}
    (hstart : start u revocation nonce = .ok h) :
    h.localHelloRaw = W.authFrameJson (.hello h.localHello) ∧
      h.localHelloRaw.length ≤ maxHandshakeFrameBytes ∧
      h.session.localAgent.cert.verifyWith W.toCrypto h.state = .ok () ∧
      h.peerHelloRaw = none ∧ h.phase = .hello := by
  simp only [start, bind_ok, pure, Except.pure, Except.ok.injEq] at hstart
  obtain ⟨state, -, _, -, _, hcert, raw, hraw, rfl⟩ := hstart
  obtain ⟨rfl, hlen⟩ := encodeAuthFrame_ok hraw
  exact ⟨rfl, hlen, validateLocalIdentity_ok.mp hcert, rfl, rfl⟩

theorem start_sound {u : UnauthenticatedMeshSession W}
    {revocation : Except TransportError RevocationState} {nonce : BitVec 256} {h : Handshake W}
    (hstart : start u revocation nonce = .ok h) : h.Sound := by
  obtain ⟨hraw, hlen, hcert, hnone, hphase⟩ := start_ok hstart
  refine ⟨hraw, hlen, hcert, ?_, ?_⟩
  · intro raw h
    rw [hnone] at h
    cases h
  · rw [PhaseSound, hphase]
    exact hnone

theorem checkHello_ok {h : Handshake W} {raw : Bytes} {peer : HelloFrame} {key : PubKey}
    (hcheck : h.checkHello raw = .ok (peer, key)) :
    W.authFrameOfJson raw = .ok (.hello peer) ∧
      Acceptable W h.localHello peer h.session.localAgent.cert h.session.parameters h.state ∧
      key = peer.cert.agentPubkey := by
  simp only [checkHello, bind_ok, pure, Except.pure, Except.ok.injEq, Prod.mk.injEq] at hcheck
  obtain ⟨peer', hpeer, key', hkey, rfl, rfl⟩ := hcheck
  obtain ⟨haccept, rfl⟩ := validatePeerHello_ok hkey
  exact ⟨expectHello_ok.mp hpeer, haccept, rfl⟩

theorem checkProof_ok {h : Handshake W} {raw : Bytes} {key : PubKey} {t : BitVec 256}
    (hcheck : h.checkProof raw key t = .ok ()) :
    ∃ s, W.verifyStrict key (makeProofMessage h.session.role.opposite t) s = true := by
  simp only [checkProof, bind_ok] at hcheck
  obtain ⟨proof, -, hproof⟩ := hcheck
  exact ⟨proof.signature, verifyPeerProof_ok hproof⟩

theorem Sound.ended {h : Handshake W} (hs : h.Sound) {phase : Phase}
    (hphase : ({ h with phase := phase } : Handshake W).PhaseSound) :
    ({ h with phase := phase } : Handshake W).Sound :=
  ⟨hs.raw, hs.length, hs.cert, hs.heard, hphase⟩

theorem Sound.onHello {h : Handshake W} (hs : h.Sound) {raw : Bytes}
    (hlen : raw.length ≤ maxHandshakeFrameBytes) : (h.onHello raw).Sound := by
  rw [Handshake.onHello]
  split
  · exact hs.ended trivial
  · rename_i peer key hcheck
    obtain ⟨hparsed, haccept, rfl⟩ := checkHello_ok hcheck
    have hheard : Heard h.session h.state h.nonce raw peer := ⟨hlen, hparsed, haccept⟩
    have hall : ∀ raw', some raw = some raw' →
        ∃ peer, Heard h.session h.state h.nonce raw' peer := by
      intro raw' hraw
      cases hraw
      exact ⟨peer, hheard⟩
    dsimp only
    split
    · exact ⟨hs.raw, hs.length, hs.cert, hall, trivial⟩
    · exact ⟨hs.raw, hs.length, hs.cert, hall, raw, rfl, hheard, rfl, rfl⟩

theorem Sound.onProof {h : Handshake W} (hs : h.Sound) {raw : Bytes} {peer : HelloFrame}
    {key : PubKey} {t : BitVec 256} {live : Except TransportError Unit}
    (hphase : h.phase = .proof peer key t) : (h.onProof raw peer key t live).Sound := by
  have hproof := hs.phase
  rw [PhaseSound, hphase] at hproof
  obtain ⟨helloRaw, hbytes, hheard, rfl, rfl⟩ := hproof
  unfold Handshake.onProof
  split
  · exact hs.ended trivial
  · rename_i hcheck
    cases live with
    | error e => exact hs.ended trivial
    | ok u => exact hs.ended ⟨helloRaw, peer, hbytes, hheard, rfl, checkProof_ok hcheck⟩

theorem Sound.poll {h : Handshake W} (hs : h.Sound) (live : Except TransportError Unit)
    (inbound : Bytes) : (h.poll live inbound).1.Sound := by
  unfold Handshake.poll
  split
  · split
    · exact hs
    · exact hs.ended trivial
    · rename_i raw rest hfront
      split
      · exact hs.onHello (Delimited.front_whole_le hfront)
      · exact hs
  · rename_i peer key t hphase
    split
    · exact hs
    · exact hs.ended trivial
    · split
      · exact hs.onProof hphase
      · exact hs
  · exact hs

/-- **Whatever happens to a handshake, it stays sound.** -/
theorem step_sound {h : Handshake W} (hs : h.Sound) (inbound : Bytes) (act : Act) :
    (h.step inbound act).1.Sound := by
  cases act with
  | flushed => exact ⟨hs.raw, hs.length, hs.cert, hs.heard, hs.phase⟩
  | poll live => exact hs.poll live inbound
  | io why =>
    rw [step]
    split
    · exact hs.ended trivial
    · exact hs
  | timeout =>
    rw [step]
    split
    · exact hs.ended trivial
    · exact hs
  | drop =>
    rw [step]
    split
    · exact hs.ended trivial
    · exact hs

end Handshake

end Ssh
