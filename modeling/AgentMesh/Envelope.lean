/-
Signed envelopes and their admission.

Every message between mesh peers travels in an envelope signed by its sender's
agent key.  `admitEnvelope` is the immutable half of admission, shared by the inbox and
by session streams: it verifies the envelope, binds its signer to the carrier
the transport authenticated, holds the same-user policy and checks a direct
recipient.  It touches no state.

* `SignedEnvelope.verify_ok`, `admit_ok` — what an admitted envelope is;
* `admit_new` — an honest envelope to this agent is admitted.
-/
import AgentMesh.Attenuation

namespace Mesh

inductive Recipient where
  | direct (agentFp : Fingerprint)
  | topic (name : String)
  | anycast (capability : String)
  deriving DecidableEq

/-- A wire envelope, signed by the sender's agent key. -/
structure SignedEnvelope where
  certChain : CertChain
  recipient : Recipient
  /-- 24 random bytes. -/
  nonce : BitVec 192
  sequence : ℕ
  payloadCid : BitVec 256
  payload : Bytes
  agentSig : Signature
  deriving DecidableEq

deriving instance Countable for Recipient
deriving instance Countable for SignedEnvelope

inductive EnvelopeError where
  | mesh (e : MeshError)
  | malformedEnvelope (why : String)
  | invalidKey (why : String)
  deriving DecidableEq

def EnvelopeError.text : EnvelopeError → String
  | .mesh e => e.text
  | .malformedEnvelope why => "malformed envelope: " ++ why
  | .invalidKey why => "invalid key format: " ++ why

/-- Third-party hashing and encodings of the wire. -/
structure Wire extends Crypto where
  /-- `blake3::hash` of a payload. -/
  payloadHash : Bytes → BitVec 256
  /-- `serde_json::to_vec` of a recipient. -/
  recipientJson : Recipient → Bytes
  /-- Why `VerifyingKey::from_bytes` rejects a key, if it does. -/
  keyError : PubKey → Option String

/-- The `n` bytes of a number, most significant first. -/
def beBytes (n : ℕ) (x : ℕ) : Bytes :=
  (List.range n).map fun i => UInt8.ofNat (x >>> (8 * (n - 1 - i)))

/-- The number with these bytes, most significant first. -/
def ofBeBytes (b : Bytes) : ℕ := b.foldl (fun acc x => acc * 256 + x.toNat) 0

@[simp] theorem length_beBytes (n x : ℕ) : (beBytes n x).length = n := by simp [beBytes]

theorem beBytes_succ (n x : ℕ) : beBytes (n + 1) x = beBytes n (x / 256) ++ [UInt8.ofNat x] := by
  rw [beBytes, beBytes, List.range_succ, List.map_append]
  congr 1
  · apply List.map_congr_left
    intro i hi
    have hi : i < n := List.mem_range.mp hi
    have hshift : 8 * (n + 1 - 1 - i) = 8 + 8 * (n - 1 - i) := by omega
    rw [hshift, Nat.shiftRight_add, Nat.shiftRight_eq_div_pow x 8]
  · have hlast : 8 * (n + 1 - 1 - n) = 0 := by omega
    rw [List.map_singleton, hlast]
    rfl

theorem ofBeBytes_beBytes {n : ℕ} : ∀ {x : ℕ}, x < 256 ^ n → ofBeBytes (beBytes n x) = x := by
  induction n with
  | zero =>
    intro x hx
    have hx : x = 0 := by simpa using hx
    rw [hx]
    rfl
  | succ n ih =>
    intro x hx
    have hhigh : x / 256 < 256 ^ n := Nat.div_lt_of_lt_mul (by rwa [mul_comm, ← pow_succ])
    have hlow : ofBeBytes (beBytes n (x / 256)) = x / 256 := ih hhigh
    rw [beBytes_succ, ofBeBytes, List.foldl_append]
    show ofBeBytes (beBytes n (x / 256)) * 256 + (UInt8.ofNat x).toNat = x
    rw [hlow, UInt8.toNat_ofNat']
    omega

theorem beBytes_inj {n x y : ℕ} (hx : x < 256 ^ n) (hy : y < 256 ^ n)
    (h : beBytes n x = beBytes n y) : x = y := by
  rw [← ofBeBytes_beBytes hx, h, ofBeBytes_beBytes hy]

def envelopeTag : Bytes := ascii "agent-mesh-envelope-v1"

variable (W : Wire)

def signingMessage (recipient : Recipient) (nonce : BitVec 192) (sequence : ℕ)
    (payloadCid : BitVec 256) : Bytes :=
  envelopeTag ++ W.recipientJson recipient ++ beBytes 24 nonce.toNat ++ beBytes 8 sequence ++
    bytes32 payloadCid

namespace SignedEnvelope

variable {W} in
/-- Build and sign an envelope (the nonce is fresh randomness). -/
def new (sender : AgentKey W.toCrypto) (nonce : BitVec 192) (recipient : Recipient)
    (sequence : ℕ) (payload : Bytes) : SignedEnvelope where
  certChain := sender.cert
  recipient := recipient
  nonce := nonce
  sequence := sequence
  payloadCid := W.payloadHash payload
  payload := payload
  agentSig := W.sign sender.signing
    (signingMessage W recipient nonce sequence (W.payloadHash payload))

/-- The chain is valid, the payload is the one named, and the agent signed. -/
def verify (env : SignedEnvelope) : Except EnvelopeError Unit := do
  (env.certChain.verifyInner W.toCrypto none).mapError .mesh
  ensure (W.payloadHash env.payload = env.payloadCid) (.malformedEnvelope "payload_cid mismatch")
  match W.keyError env.certChain.agentPubkey with
  | some e => .error (.invalidKey e)
  | none =>
    ensure (W.verify env.certChain.agentPubkey
      (signingMessage W env.recipient env.nonce env.sequence env.payloadCid) env.agentSig)
      (.mesh .badSignature)

def senderAgentFp (env : SignedEnvelope) : Fingerprint := env.certChain.agentFingerprint W.toCrypto

def senderUserFp (env : SignedEnvelope) : Fingerprint := env.certChain.userFingerprint W.toCrypto

end SignedEnvelope

end Mesh

/-- The part of the transport crate's error type the modelled calls return. -/
inductive Transport.TransportError where
  | iroh (why : String)
  | badCertChain (why : String)
  | revoked (agent : String)
  | revocationUnavailable (why : String)
  | badEnvelope (why : String)
  | peerClosed
  | io (why : String)
  deriving DecidableEq

namespace Bus

open Mesh

/-! ### Admission -/

/-- The identity a transport authenticated for a session. -/
structure AuthenticatedPeer where
  userFp : Fingerprint
  agentFp : Fingerprint
  deriving DecidableEq

/-- How a delivery reached the bus. -/
inductive DeliveryProvenance where
  | direct (carrier : AuthenticatedPeer)
  | unbound
  deriving DecidableEq

/-- The part of the bus crate's error type the modelled calls return. -/
inductive BusError where
  | notRunning
  | timeout (idle : ℕ)
  | replay
  | badSequence (peerFp : String) (expected actual : ℕ)
  | unboundDelivery
  | carrierAgentMismatch (carrierAgentFp signerAgentFp : String)
  | carrierUserMismatch (carrierUserFp signerUserFp : String)
  | foreignPeer (peerUserFp localUserFp : String)
  | wrongRecipient (recipientAgentFp localAgentFp : String)
  | transport (e : Transport.TransportError)
  | core (e : EnvelopeError)
  | sessionRefused (reason : String)
  | sessionProtocol (why : String)
  | peerDisconnected
  | sequenceReservation (why : String)
  | json (why : String)
  deriving DecidableEq

/-- The verified principal behind an envelope: who signed it. -/
structure RequestContext where
  callerUserFp : Fingerprint
  callerAgentFp : Fingerprint
  deriving DecidableEq

/-- The carrier of a direct delivery; a delivery bound to no peer is refused. -/
def DeliveryProvenance.carrier : DeliveryProvenance → Except BusError AuthenticatedPeer
  | .direct carrier => .ok carrier
  | .unbound => .error .unboundDelivery

section Admit

variable (W : Wire)

/-- The recipient check: only a direct recipient is compared. -/
def admitRecipient (localAgentFp : Fingerprint) : Recipient → Except BusError Unit
  | .direct agentFp =>
    ensure (agentFp = localAgentFp)
      (.wrongRecipient (agentFp.hex W.toCrypto) (localAgentFp.hex W.toCrypto))
  | _ => .ok ()

/-- The immutable half of admission. -/
def admitEnvelope (env : SignedEnvelope) (provenance : DeliveryProvenance)
    (localUserFp localAgentFp : Fingerprint) : Except BusError RequestContext := do
  (env.verify W).mapError .core
  let carrier ← provenance.carrier
  let signerAgentFp := env.senderAgentFp W
  let signerUserFp := env.senderUserFp W
  ensure (carrier.agentFp = signerAgentFp)
    (.carrierAgentMismatch (carrier.agentFp.hex W.toCrypto) (signerAgentFp.hex W.toCrypto))
  ensure (carrier.userFp = signerUserFp)
    (.carrierUserMismatch (carrier.userFp.hex W.toCrypto) (signerUserFp.hex W.toCrypto))
  ensure (signerUserFp = localUserFp)
    (.foreignPeer (signerUserFp.hex W.toCrypto) (localUserFp.hex W.toCrypto))
  admitRecipient W localAgentFp env.recipient
  return ⟨signerUserFp, signerAgentFp⟩

end Admit

end Bus

/-! ### What an admitted envelope is -/

namespace Mesh

variable {W : Wire}

theorem SignedEnvelope.verify_ok {env : SignedEnvelope} :
    env.verify W = .ok () ↔ env.certChain.verifyInner W.toCrypto none = .ok () ∧
      W.payloadHash env.payload = env.payloadCid ∧
      W.keyError env.certChain.agentPubkey = none ∧
      W.verify env.certChain.agentPubkey
        (signingMessage W env.recipient env.nonce env.sequence env.payloadCid) env.agentSig =
          true := by
  simp only [verify, bind_ok, mapError_ok, ensure_ok]
  cases W.keyError env.certChain.agentPubkey with
  | some e =>
    constructor
    · rintro ⟨_, -, _, -, h⟩
      cases h
    · rintro ⟨-, -, h, -⟩
      cases h
  | none =>
    simp only [ensure_ok]
    constructor
    · rintro ⟨_, hcert, _, hcid, hsig⟩
      exact ⟨hcert, hcid, trivial, hsig⟩
    · rintro ⟨hcert, hcid, -, hsig⟩
      exact ⟨(), hcert, (), hcid, hsig⟩

end Mesh

namespace Bus

open Mesh

variable {W : Wire} {env : SignedEnvelope} {localUserFp localAgentFp : Fingerprint}

theorem admitRecipient_ok {r : Recipient} {u : Unit} :
    admitRecipient W localAgentFp r = .ok u ↔ ∀ fp, r = .direct fp → fp = localAgentFp := by
  cases r with
  | direct fp =>
    rw [admitRecipient, ensure_ok]
    exact ⟨fun h fp' he => by cases he; exact h, fun h => h fp rfl⟩
  | topic name => exact ⟨fun _ fp h => (nomatch h), fun _ => rfl⟩
  | anycast capability => exact ⟨fun _ fp h => (nomatch h), fun _ => rfl⟩

/-- **What an admitted envelope is.** -/
theorem admit_ok {provenance : DeliveryProvenance} {ctx : RequestContext} :
    admitEnvelope W env provenance localUserFp localAgentFp = .ok ctx ↔
      env.verify W = .ok () ∧ provenance = .direct ⟨localUserFp, env.senderAgentFp W⟩ ∧
      env.senderUserFp W = localUserFp ∧ (∀ fp, env.recipient = .direct fp → fp = localAgentFp) ∧
      ctx = ⟨localUserFp, env.senderAgentFp W⟩ := by
  simp only [admitEnvelope, bind_ok, mapError_ok, ensure_ok, admitRecipient_ok, pure, Except.pure,
    Except.ok.injEq]
  constructor
  · rintro ⟨_, hverify, carrier, hcarrier, _, hagent, _, huser, _, hlocal, _, hto, rfl⟩
    refine ⟨hverify, ?_, hlocal, hto, by rw [hlocal]⟩
    cases provenance with
    | unbound => cases hcarrier
    | direct carrier' =>
      cases hcarrier
      rw [← hlocal, ← huser, ← hagent]
  · rintro ⟨hverify, rfl, hlocal, hto, rfl⟩
    exact ⟨(), hverify, _, rfl, (), rfl, (), hlocal.symm, (), hlocal, (), hto, by rw [hlocal]⟩

theorem admit_signer {provenance : DeliveryProvenance} {ctx : RequestContext}
    (h : admitEnvelope W env provenance localUserFp localAgentFp = .ok ctx) :
    ctx.callerAgentFp = env.senderAgentFp W := by
  rw [(admit_ok.mp h).2.2.2.2]

/-- **An honest envelope to this agent, carried by its signer, is admitted.** -/
theorem admit_new (hC : W.toCrypto.Correct) {sender : AgentKey W.toCrypto}
    (hkey : W.keyError sender.cert.agentPubkey = none)
    (hcert : sender.cert.verifyInner W.toCrypto none = .ok ())
    (huser : sender.cert.userFingerprint W.toCrypto = localUserFp) (nonce : BitVec 192)
    (sequence : ℕ) (payload : Bytes) :
    admitEnvelope W (.new sender nonce (.direct localAgentFp) sequence payload)
      (.direct ⟨localUserFp, sender.fingerprint⟩) localUserFp localAgentFp =
        .ok ⟨localUserFp, sender.fingerprint⟩ := by
  refine admit_ok.mpr ⟨SignedEnvelope.verify_ok.mpr ⟨hcert, rfl, hkey, ?_⟩, rfl, huser, ?_, rfl⟩
  · have hsig := hC.user sender.signing
      (signingMessage W (.direct localAgentFp) nonce sequence (W.payloadHash payload))
    rw [sender.seed_matches] at hsig
    exact hsig
  · intro fp h
    cases h
    rfl

end Bus
