/-
Agent keys, certificate chains and detached assertions.

A chain roots at a user key and grows by delegation: each link is signed by
its parent's key, attenuates its parent's caveats, and may be bounded to a set
of generations.  `CertChain.verifyAt g` walks the chain at generation `g`;
`Assertion.verify` additionally pins the root agent, `Assertion.verifyUser`
asks for a one-link chain issued by a given user.

ed25519, blake3, hex and JSON are third-party: they are the fields of
`Crypto`, and what is relied on about them is stated as hypotheses where it is
used.
-/
import AgentMesh.Caveats

namespace Mesh

/-- A raw 32-byte ed25519 public key. -/
abbrev PubKey := BitVec 256

/-- A 32-byte signing seed. -/
abbrev Seed := BitVec 256

/-- A 64-byte ed25519 signature. -/
abbrev Signature := BitVec 512

/-- The bytes of a 32-byte value, most significant first. -/
def bytes32 (x : BitVec 256) : Bytes :=
  (List.range 32).map fun i => UInt8.ofNat (x.toNat >>> (8 * (31 - i)))

/-- A 32-byte BLAKE3 hash of a key. -/
structure Fingerprint where
  hash : BitVec 256
  deriving DecidableEq

structure UserPublic where
  verifying : PubKey
  deriving DecidableEq

/-- Metadata claimed by an agent when its certificate is issued. -/
structure AgentMetadata where
  role : String
  host : String
  capabilities : List String
  issuedAt : String
  expiresAt : Option String
  caveats : Caveats
  deriving DecidableEq

/-- The proof that an agent serves a user: one constructor per issuer, a user
key (`root`) or a parent agent with its own chain (`delegated`). -/
inductive CertChain where
  | root (agentPubkey : PubKey) (metadata : AgentMetadata) (user : UserPublic)
      (issuerSig : Signature)
  | delegated (agentPubkey : PubKey) (metadata : AgentMetadata) (pubkey : PubKey)
      (parent : CertChain) (issuerSig : Signature)
  deriving DecidableEq

/-- Who signed a chain's last link. -/
inductive Issuer where
  | user (u : UserPublic)
  | agent (pubkey : PubKey) (parent : CertChain)

namespace CertChain

def agentPubkey : CertChain → PubKey
  | root pk _ _ _ => pk
  | delegated pk _ _ _ _ => pk

def metadata : CertChain → AgentMetadata
  | root _ m _ _ => m
  | delegated _ m _ _ _ => m

def issuer : CertChain → Issuer
  | root _ _ u _ => .user u
  | delegated _ _ pk parent _ => .agent pk parent

/-- The chain's last link was signed by a user key. -/
def issuedByUser : CertChain → Bool
  | root .. => true
  | delegated .. => false

/-- The key of the chain's root agent: the certificate issued by a user. -/
def rootAgent : CertChain → PubKey
  | root pk _ _ _ => pk
  | delegated _ _ _ parent _ => parent.rootAgent

end CertChain

/-- The part of the protocol crate's error type the modelled calls return. -/
inductive MeshError where
  | badSignature
  | invalidCertChain (why : String)
  | caveatAmplification
  | generation (why : String)
  deriving DecidableEq

def MeshError.text : MeshError → String
  | .badSignature => "signature verification failed"
  | .invalidCertChain why => "invalid cert chain: " ++ why
  | .caveatAmplification =>
    "caveat amplification: a delegated agent may not grant more authority than its parent"
  | .generation why => "generation: " ++ why

/-- Third-party cryptography and encodings. -/
structure Crypto where
  /-- `blake3::hash` of a key's bytes. -/
  blake3 : PubKey → BitVec 256
  /-- `hex::encode` of 32 bytes. -/
  hexEncode : BitVec 256 → String
  /-- The public key of a seed. -/
  publicKey : Seed → PubKey
  /-- ed25519 signing. -/
  sign : Seed → Bytes → Signature
  /-- `VerifyingKey::from_bytes` then `verify_strict`. -/
  verifyStrict : PubKey → Bytes → Signature → Bool
  /-- `VerifyingKey::verify`, as a user key checks certificates. -/
  verify : PubKey → Bytes → Signature → Bool
  /-- `serde_json::to_vec` of certificate metadata. -/
  metadataJson : AgentMetadata → Bytes

variable (C : Crypto)

/-- An honestly made ed25519 signature verifies. -/
def Crypto.HonestVerifies : Prop :=
  ∀ seed m, C.verifyStrict (C.publicKey seed) m (C.sign seed m) = true

/-- A signature that verifies was made by the key's holder, who signed that
message. -/
def Crypto.Unforgeable (signed : PubKey → Bytes → Prop) : Prop :=
  ∀ pk m s, C.verifyStrict pk m s = true ∨ C.verify pk m s = true → signed pk m

def Fingerprint.ofBytes (pk : PubKey) : Fingerprint := ⟨C.blake3 pk⟩

def Fingerprint.hex (f : Fingerprint) : String := C.hexEncode f.hash

/-- The first six bytes, which is how a fingerprint is displayed. -/
def Fingerprint.short (f : Fingerprint) : String := .ofList ((f.hex C).toList.take 12)

def CertChain.agentFingerprint (cert : CertChain) : Fingerprint :=
  .ofBytes C cert.agentPubkey

/-- The bytes a certificate's issuer signs. -/
def signPayload (pk : PubKey) (m : AgentMetadata) : Bytes :=
  bytes32 pk ++ C.metadataJson m

/-- The causal-generation gate: a bounded scope passes only when a current
generation is supplied and lies within it. -/
def checkGeneration (scope : Scope ℕ) (current : Option ℕ) : Except MeshError Unit :=
  match scope, current with
  | .all, _ => .ok ()
  | .only _, none =>
    .error (.generation
      "cert is generation-scoped; verify with a current generation via verify_at()")
  | .only gens, some g =>
    ensure (g ∈ gens) (.generation ("cert is not valid for generation " ++ toString g))

/-- The chain walk: generation gate, signature and attenuation at every link. -/
def CertChain.verifyInner (current : Option ℕ) : CertChain → Except MeshError Unit
  | .root pk m user sig => do
    checkGeneration m.caveats.validForGeneration current
    ensure (C.verify user.verifying (signPayload C pk m) sig) .badSignature
  | .delegated pk m issuer parent sig => do
    checkGeneration m.caveats.validForGeneration current
    ensure (issuer = parent.agentPubkey)
      (.invalidCertChain "delegated cert issuer pubkey does not match its parent")
    parent.verifyInner current
    ensure (C.verifyStrict issuer (signPayload C pk m) sig) .badSignature
    ensure (m.caveats.leq parent.metadata.caveats) .caveatAmplification

def CertChain.verifyAt (cert : CertChain) (generation : ℕ) : Except MeshError Unit :=
  cert.verifyInner C (some generation)

/-! ### Possession challenges and agent keys -/

/-- A possession challenge: issued by a certifier for a subject's key. -/
structure PossessionChallenge where
  issuerPubkey : PubKey
  subjectPubkey : PubKey
  nonce : BitVec 256
  deriving DecidableEq

def popDomain : Bytes := ascii "agent-mesh/possession-challenge/v1"

/-- What the subject signs to answer the challenge. -/
def PossessionChallenge.signingBytes (c : PossessionChallenge) : Bytes :=
  popDomain ++ bytes32 c.issuerPubkey ++ bytes32 c.subjectPubkey ++ bytes32 c.nonce

/-- A signing key with the certificate of its public half. -/
structure AgentKey where
  signing : Seed
  cert : CertChain
  /-- A seed that does not match the certificate is rejected when a key is
  loaded or minted. -/
  seed_matches : C.publicKey signing = cert.agentPubkey

variable {C}

namespace AgentKey

def fingerprint (k : AgentKey C) : Fingerprint := .ofBytes C k.cert.agentPubkey

/-- Issue a challenge for `subject` (the nonce is fresh randomness). -/
def possessionChallenge (k : AgentKey C) (subject : PubKey) (nonce : BitVec 256) :
    PossessionChallenge where
  issuerPubkey := k.cert.agentPubkey
  subjectPubkey := subject
  nonce := nonce

/-- Attenuation check, then sign the key and its metadata under this agent. -/
def certifyPubkey (k : AgentKey C) (pk : PubKey) (m : AgentMetadata) :
    Except MeshError CertChain := do
  ensure (m.caveats.leq k.cert.metadata.caveats) .caveatAmplification
  return .delegated pk m k.cert.agentPubkey k.cert (C.sign k.signing (signPayload C pk m))

/-- Certify an externally held key against a proof of possession. -/
def delegateExternal (k : AgentKey C) (challenge : PossessionChallenge) (proof : Signature)
    (m : AgentMetadata) : Except MeshError CertChain := do
  ensure (challenge.issuerPubkey = k.cert.agentPubkey)
    (.invalidCertChain "possession challenge was not issued by this agent")
  ensure (C.verifyStrict challenge.subjectPubkey challenge.signingBytes proof) .badSignature
  k.certifyPubkey challenge.subjectPubkey m

end AgentKey

/-! ### Assertions -/

/-- An author's detached signature over a content id. -/
structure Assertion where
  author : CertChain
  sig : Signature
  deriving DecidableEq

def assertionDomain : Bytes := ascii "agent-mesh/provenance/assertion/v1" ++ [0]

/-- What an assertion over `cid` signs. -/
def message (cid : ContentId) : Bytes := assertionDomain ++ cid.bytes

namespace Assertion

/-- The key's holder vouches for `cid`. -/
def sign (k : AgentKey C) (cid : ContentId) : Assertion :=
  ⟨k.cert, C.sign k.signing (message cid)⟩

variable (C)

/-- The author signed `cid`, with a chain rooted at `trustRoot`, at `generation`. -/
def verify (a : Assertion) (cid : ContentId) (trustRoot : PubKey) (generation : ℕ) :
    Except MeshError Unit := do
  a.author.verifyAt C generation
  ensure (a.author.rootAgent = trustRoot)
    (.invalidCertChain "author chain is not rooted at the trust root")
  ensure (C.verifyStrict a.author.agentPubkey (message cid) a.sig) .badSignature

/-- The author signed `cid` with a key the user `user` certified directly. -/
def verifyUser (a : Assertion) (cid : ContentId) (user : UserPublic) (generation : ℕ) :
    Except MeshError Unit := do
  a.author.verifyAt C generation
  match a.author.issuer with
  | .user u =>
    ensure (u = user) (.invalidCertChain "author is not certified directly by this user")
  | .agent .. => .error (.invalidCertChain "author is not certified directly by this user")
  ensure (C.verifyStrict a.author.agentPubkey (message cid) a.sig) .badSignature

end Assertion

/-! ### What a successful verification says -/

@[simp] theorem checkGeneration_ok {scope : Scope ℕ} {g : ℕ} {u : Unit} :
    checkGeneration scope (some g) = .ok u ↔ ∀ gens, scope = .only gens → g ∈ gens := by
  cases scope with
  | all => exact ⟨fun _ gens h => (nomatch h), fun _ => rfl⟩
  | only gens =>
    rw [checkGeneration, ensure_ok]
    exact ⟨fun h gens' he => by cases he; exact h, fun h => h gens rfl⟩

/-- A chain verified at a generation has its own scope at that generation. -/
theorem CertChain.verifyAt_generation {cert : CertChain} {g : ℕ} {u : Unit}
    (h : cert.verifyAt C g = .ok u) :
    ∀ gens, cert.metadata.caveats.validForGeneration = .only gens → g ∈ gens := by
  cases cert with
  | root pk m user sig =>
    rw [verifyAt, verifyInner, bind_ok] at h
    obtain ⟨_, hg, -⟩ := h
    exact checkGeneration_ok.mp hg
  | delegated pk m issuer parent sig =>
    rw [verifyAt, verifyInner, bind_ok] at h
    obtain ⟨_, hg, -⟩ := h
    exact checkGeneration_ok.mp hg

theorem CertChain.eq_root_of_issuer {cert : CertChain} {user : UserPublic}
    (h : cert.issuer = .user user) : ∃ pk m sig, cert = .root pk m user sig := by
  cases cert with
  | root pk m v sig =>
    cases h
    exact ⟨pk, m, sig, rfl⟩
  | delegated pk m issuer parent sig => cases h

theorem CertChain.verifyAt_user {cert : CertChain} {user : UserPublic} {g : ℕ} {u : Unit}
    (h : cert.verifyAt C g = .ok u) (hi : cert.issuer = .user user) :
    ∃ sig, C.verify user.verifying (signPayload C cert.agentPubkey cert.metadata) sig = true := by
  obtain ⟨pk, m, sig, rfl⟩ := CertChain.eq_root_of_issuer hi
  rw [verifyAt, verifyInner, bind_ok] at h
  obtain ⟨_, -, hv⟩ := h
  exact ⟨sig, ensure_ok.mp hv⟩

/-- A root certificate without generation bound that verifies at one
generation verifies at every one. -/
theorem CertChain.verifyAt_of_unbounded {pk : PubKey} {m : AgentMetadata} {user : UserPublic}
    {sig : Signature} {g : ℕ} (hm : m.caveats.validForGeneration = .all)
    (h : (CertChain.root pk m user sig).verifyAt C g = .ok ()) (g' : ℕ) :
    (CertChain.root pk m user sig).verifyAt C g' = .ok () := by
  simp only [verifyAt, verifyInner, bind_ok, checkGeneration_ok, ensure_ok, hm] at h ⊢
  obtain ⟨u, -, hv⟩ := h
  refine ⟨u, ?_, hv⟩
  intro gens he
  cases he

theorem Assertion.verify_ok {a : Assertion} {cid : ContentId} {root : PubKey} {g : ℕ} {u : Unit} :
    a.verify C cid root g = .ok u ↔
      a.author.verifyAt C g = .ok () ∧ a.author.rootAgent = root ∧
        C.verifyStrict a.author.agentPubkey (message cid) a.sig = true := by
  simp only [verify, bind_ok, ensure_ok]
  constructor
  · rintro ⟨_, h1, _, h2, h3⟩
    exact ⟨h1, h2, h3⟩
  · rintro ⟨h1, h2, h3⟩
    exact ⟨(), h1, (), h2, h3⟩

theorem Assertion.verifyUser_ok {a : Assertion} {cid : ContentId} {user : UserPublic} {g : ℕ}
    {u : Unit} :
    a.verifyUser C cid user g = .ok u ↔
      a.author.verifyAt C g = .ok () ∧ a.author.issuer = .user user ∧
        C.verifyStrict a.author.agentPubkey (message cid) a.sig = true := by
  rw [verifyUser, bind_ok]
  cases hi : a.author.issuer with
  | user v =>
    simp only [bind_ok, ensure_ok, Issuer.user.injEq]
    constructor
    · rintro ⟨_, h1, _, h2, h3⟩
      exact ⟨h1, h2, h3⟩
    · rintro ⟨h1, h2, h3⟩
      exact ⟨(), h1, (), h2, h3⟩
  | agent pk parent =>
    constructor
    · rintro ⟨_, -, h⟩
      cases h
    · rintro ⟨-, h, -⟩
      cases h

/-- An honest assertion under a root certificate that verifies is accepted
with that key as trust root. -/
theorem Assertion.verify_sign (hC : C.HonestVerifies) {k : AgentKey C} {cid : ContentId} {g : ℕ}
    (hv : k.cert.verifyAt C g = .ok ()) (hr : k.cert.rootAgent = k.cert.agentPubkey) :
    (Assertion.sign k cid).verify C cid k.cert.agentPubkey g = .ok () := by
  refine verify_ok.mpr ⟨hv, hr, ?_⟩
  have h := hC k.signing (message cid)
  rw [k.seed_matches] at h
  exact h

end Mesh
