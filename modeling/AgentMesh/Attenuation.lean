/-
Delegation never amplifies authority.

What a caveat set is for: an authority, the paths, commands and hosts it allows
on each axis, a bound on calls, and the generations it is valid for.
`Caveats.leq` decides the order of authorities, so it is transitive, and what
each link of a chain checks against its parent holds against every ancestor.
Minting makes the same checks as verifying, so a chain that was minted is
refused for one reason only, its own generation scope.

* `Caveats.leq_iff` — the attenuation check is the order of authorities;
* `CertChain.links_of_verifyAt` — what a chain that verifies is, link by link;
* `CertChain.Minted.verifyAt` — a minted chain verifies in its own scope;
* `no_amplification` — both directions, for chains of any depth.
-/
import AgentMesh.Revocation
import AgentMesh.Ideal

/-! ### Authorities -/

def Scope.items {T : Type} : Scope T → Set T
  | .all => Set.univ
  | .only items => ↑items

/-- The check on one axis is inclusion: a bounded axis never authorizes
everything. -/
theorem Scope.leq_iff {T : Type} [DecidableEq T] [Infinite T] {a b : Scope T} :
    a.leq b = true ↔ a.items ≤ b.items := by
  cases a with
  | all =>
    cases b with
    | all => exact ⟨fun _ => le_rfl, fun _ => rfl⟩
    | only b =>
      refine ⟨fun h => (nomatch h), fun h => ?_⟩
      exact absurd (b.finite_toSet.subset h) Set.infinite_univ
  | only a =>
    cases b with
    | all => exact ⟨fun _ => Set.subset_univ _, fun _ => rfl⟩
    | only b => exact decide_eq_true_iff.trans Finset.coe_subset.symm

/-- The bound as a number, `⊤` if there is none. -/
def CountBound.limit : CountBound → WithTop ℕ
  | .unlimited => ⊤
  | .atMost n => n

theorem CountBound.leq_iff {a b : CountBound} : a.leq b = true ↔ a.limit ≤ b.limit := by
  cases b with
  | unlimited =>
    have h : a.leq .unlimited = true := by cases a <;> rfl
    exact ⟨fun _ => le_top, fun _ => h⟩
  | atMost m =>
    cases a with
    | unlimited => exact ⟨fun h => (nomatch h), fun h => absurd h (WithTop.coe_lt_top m).not_ge⟩
    | atMost n => exact decide_eq_true_iff.trans WithTop.coe_le_coe.symm

/-- An authority: what each axis allows, in the order of the axes. -/
abbrev Authority := Set String × Set String × Set String × Set String × WithTop ℕ × Set ℕ

def Caveats.authority (c : Caveats) : Authority :=
  (c.fsRead.items, c.fsWrite.items, c.exec.items, c.net.items, c.maxCalls.limit,
    c.validForGeneration.items)

/-- **The attenuation check is the order of authorities.** -/
theorem Caveats.leq_iff {a b : Caveats} : a.leq b = true ↔ a.authority ≤ b.authority := by
  simp only [leq, authority, Bool.and_eq_true, Prod.mk_le_mk, Scope.leq_iff, CountBound.leq_iff,
    and_assoc]

theorem Caveats.leq_refl (a : Caveats) : a.leq a = true := leq_iff.mpr le_rfl

theorem Caveats.leq_trans {a b c : Caveats} (h : a.leq b = true) (h' : b.leq c = true) :
    a.leq c = true :=
  leq_iff.mpr ((leq_iff.mp h).trans (leq_iff.mp h'))

theorem Caveats.generation_mono {a b : Caveats} (h : a.leq b = true) {g : ℕ}
    (hg : g ∈ a.validForGeneration.items) : g ∈ b.validForGeneration.items := by
  have hle := leq_iff.mp h
  exact hle.2.2.2.2.2 hg

namespace Mesh

/-! ### Minting -/

structure UserKey where
  signing : Seed

variable (C : Crypto)

def UserKey.public_ (u : UserKey) : UserPublic := ⟨C.publicKey u.signing⟩

def UserKey.sign (u : UserKey) (m : Bytes) : Signature := C.sign u.signing m

namespace AgentKey

def issueWith (user : UserKey) (signing : Seed) (m : AgentMetadata) : AgentKey C where
  signing := signing
  cert := .root (C.publicKey signing) m (user.public_ C)
    (user.sign C (signPayload C (C.publicKey signing) m))
  seed_matches := rfl

variable {C}

theorem certifyPubkey_ok {k : AgentKey C} {pk : PubKey} {m : AgentMetadata} {cert : CertChain} :
    k.certifyPubkey pk m = .ok cert ↔ m.caveats.leq k.cert.metadata.caveats = true ∧
      cert = .delegated pk m k.cert.agentPubkey k.cert (C.sign k.signing (signPayload C pk m)) := by
  simp only [certifyPubkey, bind_ok, ensure_ok, pure, Except.pure, Except.ok.injEq]
  constructor
  · rintro ⟨_, hleq, rfl⟩
    exact ⟨hleq, rfl⟩
  · rintro ⟨hleq, rfl⟩
    exact ⟨(), hleq, rfl⟩

/-- Delegate a sub-agent key (the seed is fresh randomness). -/
def delegate (k : AgentKey C) (signing : Seed) (m : AgentMetadata) :
    Except MeshError (AgentKey C) :=
  match h : k.certifyPubkey (C.publicKey signing) m with
  | .error e => .error e
  | .ok cert => .ok ⟨signing, cert, by rw [(certifyPubkey_ok.mp h).2]; rfl⟩

theorem delegate_ok {k k' : AgentKey C} {signing : Seed} {m : AgentMetadata} :
    k.delegate signing m = .ok k' ↔
      k.certifyPubkey (C.publicKey signing) m = .ok k'.cert ∧ signing = k'.signing := by
  obtain ⟨signing', cert', hmatches⟩ := k'
  rw [delegate]
  split
  · rename_i e h
    rw [h]
    exact ⟨fun h => (nomatch h), fun h => (nomatch h.1)⟩
  · rename_i cert h
    simp only [h, Except.ok.injEq, AgentKey.mk.injEq]
    exact and_comm

theorem delegateExternal_ok {k : AgentKey C} {challenge : PossessionChallenge} {proof : Signature}
    {m : AgentMetadata} {cert : CertChain} :
    k.delegateExternal challenge proof m = .ok cert ↔
      challenge.issuerPubkey = k.cert.agentPubkey ∧
      C.verifyStrict challenge.subjectPubkey challenge.signingBytes proof = true ∧
      k.certifyPubkey challenge.subjectPubkey m = .ok cert := by
  simp only [delegateExternal, bind_ok, ensure_ok]
  constructor
  · rintro ⟨_, hissuer, _, hproof, hcert⟩
    exact ⟨hissuer, hproof, hcert⟩
  · rintro ⟨hissuer, hproof, hcert⟩
    exact ⟨(), hissuer, (), hproof, hcert⟩

end AgentKey

/-- The chains that can be obtained: issued by a user, then delegated any
number of times.  The holder of a key certified externally delegates with the
key it reconstructs from its seed and that chain. -/
inductive CertChain.Minted : CertChain → Prop where
  | issue (user : UserKey) (signing : Seed) (m : AgentMetadata) :
      Minted (AgentKey.issueWith C user signing m).cert
  | delegate {k k' : AgentKey C} {signing : Seed} {m : AgentMetadata} (hk : Minted k.cert)
      (h : k.delegate signing m = .ok k') : Minted k'.cert
  | delegateExternal {k : AgentKey C} {challenge : PossessionChallenge} {proof : Signature}
      {m : AgentMetadata} {cert : CertChain} (hk : Minted k.cert)
      (h : k.delegateExternal challenge proof m = .ok cert) : Minted cert

/-- Honest signatures verify, those of agents and those of users. -/
structure Crypto.Correct : Prop where
  agent : C.HonestVerifies
  user : ∀ seed m, C.verify (C.publicKey seed) m (C.sign seed m) = true

/-! ### Links -/

/-- The links of a chain, from the leaf up to the root. -/
def CertChain.links : CertChain → List CertChain
  | cert@(.root ..) => [cert]
  | cert@(.delegated _ _ _ parent _) => cert :: parent.links

variable {C}

theorem CertChain.mem_links (cert : CertChain) : cert ∈ cert.links := by
  cases cert <;> exact List.mem_cons_self

/-- The key that has to sign a link: the user's, or that of the parent. -/
def CertChain.signer : CertChain → PubKey
  | .root _ _ user _ => user.verifying
  | .delegated _ _ _ parent _ => parent.agentPubkey

theorem mem_generation_iff {scope : Scope ℕ} {g : ℕ} {u : Unit} :
    checkGeneration scope (some g) = .ok u ↔ g ∈ scope.items := by
  rw [checkGeneration_ok]
  cases scope with
  | all => exact ⟨fun _ => Set.mem_univ g, fun _ gens h => (nomatch h)⟩
  | only gens =>
    refine ⟨fun h => h gens rfl, fun h gens' he => ?_⟩
    cases he
    exact h

namespace CertChain

theorem verifyAt_root {pk : PubKey} {m : AgentMetadata} {user : UserPublic} {sig : Signature}
    {g : ℕ} :
    (root pk m user sig).verifyAt C g = .ok () ↔ g ∈ m.caveats.validForGeneration.items ∧
      C.verify user.verifying (signPayload C pk m) sig = true := by
  simp only [verifyAt, verifyInner, bind_ok, mem_generation_iff, ensure_ok]
  constructor
  · rintro ⟨_, hg, hv⟩
    exact ⟨hg, hv⟩
  · rintro ⟨hg, hv⟩
    exact ⟨(), hg, hv⟩

theorem verifyAt_delegated {pk issuer : PubKey} {m : AgentMetadata} {parent : CertChain}
    {sig : Signature} {g : ℕ} :
    (delegated pk m issuer parent sig).verifyAt C g = .ok () ↔
      g ∈ m.caveats.validForGeneration.items ∧ issuer = parent.agentPubkey ∧
      parent.verifyAt C g = .ok () ∧ C.verifyStrict issuer (signPayload C pk m) sig = true ∧
      m.caveats.leq parent.metadata.caveats = true := by
  simp only [verifyAt, verifyInner, bind_ok, mem_generation_iff, ensure_ok]
  constructor
  · rintro ⟨_, hg, _, hissuer, _, hparent, _, hv, hleq⟩
    exact ⟨hg, hissuer, hparent, hv, hleq⟩
  · rintro ⟨hg, hissuer, hparent, hv, hleq⟩
    exact ⟨(), hg, (), hissuer, (), hparent, (), hv, hleq⟩

/-- **What a chain that verifies is**: the leaf is below every link, and every
link is in its scope and signed by its signer. -/
theorem links_of_verifyAt {signed : PubKey → Bytes → Prop} (hU : C.Unforgeable signed) {g : ℕ}
    {cert : CertChain} (h : cert.verifyAt C g = .ok ()) :
    ∀ l ∈ cert.links, cert.metadata.caveats.leq l.metadata.caveats = true ∧
      g ∈ l.metadata.caveats.validForGeneration.items ∧
      signed l.signer (signPayload C l.agentPubkey l.metadata) := by
  induction cert with
  | root pk m user sig =>
    obtain ⟨hg, hv⟩ := verifyAt_root.mp h
    intro l hl
    cases List.mem_singleton.mp hl
    exact ⟨Caveats.leq_refl _, hg, hU _ _ _ (.inr hv)⟩
  | delegated pk m issuer parent sig ih =>
    obtain ⟨hg, hissuer, hparent, hv, hleq⟩ := verifyAt_delegated.mp h
    intro l hl
    rcases List.mem_cons.mp hl with rfl | hl
    · refine ⟨Caveats.leq_refl _, hg, ?_⟩
      rw [hissuer] at hv
      exact hU _ _ _ (.inl hv)
    · -- the parent is below the link, and the leaf below the parent
      obtain ⟨habove, hscope, hsigned⟩ := ih hparent l hl
      exact ⟨Caveats.leq_trans hleq habove, hscope, hsigned⟩

theorem revokedLink_none {revoked : Finset Fingerprint} {cert : CertChain} :
    cert.revokedLink C revoked = none ↔ ∀ l ∈ cert.links, l.agentFingerprint C ∉ revoked := by
  induction cert with
  | root pk m user sig => simp [revokedLink, links, agentFingerprint, agentPubkey]
  | delegated pk m issuer parent sig ih =>
    rw [revokedLink, links, List.forall_mem_cons, ← ih]
    by_cases hmem : Fingerprint.ofBytes C pk ∈ revoked
    · rw [if_pos hmem]
      constructor
      · intro h
        cases h
      · intro h
        exact absurd hmem h.1
    · rw [if_neg hmem]
      exact ⟨fun h => ⟨hmem, h⟩, fun h => h.2⟩

theorem verifyWith_ok {state : RevocationState} {cert : CertChain} :
    cert.verifyWith C state = .ok () ↔ cert.userFingerprint C = state.user ∧
      (∀ l ∈ cert.links, l.agentFingerprint C ∉ state.revoked) ∧
      cert.verifyAt C state.generation = .ok () := by
  simp only [verifyWith, bind_ok, ensure_ok, ← revokedLink_none]
  cases hlink : cert.revokedLink C state.revoked with
  | none =>
    simp only [mapError_ok]
    constructor
    · rintro ⟨_, huser, hv⟩
      exact ⟨huser, trivial, hv⟩
    · rintro ⟨huser, _, hv⟩
      exact ⟨(), huser, hv⟩
  | some agent =>
    constructor
    · rintro ⟨_, _, h⟩
      cases h
    · rintro ⟨_, h, _⟩
      cases h

/-! ### Minted chains -/

theorem verifyAt_certified (hC : C.Correct) {k : AgentKey C} {pk : PubKey} {m : AgentMetadata}
    {cert : CertChain} (h : k.certifyPubkey pk m = .ok cert)
    (ih : ∀ g, g ∈ k.cert.metadata.caveats.validForGeneration.items →
      k.cert.verifyAt C g = .ok ()) (g : ℕ)
    (hg : g ∈ cert.metadata.caveats.validForGeneration.items) : cert.verifyAt C g = .ok () := by
  obtain ⟨hleq, rfl⟩ := AgentKey.certifyPubkey_ok.mp h
  have hsig := hC.agent k.signing (signPayload C pk m)
  rw [k.seed_matches] at hsig
  -- the parent is valid wherever the narrower child is
  exact verifyAt_delegated.mpr ⟨hg, rfl, ih g (Caveats.generation_mono hleq hg), hsig, hleq⟩

/-- **A minted chain verifies in its own scope.** -/
theorem Minted.verifyAt (hC : C.Correct) {cert : CertChain} (h : Minted C cert) :
    ∀ g, g ∈ cert.metadata.caveats.validForGeneration.items → cert.verifyAt C g = .ok () := by
  induction h with
  | issue user signing m =>
    intro g hg
    exact verifyAt_root.mpr ⟨hg, hC.user user.signing _⟩
  | delegate hk h ih => exact verifyAt_certified hC (AgentKey.delegate_ok.mp h).1 ih
  | delegateExternal hk h ih =>
    exact verifyAt_certified hC (AgentKey.delegateExternal_ok.mp h).2.2 ih

end CertChain

/-! ### Signed payloads -/

theorem bytes32_injective : Function.Injective bytes32 := by
  intro x y h
  refine BitVec.eq_of_getLsbD_eq fun p hp => ?_
  -- bit `p` is bit `p % 8` of byte `31 - p / 8`
  have hbit : ∀ z : BitVec 256,
      ((bytes32 z)[31 - p / 8]?.map fun b => b.toNat.testBit (p % 8)) = some (z.getLsbD p) := by
    intro z
    have hi : 31 - p / 8 < 32 := by omega
    have hback : 8 * (31 - (31 - p / 8)) + p % 8 = p := by omega
    have hlow : p % 8 < 8 := Nat.mod_lt _ (by omega)
    rw [bytes32, List.getElem?_map, List.getElem?_range hi, Option.map_some, Option.map_some,
      UInt8.toNat_ofNat', Nat.testBit_mod_two_pow, Nat.testBit_shiftRight, hback,
      decide_eq_true hlow, Bool.true_and, BitVec.testBit_toNat]
  have hsame := hbit x
  rw [h, hbit y, Option.some.injEq] at hsame
  exact hsame.symm

theorem signPayload_injective (hJ : Function.Injective C.metadataJson) {pk pk' : PubKey}
    {m m' : AgentMetadata} (h : signPayload C pk m = signPayload C pk' m') :
    pk = pk' ∧ m = m' := by
  have hlen : (bytes32 pk).length = (bytes32 pk').length := by simp [bytes32]
  obtain ⟨hpk, hm⟩ := List.append_inj h hlen
  exact ⟨bytes32_injective hpk, hJ hm⟩

/-! ### The theorem -/

/-- **No delegation chain amplifies authority.**  In any chain that verifies at
`g`, forged or not, the leaf is below every link above it, every link is valid
at `g`, and every link was signed, for exactly its key and metadata, by its
parent's key, the root link by the user's.  A chain accepted against a
revocation state moreover belongs to its user and has no revoked link.  A chain
that was issued and delegated verifies exactly in the leaf's own scope. -/
theorem no_amplification {signed : PubKey → Bytes → Prop} (hC : C.Correct)
    (hU : C.Unforgeable signed) (hJ : Function.Injective C.metadataJson) (cert : CertChain) :
    (∀ g, cert.verifyAt C g = .ok () →
      ∀ l ∈ cert.links, cert.metadata.caveats.leq l.metadata.caveats = true ∧
        g ∈ l.metadata.caveats.validForGeneration.items ∧
        signed l.signer (signPayload C l.agentPubkey l.metadata) ∧
        ∀ pk m, signPayload C pk m = signPayload C l.agentPubkey l.metadata →
          pk = l.agentPubkey ∧ m = l.metadata) ∧
    (∀ state : RevocationState, cert.verifyWith C state = .ok () →
      cert.verifyAt C state.generation = .ok () ∧ cert.userFingerprint C = state.user ∧
        ∀ l ∈ cert.links, l.agentFingerprint C ∉ state.revoked) ∧
    (cert.Minted C → ∀ g, cert.verifyAt C g = .ok () ↔
      g ∈ cert.metadata.caveats.validForGeneration.items) := by
  refine ⟨fun g h l hl => ?_, fun state h => ?_, fun hminted g => ⟨fun h => ?_, ?_⟩⟩
  · obtain ⟨hleq, hg, hsigned⟩ := CertChain.links_of_verifyAt hU h l hl
    exact ⟨hleq, hg, hsigned, fun pk m hpayload => signPayload_injective hJ hpayload⟩
  · obtain ⟨huser, hrevoked, hverify⟩ := CertChain.verifyWith_ok.mp h
    exact ⟨hverify, huser, hrevoked⟩
  · exact (CertChain.links_of_verifyAt hU h cert cert.mem_links).2.1
  · exact hminted.verifyAt hC g

theorem idealCrypto_correct (metadata : List AgentMetadata) :
    (Flock.idealCrypto metadata).Correct where
  agent _ _ := decide_eq_true rfl
  user _ _ := decide_eq_true rfl

/-! User 9 issues key 1 for the generations 0 and 1; key 1 delegates key 2 for
generation 1, and that certifies key 3, which proved possession. -/

namespace Lineage

open Flock

def during (gens : Finset ℕ) : AgentMetadata :=
  ⟨"", "", [], "", none, { Caveats.top with validForGeneration := .only gens }⟩

noncomputable def crypto : Crypto := idealCrypto [during {0, 1}, during {1}]

theorem crypto_correct : crypto.Correct := idealCrypto_correct _

noncomputable def issued : AgentKey crypto := AgentKey.issueWith crypto ⟨9⟩ 1 (during {0, 1})

noncomputable def delegated : AgentKey crypto where
  signing := 2
  cert := .delegated 2 (during {1}) 1 issued.cert
    (crypto.sign 1 (signPayload crypto 2 (during {1})))
  seed_matches := rfl

noncomputable def external : CertChain :=
  .delegated 3 (during {1}) 2 delegated.cert (crypto.sign 2 (signPayload crypto 3 (during {1})))

def challenge : PossessionChallenge := ⟨2, 3, 7⟩

theorem external_minted : external.Minted crypto := by
  have hdelegate : issued.delegate 2 (during {1}) = .ok delegated :=
    AgentKey.delegate_ok.mpr ⟨AgentKey.certifyPubkey_ok.mpr ⟨by decide, rfl⟩, rfl⟩
  have hexternal : delegated.delegateExternal challenge
      (crypto.sign 3 challenge.signingBytes) (during {1}) = .ok external :=
    AgentKey.delegateExternal_ok.mpr
      ⟨rfl, crypto_correct.agent 3 challenge.signingBytes,
        AgentKey.certifyPubkey_ok.mpr ⟨by decide, rfl⟩⟩
  exact .delegateExternal (.delegate (.issue ⟨9⟩ 1 (during {0, 1})) hdelegate) hexternal

/-- Generation 1, with key 4 revoked. -/
def state : RevocationState := ⟨⟨9⟩, ⟨[]⟩, 3, 1, {⟨4⟩}⟩

end Lineage

theorem no_amplification_lineage :
    Lineage.external.verifyAt Lineage.crypto 1 = .ok () ∧
    Lineage.external.verifyAt Lineage.crypto 0 ≠ .ok () ∧
    Lineage.external.verifyWith Lineage.crypto Lineage.state = .ok () ∧
    ∀ l ∈ Lineage.external.links,
      (Lineage.during {1}).caveats.leq l.metadata.caveats = true ∧
        l.agentFingerprint Lineage.crypto ≠ ⟨4⟩ := by
  obtain ⟨hlinks, hwith, hminted⟩ := no_amplification Lineage.crypto_correct
    (Flock.unforgeable_vouched Lineage.crypto) (Flock.tabled_injective _) Lineage.external
  have hscope := hminted Lineage.external_minted
  have hone : Lineage.external.verifyAt Lineage.crypto 1 = .ok () :=
    (hscope 1).mpr (Finset.mem_coe.mpr (by decide))
  have hstate : Lineage.external.verifyWith Lineage.crypto Lineage.state = .ok () :=
    CertChain.verifyWith_ok.mpr ⟨rfl, by decide, hone⟩
  refine ⟨hone, fun hzero => ?_, hstate, fun l hl => ⟨(hlinks 1 hone l hl).1, fun heq => ?_⟩⟩
  · have hmem := Finset.mem_coe.mp ((hscope 0).mp hzero)
    exact absurd hmem (by decide)
  · have hfree := (hwith Lineage.state hstate).2.2 l hl
    rw [heq] at hfree
    exact hfree (Finset.mem_singleton_self _)

end Mesh
