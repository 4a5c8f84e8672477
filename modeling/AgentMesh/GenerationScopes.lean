/-
Generation-scoped peers.

Three places judge a peer's chain.  The handshake and the live check of its
session ask the revocation guard, whose log says which generation it is; the
verifier that every received envelope passes knows no generation, and refuses
a chain that is bounded to some.  So a peer can be let in and kept, and still
not be heard.

* `CertChain.verifyInner_none_of_all` — a chain that verifies at a generation
  and whose leaf is unbounded verifies without one;
* `CertChain.verifyInner_none_of_only` — a chain whose leaf is bounded never
  does;
* `unbounded_peers_heard` — which of the peers a guard lets in are heard.
-/
import AgentMesh.LiveCheck
import AgentMesh.EnvelopeStream

theorem Scope.eq_all_of_leq {T : Type} [DecidableEq T] {b : Scope T}
    (h : Scope.all.leq b = true) : b = .all := by
  cases b with
  | all => rfl
  | only items => cases h

theorem Caveats.unbounded_of_leq {a b : Caveats} (h : a.leq b = true)
    (ha : a.validForGeneration = .all) : b.validForGeneration = .all := by
  simp only [Caveats.leq, Bool.and_eq_true] at h
  have hgeneration := h.2
  rw [ha] at hgeneration
  exact Scope.eq_all_of_leq hgeneration

namespace Mesh

variable {C : Crypto} {F : LogFormat}

/-- `RevocationGuard::check`: the peer's chain against the current state. -/
def RevocationGuard.check (C : Crypto) (F : LogFormat) (guard : RevocationGuard)
    (seen : Option Bytes) (r : Reads) (peer : CertChain) :
    RevocationGuard × Except GuardError Unit :=
  match guard.state C F seen r with
  | (guard, .ok state) => (guard, verifyWith C peer state)
  | (guard, .error e) => (guard, .error e)

theorem RevocationGuard.check_ok {guard : RevocationGuard} {seen : Option Bytes} {r : Reads}
    {peer : CertChain} (h : (guard.check C F seen r peer).2 = .ok ()) :
    ∃ generation, peer.verifyAt C generation = .ok () := by
  rw [check] at h
  generalize guard.state C F seen r = out at h
  obtain ⟨guard', observed⟩ := out
  cases observed with
  | error e => cases h
  | ok state =>
    have hwith : peer.verifyWith C state = .ok () := by
      simpa only [verifyWith, mapError_ok] using h
    exact ⟨state.generation, (CertChain.verifyWith_ok.mp hwith).2.2⟩

/-! ### Verifying without a generation -/

/-- Why a chain with a bounded link is refused where no generation is known. -/
def unscoped : MeshError :=
  .generation "cert is generation-scoped; verify with a current generation via verify_at()"

namespace CertChain

/-- **An unbounded leaf needs no generation**: every link above it is at least
as wide. -/
theorem verifyInner_none_of_all {generation : ℕ} {cert : CertChain}
    (h : cert.verifyAt C generation = .ok ())
    (hall : cert.metadata.caveats.validForGeneration = .all) :
    cert.verifyInner C none = .ok () := by
  induction cert with
  | root pk m user sig =>
    obtain ⟨-, hsig⟩ := verifyAt_root.mp h
    have hm : m.caveats.validForGeneration = .all := hall
    rw [verifyInner, hm]
    exact bind_ok.mpr ⟨(), rfl, ensure_of hsig⟩
  | delegated pk m issuer parent sig ih =>
    obtain ⟨-, hissuer, hparent, hsig, hleq⟩ := verifyAt_delegated.mp h
    have hm : m.caveats.validForGeneration = .all := hall
    have habove : parent.verifyInner C none = .ok () :=
      ih hparent (Caveats.unbounded_of_leq hleq hm)
    rw [verifyInner, hm]
    simp only [bind_ok, ensure_ok]
    exact ⟨(), rfl, (), hissuer, (), habove, (), hsig, hleq⟩

/-- The leaf's own scope is looked at first. -/
theorem verifyInner_none_of_only {cert : CertChain} {gens : Finset ℕ}
    (h : cert.metadata.caveats.validForGeneration = .only gens) :
    cert.verifyInner C none = .error unscoped := by
  cases cert with
  | root pk m user sig =>
    have hm : m.caveats.validForGeneration = .only gens := h
    rw [verifyInner, hm]
    rfl
  | delegated pk m issuer parent sig =>
    have hm : m.caveats.validForGeneration = .only gens := h
    rw [verifyInner, hm]
    rfl

end CertChain

/-! ### Envelopes -/

variable {W : Wire} {K : AgentKey W.toCrypto}

/-- What an agent signs passes every check but that of its chain. -/
theorem SignedEnvelope.verify_new (hC : W.toCrypto.Correct)
    (hkeys : ∀ seed, W.keyError (W.publicKey seed) = none) (nonce : BitVec 192)
    (recipient : Recipient) (sequence : ℕ) (payload : Bytes)
    (hcert : K.cert.verifyInner W.toCrypto none = .ok ()) :
    (SignedEnvelope.new K nonce recipient sequence payload).verify W = .ok () := by
  have hsig := hC.user K.signing
    (signingMessage W recipient nonce sequence (W.payloadHash payload))
  have hkey := hkeys K.signing
  rw [K.seed_matches] at hsig hkey
  exact SignedEnvelope.verify_ok.mpr ⟨hcert, rfl, hkey, hsig⟩

theorem SignedEnvelope.verify_of_cert_error {env : SignedEnvelope} {e : MeshError}
    (h : env.certChain.verifyInner W.toCrypto none = .error e) :
    env.verify W = .error (.mesh e) := by
  rw [SignedEnvelope.verify, h]
  rfl

/-- Admission refuses an envelope for what `verify` found only if that failed. -/
theorem admission_of_verified {env : SignedEnvelope} (h : env.verify W = .ok ())
    {provenance : Bus.DeliveryProvenance} {localUserFp localAgentFp : Fingerprint} :
    Fails (fun e => ∀ e', e ≠ .core e')
      (Bus.admitEnvelope W env provenance localUserFp localAgentFp) := by
  rw [Bus.admitEnvelope, h]
  -- what is left: the carrier, both halves of its identity, the user and the recipient
  refine Fails.bind (.ok ()) fun _ _ => Fails.bind ?_ fun carrier _ =>
    Fails.bind (.of_ensure fun _ e => by simp) fun _ _ =>
    Fails.bind (.of_ensure fun _ e => by simp) fun _ _ =>
    Fails.bind (.of_ensure fun _ e => by simp) fun _ _ => Fails.bind ?_ fun _ _ => .ok _
  · cases provenance with
    | direct carrier => exact .ok carrier
    | unbound => exact .error fun e => by simp
  · cases env.recipient with
    | direct fp => exact .of_ensure fun _ e => by simp
    | topic name => exact .ok ()
    | anycast capability => exact .ok ()

end Mesh

namespace Transport

open Mesh

variable {W : EnvelopeWire} {F : LogFormat}

/-- **Which admitted peers are heard.**  A peer that the guard accepts now is
heard if its certificate is for every generation: what it signs passes
`verify`, is decoded while its live check accepts, and is never refused by the
bus for its certificate.  If its certificate is bounded to some generations,
the current one among them, everything it signs is refused for that, whatever
the live check answers. -/
theorem unbounded_peers_heard (hC : W.toCrypto.Correct)
    (hkeys : ∀ seed, W.keyError (W.publicKey seed) = none)
    (hjson : ∀ env, W.envelopeOfJson (W.envelopeJson env) = .ok env)
    {guard : RevocationGuard} {seen : Option Bytes} {r : Reads} {K : AgentKey W.toCrypto}
    (hcheck : (guard.check W.toCrypto F seen r K.cert).2 = .ok ()) (nonce : BitVec 192)
    (recipient : Recipient) (sequence : ℕ) (payload : Bytes) :
    let env : SignedEnvelope := .new K nonce recipient sequence payload
    (K.cert.metadata.caveats.validForGeneration = .all →
      env.verify W.toWire = .ok () ∧
      decodeEnvelope W (W.envelopeJson env) (.ok ()) = .ok env ∧
      ∀ provenance localUserFp localAgentFp e,
        Bus.admitEnvelope W.toWire env provenance localUserFp localAgentFp ≠
          .error (.core e)) ∧
    (∀ gens, K.cert.metadata.caveats.validForGeneration = .only gens →
      env.verify W.toWire = .error (.mesh unscoped) ∧
      (∀ live, decodeEnvelope W (W.envelopeJson env) live =
        .error (.badEnvelope unscoped.text)) ∧
      ∀ provenance localUserFp localAgentFp,
        Bus.admitEnvelope W.toWire env provenance localUserFp localAgentFp =
          .error (.core (.mesh unscoped))) := by
  intro env
  obtain ⟨generation, hverifies⟩ := RevocationGuard.check_ok hcheck
  refine ⟨fun hall => ?_, fun gens honly => ?_⟩
  · have hcert := CertChain.verifyInner_none_of_all hverifies hall
    have hverify : env.verify W.toWire = .ok () :=
      SignedEnvelope.verify_new hC hkeys nonce recipient sequence payload hcert
    refine ⟨hverify, decodeEnvelope_ok.mpr ⟨hjson env, hverify, rfl⟩, ?_⟩
    exact fun _ _ _ e herr => admission_of_verified hverify _ herr e rfl
  · have hcert : env.certChain.verifyInner W.toCrypto none = .error unscoped :=
      CertChain.verifyInner_none_of_only honly
    have hverify : env.verify W.toWire = .error (.mesh unscoped) :=
      SignedEnvelope.verify_of_cert_error hcert
    refine ⟨hverify, fun live => ?_, fun provenance localUserFp localAgentFp => ?_⟩
    · rw [decodeEnvelope, hjson env]
      show ((env.verify W.toWire).mapError _ >>= _) = _
      rw [hverify]
      rfl
    · rw [Bus.admitEnvelope, hverify]
      rfl

/-! The user with key 9 at generation 0: agent 2 is certified for every
generation, agent 3 for generation 0 only. -/

namespace Scoped

open Flock

def during (generations : Scope ℕ) : AgentMetadata :=
  ⟨"", "", [], "", none, { Caveats.top with validForGeneration := generations }⟩

noncomputable def wire : Wire where
  toCrypto := idealCrypto [during .all, during (.only {0})]
  payloadHash b := BitVec.ofNat 256 (digest b)
  recipientJson := tabled [.direct ⟨1⟩]
  keyError _ := none

noncomputable def key (n : Seed) (generations : Scope ℕ) : AgentKey wire.toCrypto :=
  AgentKey.issueWith wire.toCrypto ⟨9⟩ n (during generations)

noncomputable def greeting (n : Seed) (generations : Scope ℕ) : SignedEnvelope :=
  .new (key n generations) 5 (.direct ⟨1⟩) 1 [7]

noncomputable def greetings : List SignedEnvelope := [greeting 2 .all, greeting 3 (.only {0})]

noncomputable def tableWire (envelopes : List SignedEnvelope) : EnvelopeWire where
  toWire := wire
  envelopeJson := tabled envelopes
  envelopeOfJson b := okOr (recalled envelopes b) "eof"

theorem tableWire_json (envelopes : List SignedEnvelope) (env : SignedEnvelope) :
    (tableWire envelopes).envelopeOfJson ((tableWire envelopes).envelopeJson env) = .ok env :=
  okOr_ok.mpr (recalled_tabled envelopes env)

noncomputable def envelopeWire : EnvelopeWire := tableWire greetings

/-- A fresh log, kept in memory. -/
def guard : RevocationGuard := .memory ⟨⟨9⟩, ⟨[]⟩, 1, 0, ∅⟩

end Scoped

theorem unbounded_peers_heard_both :
    decodeEnvelope Scoped.envelopeWire
        (Scoped.envelopeWire.envelopeJson (Scoped.greeting 2 .all)) (.ok ()) =
      .ok (Scoped.greeting 2 .all) ∧
    decodeEnvelope Scoped.envelopeWire
        (Scoped.envelopeWire.envelopeJson (Scoped.greeting 3 (.only {0}))) (.ok ()) =
      .error (.badEnvelope unscoped.text) := by
  have hcheck₂ : (Scoped.guard.check Scoped.wire.toCrypto Shared.format none (Shared.shows 1)
      (Scoped.key 2 .all).cert).2 = .ok () := by decide +kernel
  have hcheck₃ : (Scoped.guard.check Scoped.wire.toCrypto Shared.format none (Shared.shows 1)
      (Scoped.key 3 (.only {0})).cert).2 = .ok () := by decide +kernel
  have hall := unbounded_peers_heard (W := Scoped.envelopeWire) (idealCrypto_correct _)
    (fun _ => rfl) (Scoped.tableWire_json _) hcheck₂ 5 (.direct ⟨1⟩) 1 [7]
  have honly := unbounded_peers_heard (W := Scoped.envelopeWire) (idealCrypto_correct _)
    (fun _ => rfl) (Scoped.tableWire_json _) hcheck₃ 5 (.direct ⟨1⟩) 1 [7]
  exact ⟨(hall.1 rfl).2.1, (honly.2 {0} rfl).2.1 (.ok ())⟩

set_option maxRecDepth 100000 in
/-- Agent 3 is let in at generation 0 and its live check accepts, but the
envelope it signs is refused. -/
theorem bounded_peer_unheard :
    (Scoped.guard.check Scoped.wire.toCrypto Shared.format none (Shared.shows 1)
      (Scoped.key 3 (.only {0})).cert).2 = .ok () ∧
    (∃ c, LiveCheck.new Scoped.wire.toCrypto Shared.format Scoped.guard
        (Scoped.key 3 (.only {0})).cert none (Shared.shows 1) = .ok c ∧
      (c.admission Scoped.wire.toCrypto Shared.format none (Shared.shows 1)).2 = .ok ()) ∧
    (Scoped.greeting 3 (.only {0})).verify Scoped.wire = .error (.mesh unscoped) ∧
    decodeEnvelope Scoped.envelopeWire
        (Scoped.envelopeWire.envelopeJson (Scoped.greeting 3 (.only {0}))) (.ok ()) =
      .error (.badEnvelope unscoped.text) ∧
    Bus.admitEnvelope Scoped.wire (Scoped.greeting 3 (.only {0})) (.direct ⟨⟨9⟩, ⟨3⟩⟩) ⟨9⟩ ⟨1⟩ =
      .error (.core (.mesh unscoped)) := by
  refine ⟨by decide +kernel, ⟨⟨Scoped.guard, (Scoped.key 3 (.only {0})).cert,
    some ⟨⟨9⟩, ⟨[]⟩, 1, 0, ∅⟩⟩, ?_, ?_⟩, ?_, ?_, ?_⟩ <;> decide +kernel

end Transport
