/-
Chains of grants, from a leaf up to a trusted root.

A grant names the authority it confers and the grant it was derived from by
content id.  `verifyChain` walks a list of grants from the leaf to the root:
each one derives from the next, by attenuation or by an elevation the verifier
accepts, and the last one is the root an operator configured.

What a chain is for: `Anchored`, the lists built up from the trusted root one
derivation at a time.  The walk accepts exactly these, so their properties are
inductions over the derivations: authority only shrinks towards the leaf as
long as nothing is elevated, and since an id names one grant only, the leaf
determines the chain.

* `checkDerivation_valid` — what one valid edge is;
* `verifyChain_trusted` — the walk accepts exactly the anchored chains;
* `trusted_chains` — the leaf stays below every grant of the chain, the chain
  is determined by it, and no fence passes that the root would not let pass.
-/
import AgentMesh.Fences

namespace Provenance

/-! ### Authorities and grants -/

structure AuthorityId where
  id : ContentId
  deriving DecidableEq, Repr

structure GrantId where
  id : ContentId
  deriving DecidableEq, Repr

structure AttestationId where
  id : ContentId
  deriving DecidableEq, Repr

structure Authority where
  caveats : Caveats
  deriving DecidableEq

inductive Derivation where
  /-- The session baseline, derived from nothing. -/
  | root
  | attenuation (parent : GrantId)
  /-- Widens by definition: legal only through an operator attestation. -/
  | elevation (parent : GrantId) (attestation : AttestationId)
  deriving DecidableEq, Repr

/-- A reference to an authority and the derivation that justifies holding it. -/
structure Grant where
  authority : AuthorityId
  derivation : Derivation
  deriving DecidableEq, Repr

inductive Body where
  | authority (caveats : Caveats)
  | grant (authority : AuthorityId) (derivation : Derivation)
  deriving DecidableEq

/-- The hash preimage of an object: its domain tag and its body. -/
structure Tagged where
  kind : String
  body : Body
  deriving DecidableEq

def authorityKind : String := "agent-mesh/provenance/authority/v1"

def grantKind : String := "agent-mesh/provenance/grant/v1"

def Authority.canonicalForm (a : Authority) : Tagged := ⟨authorityKind, .authority a.caveats⟩

def Grant.canonicalForm (g : Grant) : Tagged := ⟨grantKind, .grant g.authority g.derivation⟩

theorem Grant.canonicalForm_injective : Function.Injective Grant.canonicalForm := by
  intro g g' h
  obtain ⟨a, d⟩ := g
  obtain ⟨a', d'⟩ := g'
  cases h
  rfl

/-- The content id of a canonical form, from `content-addressable`; an
encoding may fail. -/
abbrev Addressing := Tagged → Except String ContentId

/-- Content ids are injective. -/
def Addressing.Injective (contentId : Addressing) : Prop :=
  ∀ {x y : Tagged} {id : ContentId}, contentId x = .ok id → contentId y = .ok id → x = y

variable (contentId : Addressing)

def Authority.id (a : Authority) : Except String AuthorityId := do
  let id ← contentId a.canonicalForm
  return ⟨id⟩

def Grant.id (g : Grant) : Except String GrantId := do
  let id ← contentId g.canonicalForm
  return ⟨id⟩

variable {contentId} in
theorem Authority.id_ok {a : Authority} {i : AuthorityId} :
    a.id contentId = .ok i ↔ contentId a.canonicalForm = .ok i.id := by
  obtain ⟨i⟩ := i
  simp [Authority.id, pure, Except.pure]

variable {contentId} in
theorem Grant.id_ok {g : Grant} {i : GrantId} :
    g.id contentId = .ok i ↔ contentId g.canonicalForm = .ok i.id := by
  obtain ⟨i⟩ := i
  simp [Grant.id, pure, Except.pure]

/-! ### The body a grant names -/

inductive BindError where
  | encoding (e : String)
  | authorityCidMismatch (namedByGrant ofBody : AuthorityId)
  deriving DecidableEq, Repr

/-- A grant and the very authority it names. -/
structure ResolvedGrant where
  grant : Grant
  authority : Authority
  named : authority.id contentId = .ok grant.authority

namespace ResolvedGrant

/-- Bind `authority` to `grant`, verifying that it is the one the grant names. -/
def bind (grant : Grant) (authority : Authority) :
    Except BindError (ResolvedGrant contentId) :=
  match h : authority.id contentId with
  | .error e => .error (.encoding e)
  | .ok ofBody =>
    if hid : ofBody = grant.authority then .ok ⟨grant, authority, hid ▸ h⟩
    else .error (.authorityCidMismatch grant.authority ofBody)

variable {contentId}

def id (r : ResolvedGrant contentId) : Except String GrantId := r.grant.id contentId

def caveats (r : ResolvedGrant contentId) : Caveats := r.authority.caveats

theorem ext_grant (hinj : contentId.Injective) {r s : ResolvedGrant contentId}
    (h : r.grant = s.grant) : r = s := by
  obtain ⟨g, ⟨a⟩, ha⟩ := r
  obtain ⟨g', ⟨b⟩, hb⟩ := s
  obtain rfl : g = g' := h
  have hform := hinj (Authority.id_ok.mp ha) (Authority.id_ok.mp hb)
  cases hform
  rfl

theorem eq_of_id (hinj : contentId.Injective) {r s : ResolvedGrant contentId} {i : GrantId}
    (hr : r.id = .ok i) (hs : s.id = .ok i) : r = s := by
  have hform := hinj (Grant.id_ok.mp hr) (Grant.id_ok.mp hs)
  exact ext_grant hinj (Grant.canonicalForm_injective hform)

end ResolvedGrant

variable {contentId}

/-! ### One edge -/

/-- Whether an attestation authorizes elevating from a parent to a child. -/
abbrev AttestationVerifier := GrantId → Grant → AttestationId → Bool

/-- The fail-closed default: rejects every elevation. -/
def denyAllElevations : AttestationVerifier := fun _ _ _ => false

inductive DerivationReject where
  | attenuationWidens
  | parentMismatch
  | elevationUnauthorized
  | missingParent
  | cidUnavailable
  deriving DecidableEq, Repr

/-- The parent, if its own id is the one the child declares. -/
def matchedParent (parent : Option (ResolvedGrant contentId)) (declared : GrantId) :
    Except DerivationReject (ResolvedGrant contentId) := do
  let parent ← okOr parent .missingParent
  let parentId ← parent.id.mapError fun _ => .cidUnavailable
  ensure (parentId = declared) .parentMismatch
  return parent

def checkDerivation (child : ResolvedGrant contentId) (parent : Option (ResolvedGrant contentId))
    (verifier : AttestationVerifier) : Except DerivationReject Unit :=
  match child.grant.derivation with
  | .root => .ok ()
  | .attenuation declared => do
    let parent ← matchedParent parent declared
    ensure (child.caveats.leq parent.caveats) .attenuationWidens
  | .elevation declared attestation => do
    let parent ← matchedParent parent declared
    let parentId ← parent.id.mapError fun _ => .cidUnavailable
    ensure (verifier parentId child.grant attestation) .elevationUnauthorized

/-- What a valid edge to a parent is. -/
inductive Edge (verifier : AttestationVerifier) (child parent : ResolvedGrant contentId) :
    Prop where
  | attenuation {declared : GrantId} (derived : child.grant.derivation = .attenuation declared)
      (names : parent.id = .ok declared) (below : child.caveats.leq parent.caveats = true)
  | elevation {declared : GrantId} {attestation : AttestationId}
      (derived : child.grant.derivation = .elevation declared attestation)
      (names : parent.id = .ok declared)
      (accepted : verifier declared child.grant attestation = true)

theorem matchedParent_ok {parent q : ResolvedGrant contentId} {declared : GrantId} :
    matchedParent (some parent) declared = .ok q ↔ parent.id = .ok declared ∧ q = parent := by
  simp only [matchedParent, bind_ok, okOr_ok, mapError_ok, ensure_ok, pure, Except.pure,
    Except.ok.injEq, Option.some.injEq]
  constructor
  · rintro ⟨p, rfl, i, hi, _, rfl, rfl⟩
    exact ⟨hi, rfl⟩
  · rintro ⟨hid, rfl⟩
    exact ⟨q, rfl, declared, hid, (), rfl, rfl⟩

/-- **Inversion of one edge.** -/
theorem checkDerivation_valid {verifier : AttestationVerifier}
    {child parent : ResolvedGrant contentId} (hroot : child.grant.derivation ≠ .root) :
    checkDerivation child (some parent) verifier = .ok () ↔ Edge verifier child parent := by
  rw [checkDerivation]
  cases hd : child.grant.derivation with
  | root => exact absurd hd hroot
  | attenuation declared =>
    simp only [bind_ok, matchedParent_ok, ensure_ok]
    constructor
    · rintro ⟨q, ⟨hid, rfl⟩, hleq⟩
      exact .attenuation hd hid hleq
    · rintro (⟨hd', hid, hleq⟩ | ⟨hd', -, -⟩)
      · cases hd.symm.trans hd'
        exact ⟨parent, ⟨hid, rfl⟩, hleq⟩
      · cases hd.symm.trans hd'
  | elevation declared attestation =>
    simp only [bind_ok, matchedParent_ok, mapError_ok, ensure_ok]
    constructor
    · rintro ⟨q, ⟨hid, rfl⟩, i, hi, hv⟩
      cases hid.symm.trans hi
      exact .elevation hd hid hv
    · rintro (⟨hd', -, -⟩ | ⟨hd', hid, hv⟩)
      · cases hd.symm.trans hd'
      · cases hd.symm.trans hd'
        exact ⟨parent, ⟨hid, rfl⟩, declared, hid, hv⟩

/-! ### The walk -/

inductive ChainReject where
  | empty
  | edge (index : ℕ) (reason : DerivationReject)
  | rootNotTerminal (index : ℕ)
  | nonRootTerminus
  | untrustedRoot (found expected : GrantId)
  | cidUnavailable
  deriving DecidableEq, Repr

inductive ChainDecision where
  | trusted
  | reject (r : ChainReject)
  deriving DecidableEq, Repr

/-- The loop over the edges: everything but the last grant is no root and
derives from the next. -/
def walkEdges (verifier : AttestationVerifier) :
    ℕ → List (ResolvedGrant contentId) → Except ChainReject Unit
  | index, child :: parent :: rest => do
    ensure (child.grant.derivation ≠ .root) (.rootNotTerminal index)
    (checkDerivation child (some parent) verifier).mapError (.edge index)
    walkEdges verifier (index + 1) (parent :: rest)
  | _, _ => .ok ()

/-- The terminus is a root, and the one that is trusted. -/
def checkTerminus (terminus : ResolvedGrant contentId) (trustedRoot : GrantId) :
    Except ChainReject Unit := do
  ensure (terminus.grant.derivation = .root) .nonRootTerminus
  let rootId ← terminus.id.mapError fun _ => .cidUnavailable
  ensure (rootId = trustedRoot) (.untrustedRoot rootId trustedRoot)

/-- Verify a derivation chain, leaf first, against a trusted root. -/
def verifyChain (chain : List (ResolvedGrant contentId)) (trustedRoot : GrantId)
    (verifier : AttestationVerifier) : ChainDecision :=
  match chain.getLast? with
  | none => .reject .empty
  | some terminus =>
    match (do
      walkEdges verifier 0 chain
      checkTerminus terminus trustedRoot : Except ChainReject Unit) with
    | .error r => .reject r
    | .ok () => .trusted

/-- A chain built up from the trusted root, one derivation at a time. -/
inductive Anchored (verifier : AttestationVerifier) (root : GrantId) :
    List (ResolvedGrant contentId) → Prop where
  | anchor {g : ResolvedGrant contentId} (derived : g.grant.derivation = .root)
      (trusted : g.id = .ok root) : Anchored verifier root [g]
  | derive {child parent : ResolvedGrant contentId} {rest : List (ResolvedGrant contentId)}
      (edge : Edge verifier child parent) (above : Anchored verifier root (parent :: rest)) :
      Anchored verifier root (child :: parent :: rest)

variable {verifier : AttestationVerifier} {root : GrantId}

theorem Edge.ne_root {child parent : ResolvedGrant contentId} (h : Edge verifier child parent) :
    child.grant.derivation ≠ .root := by
  intro hroot
  cases h with
  | attenuation hd => cases hroot.symm.trans hd
  | elevation hd => cases hroot.symm.trans hd

theorem checkTerminus_ok {terminus : ResolvedGrant contentId} :
    checkTerminus terminus root = .ok () ↔
      terminus.grant.derivation = .root ∧ terminus.id = .ok root := by
  simp only [checkTerminus, bind_ok, ensure_ok, mapError_ok]
  constructor
  · rintro ⟨_, hroot, i, hi, rfl⟩
    exact ⟨hroot, hi⟩
  · rintro ⟨hroot, hid⟩
    exact ⟨(), hroot, root, hid, rfl⟩

/-- The walk from any index: the index only labels the errors. -/
theorem walkEdges_anchored {chain : List (ResolvedGrant contentId)} :
    ∀ (index : ℕ), (∃ terminus, chain.getLast? = some terminus ∧
        walkEdges verifier index chain = .ok () ∧ checkTerminus terminus root = .ok ()) ↔
      Anchored verifier root chain := by
  induction chain with
  | nil =>
    intro index
    constructor
    · rintro ⟨terminus, hlast, -⟩
      simp at hlast
    · intro h
      cases h
  | cons child tail ih =>
    intro index
    cases tail with
    | nil =>
      constructor
      · rintro ⟨terminus, hlast, -, hterm⟩
        cases hlast
        obtain ⟨hroot, hid⟩ := checkTerminus_ok.mp hterm
        exact .anchor hroot hid
      · intro h
        cases h with
        | anchor hroot hid => exact ⟨child, rfl, rfl, checkTerminus_ok.mpr ⟨hroot, hid⟩⟩
    | cons parent rest =>
      simp only [List.getLast?_cons_cons, walkEdges, bind_ok, ensure_ok, mapError_ok]
      constructor
      · rintro ⟨terminus, hlast, ⟨_, hroot, _, hedge, hrest⟩, hterm⟩
        exact .derive ((checkDerivation_valid hroot).mp hedge)
          ((ih (index + 1)).mp ⟨terminus, hlast, hrest, hterm⟩)
      · intro h
        cases h with
        | derive hedge habove =>
          obtain ⟨terminus, hlast, hrest, hterm⟩ := (ih (index + 1)).mpr habove
          have hvalid := (checkDerivation_valid hedge.ne_root).mpr hedge
          exact ⟨terminus, hlast, ⟨(), hedge.ne_root, (), hvalid, hrest⟩, hterm⟩

/-- **The walk accepts exactly the anchored chains.** -/
theorem verifyChain_trusted {chain : List (ResolvedGrant contentId)} :
    verifyChain chain root verifier = .trusted ↔ Anchored verifier root chain := by
  rw [← walkEdges_anchored 0, verifyChain]
  cases chain.getLast? with
  | none => simp
  | some terminus =>
    cases hw : walkEdges verifier 0 chain with
    | error r => simp [bind, Except.bind]
    | ok u =>
      cases ht : checkTerminus terminus root with
      | error r => simp [bind, Except.bind, ht]
      | ok v => simp [bind, Except.bind, ht]

/-! ### What an anchored chain is -/

/-- Under the default verifier every edge attenuates. -/
theorem Edge.attenuates {child parent : ResolvedGrant contentId}
    (h : Edge denyAllElevations child parent) : child.caveats.leq parent.caveats = true ∧
      ∃ declared, child.grant.derivation = .attenuation declared ∧ parent.id = .ok declared := by
  cases h with
  | attenuation hd hid hleq => exact ⟨hleq, _, hd, hid⟩
  | elevation _ _ hv => cases hv

namespace Anchored

variable {chain rest : List (ResolvedGrant contentId)} {leaf : ResolvedGrant contentId}

theorem rooted (h : Anchored verifier root chain) :
    ∃ terminus, chain.getLast? = some terminus ∧ terminus.id = .ok root ∧
      ∀ i g, chain[i]? = some g → (g.grant.derivation = .root ↔ i + 1 = chain.length) := by
  induction h with
  | @anchor g hroot hid =>
    refine ⟨g, rfl, hid, fun i x hx => ?_⟩
    cases i with
    | zero =>
      cases hx
      simpa using hroot
    | succ i => simp at hx
  | @derive child parent rest hedge habove ih =>
    obtain ⟨terminus, hlast, hid, honly⟩ := ih
    refine ⟨terminus, hlast, hid, fun i x hx => ?_⟩
    cases i with
    | zero =>
      cases hx
      simp [hedge.ne_root]
    | succ i =>
      rw [honly i x hx]
      simp

/-- A grant of the chain is the start of an anchored chain itself. -/
theorem of_suffix (h : Anchored verifier root chain) {upper : List (ResolvedGrant contentId)}
    (hne : upper ≠ []) (hsuf : upper <:+ chain) : Anchored verifier root upper := by
  induction h with
  | anchor hroot hid =>
    obtain rfl | hnil := List.suffix_cons_iff.mp hsuf
    · exact .anchor hroot hid
    · exact absurd (List.suffix_nil.mp hnil) hne
  | derive hedge habove ih =>
    obtain rfl | hupper := List.suffix_cons_iff.mp hsuf
    · exact .derive hedge habove
    · exact ih hupper

theorem denyAll (h : Anchored verifier root chain)
    (hplain : ∀ g ∈ chain, ∀ parent attestation,
      g.grant.derivation ≠ .elevation parent attestation) :
    Anchored denyAllElevations root chain := by
  induction h with
  | anchor hroot hid => exact .anchor hroot hid
  | derive hedge habove ih =>
    obtain ⟨hchild, hrest⟩ := List.forall_mem_cons.mp hplain
    refine .derive ?_ (ih hrest)
    cases hedge with
    | attenuation hd hid hleq => exact .attenuation hd hid hleq
    | elevation hd => exact absurd hd (hchild _ _)

theorem leaf_below (h : Anchored denyAllElevations root (leaf :: rest)) :
    ∀ g ∈ rest, leaf.caveats.leq g.caveats = true := by
  induction rest generalizing leaf with
  | nil => exact fun g hg => (nomatch hg)
  | cons parent rest ih =>
    cases h with
    | derive hedge habove =>
      have hleq := hedge.attenuates.1
      refine List.forall_mem_cons.mpr ⟨hleq, fun g hg => ?_⟩
      exact Caveats.leq_trans hleq (ih habove g hg)

/-- The leaf's grant determines the chain: each grant names its parent by an
id, and an id names one grant. -/
theorem unique (hinj : contentId.Injective) {rest' : List (ResolvedGrant contentId)}
    {leaf' : ResolvedGrant contentId} (h : Anchored denyAllElevations root (leaf :: rest))
    (h' : Anchored denyAllElevations root (leaf' :: rest')) (hgrant : leaf.grant = leaf'.grant) :
    leaf :: rest = leaf' :: rest' := by
  obtain rfl : leaf = leaf' := ResolvedGrant.ext_grant hinj hgrant
  induction rest generalizing leaf rest' with
  | nil =>
    cases h with
    | anchor hroot hid =>
      cases h' with
      | anchor => rfl
      | derive hedge => exact absurd hroot hedge.ne_root
  | cons parent rest ih =>
    cases h with
    | derive hedge habove =>
      cases h' with
      | anchor hroot => exact absurd hroot hedge.ne_root
      | @derive _ parent' rest' hedge' habove' =>
        obtain ⟨-, i, hd, hid⟩ := hedge.attenuates
        obtain ⟨-, i', hd', hid'⟩ := hedge'.attenuates
        cases hd.symm.trans hd'
        obtain rfl : parent = parent' := ResolvedGrant.eq_of_id hinj hid hid'
        rw [ih habove habove' rfl]

end Anchored

/-! ### Fences -/

theorem admitFence_mono {fence closure : ResolvedAuthority} {c c' : Caveats}
    (hle : c.leq c' = true) (h : admitFence fence c closure = .admits) :
    admitFence fence c' closure = .admits := by
  rw [admitFence_admits] at h ⊢
  intro axis
  exact (h axis).mono (delegatedItems_mono (delegatedAxis_leq hle axis))

/-- What the accepted chains have in common. -/
structure Confined (root : GrantId) (chains : Set (List (ResolvedGrant contentId))) : Prop where
  /-- The leaf's caveats are below those of every later grant. -/
  below : ∀ leaf later, leaf :: later ∈ chains →
    ∀ g ∈ later, leaf.caveats.leq g.caveats = true
  /-- Only the last grant is a root, and its id is the trusted one. -/
  rooted : ∀ chain ∈ chains, ∃ terminus, chain.getLast? = some terminus ∧
    terminus.id = .ok root ∧
    ∀ i g, chain[i]? = some g → (g.grant.derivation = .root ↔ i + 1 = chain.length)
  /-- Chains with equal first grants are equal. -/
  unique : ∀ leaf later leaf' later', leaf :: later ∈ chains → leaf' :: later' ∈ chains →
    leaf.grant = leaf'.grant → leaf :: later = leaf' :: later'
  /-- A fence the leaf lets pass, the root lets pass. -/
  fenced : ∀ leaf later terminus, leaf :: later ∈ chains →
    (leaf :: later).getLast? = some terminus →
    ∀ fence closure, admitFence fence leaf.caveats closure = .admits →
      admitFence fence terminus.caveats closure = .admits

theorem confined_of_anchored (hinj : contentId.Injective)
    {chains : Set (List (ResolvedGrant contentId))}
    (h : ∀ chain ∈ chains, Anchored denyAllElevations root chain) : Confined root chains where
  below leaf later hmem := (h _ hmem).leaf_below
  rooted chain hmem := (h _ hmem).rooted
  unique leaf later leaf' later' hmem hmem' hgrant := (h _ hmem).unique hinj (h _ hmem') hgrant
  fenced leaf later terminus hmem hlast fence closure hfence := by
    have hbelow := (h _ hmem).leaf_below
    have hterm : terminus ∈ leaf :: later := List.mem_of_getLast? hlast
    obtain rfl | hlater := List.mem_cons.mp hterm
    · exact hfence
    · exact admitFence_mono (hbelow terminus hlater) hfence

/-- **Trusted chains confine.**  The chains trusted under the default verifier
only attenuate from the root down, are determined by their first grants, and
let no fence pass that the root would not; and so do the non-empty upper parts,
free of elevations, of the chains trusted under any verifier at all. -/
theorem trusted_chains (hinj : contentId.Injective) (root : GrantId) :
    Confined root {chain : List (ResolvedGrant contentId) |
      verifyChain chain root denyAllElevations = .trusted} ∧
    Confined root {chain : List (ResolvedGrant contentId) | chain ≠ [] ∧
      (∀ g ∈ chain, ∀ parent attestation, g.grant.derivation ≠ .elevation parent attestation) ∧
      ∃ verifier whole, verifyChain whole root verifier = .trusted ∧ chain <:+ whole} := by
  refine ⟨confined_of_anchored hinj fun chain h => verifyChain_trusted.mp h,
    confined_of_anchored hinj ?_⟩
  rintro chain ⟨hne, hplain, verifier, whole, htrusted, hsuf⟩
  exact ((verifyChain_trusted.mp htrusted).of_suffix hne hsuf).denyAll hplain

/-! A root with every authority, and a grant attenuated from it to one command. -/
namespace Small

def baseline : Authority := ⟨Caveats.top⟩

def confined : Authority := ⟨{ Caveats.top with exec := .only {"cargo"} }⟩

def rootGrant : Grant := ⟨⟨⟨[1]⟩⟩, .root⟩

def leafGrant : Grant := ⟨⟨⟨[2]⟩⟩, .attenuation ⟨⟨[3]⟩⟩⟩

/-- The content ids of these four objects; nothing else is encoded. -/
def addressing : Addressing := fun t =>
  if t = baseline.canonicalForm then .ok ⟨[1]⟩
  else if t = confined.canonicalForm then .ok ⟨[2]⟩
  else if t = rootGrant.canonicalForm then .ok ⟨[3]⟩
  else if t = leafGrant.canonicalForm then .ok ⟨[4]⟩
  else .error "not encoded"

/-- The object an id was computed from. -/
def objectOf (id : ContentId) : Tagged :=
  match id.bytes with
  | [1] => baseline.canonicalForm
  | [2] => confined.canonicalForm
  | [3] => rootGrant.canonicalForm
  | _ => leafGrant.canonicalForm

theorem objectOf_addressing {t : Tagged} {id : ContentId} (h : addressing t = .ok id) :
    t = objectOf id := by
  simp only [addressing] at h
  split_ifs at h with h1 h2 h3 h4
  · cases h
    exact h1
  · cases h
    exact h2
  · cases h
    exact h3
  · cases h
    exact h4

theorem addressing_injective : addressing.Injective := by
  intro x y id hx hy
  exact (objectOf_addressing hx).trans (objectOf_addressing hy).symm

def resolvedRoot : ResolvedGrant addressing := ⟨rootGrant, baseline, by decide⟩

def resolvedLeaf : ResolvedGrant addressing := ⟨leafGrant, confined, by decide⟩

end Small

theorem trusted_chains_attenuated :
    verifyChain [Small.resolvedLeaf, Small.resolvedRoot] ⟨⟨[3]⟩⟩ denyAllElevations = .trusted ∧
      Confined ⟨⟨[3]⟩⟩ {chain : List (ResolvedGrant Small.addressing) |
        verifyChain chain ⟨⟨[3]⟩⟩ denyAllElevations = .trusted} :=
  ⟨by decide, (trusted_chains Small.addressing_injective ⟨⟨[3]⟩⟩).1⟩

end Provenance
