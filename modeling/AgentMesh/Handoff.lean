/-
Who may authorise a hand-off.

A hand-off embeds an approval signed over its own id.  Two kinds of key may
sign one: a device the roster lists for an operator, certified by the flock's
user, for the delegate or a shepherd; and an active session of a shepherd,
certified for the current epoch, for a helper that is not the delegate.

* `Replays.approver` — the two ways, led back to the log;
* `handoff_authority` — everything an accepted hand-off has behind it.
-/
import AgentMesh.Ratchet

open Std Mesh

namespace Flock

variable {P : Primitives} {g : MerkleNode Genesis}

/-- Who stands behind a hand-off of `member`, in a state reached by `log`. -/
inductive Authority (P : Primitives) (g : MerkleNode Genesis) (signed : PubKey → Bytes → Prop)
    (log : List Sealed) (st : State) (member : Member) (approval : ContentId)
    (author : CertChain) : Prop where
  /-- A listed device of an operator, certified directly by the flock's user. -/
  | device (operator : Member) (user : UserPublic) (listed : operator ∈ st.board.members)
      (role : operator.role = .operator)
      (device : author.agentFingerprint P.toCrypto ∈ operator.devices)
      (flockUser : g.payload.serverCert.issuer = .user user) (issuer : author.issuer = .user user)
      (certified : signed user.verifying
        (signPayload P.toCrypto author.agentPubkey author.metadata))
      (approved : signed author.agentPubkey (message approval))
      (moved : member.delegate = true ∨ member.role = .shepherd)
  /-- An active session of a shepherd, with a certificate the log recorded for
  the current epoch. -/
  | shepherd (s : Session) (approver : Member) (y : Sealed)
      (known : st.sessions.sessions[(author.agentFingerprint P.toCrypto).hex P.toCrypto]? = some s)
      (active : s.status = .active)
      (listed : (st.board.members.find? fun m => decide (m.name = s.member)) = some approver)
      (role : approver.role = .shepherd) (entry : y ∈ log)
      (certifies : y.event.payload.body.Certifies
        ((author.agentFingerprint P.toCrypto).hex P.toCrypto) author)
      (current : y.record.payload.epoch = st.chain.epoch)
      (approved : signed author.agentPubkey (message approval))
      (moved : member.role = .helper) (notDelegate : member.delegate = false)

/-- **What an approval's signer was.** -/
theorem Replays.approver {log : List Sealed} {st : State} (h : Replays P g log st)
    (hinj : P.IdsInjective) {signed : PubKey → Bytes → Prop}
    (hunf : P.toCrypto.Unforgeable signed) {member : Member} {apId : ContentId} {sig : Assertion}
    (hap : Approver P st member apId sig st.chain.epoch) :
    Authority P g signed log st member apId sig.author := by
  cases hap with
  | device operator listed role device hsig moved =>
    obtain ⟨hv, hissuer, hs⟩ := Assertion.verifyUser_ok.mp hsig
    obtain ⟨csig, hcsig⟩ := CertChain.verifyAt_user hv hissuer
    exact .device operator st.chain.user listed role device h.chain_fixed.2.2.1 hissuer
      (hunf _ _ _ (.inr hcsig)) (hunf _ _ _ (.inl hs)) moved
  | shepherd fp approver name resolved found role moved notDelegate =>
    have hr := resolve_ok resolved
    generalize hcls : (SignerClass.session name false) = cls at hr
    generalize hsg : (⟨fp, cls⟩ : Signer) = sg at hr
    cases hr with
    | server | device =>
      cases hsg
      cases hcls
    | session s key issued known live recorded hsig =>
      cases hsg
      rw [SignerClass.session.injEq] at hcls
      obtain ⟨rfl, hpending⟩ := hcls
      have hactive : s.status = .active := Status.active_of_live hpending.symm live
      obtain ⟨y, hy, hcert, hepoch, -⟩ := h.certifying hinj known recorded hsig
      exact .shepherd s approver y known hactive found role hy hcert hepoch
        (hunf _ _ _ (.inl (Assertion.verify_ok.mp hsig).2.2)) moved notDelegate

/-- **Hand-off authority.**  The approval an accepted hand-off embeds is for
this flock and exactly this hand-off, was never consumed before, and was signed
by one of the two authorities for the member it moves; `from` holds the role,
`to` waits for it, and `resume` is the last event of `from`, or its start. -/
theorem handoff_authority (hinj : P.IdsInjective) {signed : PubKey → Bytes → Prop}
    (hunf : P.toCrypto.Unforgeable signed) {frames : List (List Sealed)} {f : Follower}
    (h : Follower.Reaches P g frames f) {pre post : List Sealed} {x : Sealed}
    (hlog : frames.flatten = pre ++ x :: post) {from_ to_ : String} {resume : ContentId}
    {context : Option FileRef} {approval : MerkleNode HandoffApproval} {approvalSig : Assertion}
    (hb : x.event.payload.body = .handoff from_ to_ resume context approval approvalSig) :
    ∃ st member start t, Replays P g pre st ∧
      approval.payload = ⟨P.genesisId g, member.name, from_, to_, resume, context⟩ ∧
      context ≠ none ∧
      (∀ y ∈ pre, y.consumedApproval P ≠ some (P.approvalId approval)) ∧
      (st.board.members.find? fun m => decide (m.name = approval.payload.member)) = some member ∧
      Authority P g signed pre st member (P.approvalId approval) approvalSig.author ∧
      st.sessions.holders[member.name]? = some from_ ∧
      (st.sessions.sessions[to_]? = some t ∧ t.status = .pending ∧ t.member = member.name) ∧
      (start ∈ pre ∧ (∃ c, start.event.payload.body = .sessionStart member.name from_ c)) ∧
      resume = (lastBy P from_ pre).getD (P.eventId start.event) := by
  have hrep := h.replays
  rw [hlog] at hrep
  obtain ⟨st, cert, signer, conflict, hpre, hacc, -⟩ := hrep.split
  obtain ⟨fs, t, hok, -⟩ := hacc.tableStep.of_handoff hb
  obtain ⟨member, hfind, happrover⟩ := hok.approved
  have hname : member.name = approval.payload.member := by
    simpa using List.find?_some hfind
  have hkind : x.kind = .handoff := by
    rw [Sealed.kind, ← hacc.vetted.admissible.fits, hb]
    rfl
  have hepoch : x.record.payload.epoch = st.chain.epoch := by
    rw [hacc.extend.epoch, Chain.epochFor, ← Sealed.kind, hkind]
    rfl
  rw [hepoch] at happrover
  obtain ⟨start, hstart, hid, c, hc⟩ := (hpre.backed hok.fromKnown).started
  rw [hok.fromMember, ← hname] at hc
  refine ⟨st, member, start, t, hpre, ?_, ?_, fun y hy hcons => ?_, hfind,
    hpre.approver hinj hunf happrover, ?_, ⟨hok.toKnown, hok.pending, ?_⟩, ⟨hstart, c, hc⟩, ?_⟩
  · obtain ⟨h1, h2, h3, h4⟩ := hok.bound
    rw [hname, ← h1, ← h2, ← h3, ← h4, ← hpre.chain_fixed.2.2.2, ← hok.flock]
  · exact hok.bound.2.2.2 ▸ hok.cited
  · exact hok.unused (hpre.taken.approvals_once.2 _ (List.mem_filterMap.mpr ⟨y, hy, hcons⟩))
  · rw [hname, hok.holder]
  · rw [hok.toMember, hname]
  · rw [hid, ← hpre.headOf]
    exact hok.resumes

/-- The hand-off of the small flock, approved by the operator's device. -/
theorem handoff_authority_device :
    ∃ f st member, Follower.Reaches Small.P Small.genesis Small.handover f ∧
      Replays Small.P Small.genesis Small.beforeHandoff.flatten st ∧ member.name = "h" ∧
      Authority Small.P Small.genesis (Vouched Small.P.toCrypto) Small.beforeHandoff.flatten st
        member (Small.P.approvalId Small.approval) Small.deviceCert ∧
      st.sessions.holders[member.name]? = some "kk" := by
  obtain ⟨f, hf, -⟩ := Small.handover_reached
  obtain ⟨st, member, start, t, hpre, happroval, -, -, -, hauth, hholder, -⟩ :=
    handoff_authority Small.ids_injective (unforgeable_vouched Small.P.toCrypto) hf
      (show Small.handover.flatten = Small.beforeHandoff.flatten ++ Small.handedOff ::
        [Small.bumped, Small.renewed, Small.spokenNext] from rfl) rfl
  refine ⟨f, st, member, hf, hpre, ?_, hauth, hholder⟩
  exact (congrArg HandoffApproval.member happroval).symm

end Flock
