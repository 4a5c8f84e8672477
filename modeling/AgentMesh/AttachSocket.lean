/-
What the attach socket cannot do.

A remote host's bridge may enroll with a token and admit what sessions signed.
Minting invites and registering devices are the owner's: no request of the attach
socket makes the server sign such an event.  What is left is an event that
carries the server's own signature already.

* `Server.Wrote` — what an entry point writes, by the bodies it was asked for;
* `handle_wrote` — the request behind an invite or a device;
* `invites_are_the_owners` — over every interleaving.
-/
import AgentMesh.ConnectionLife

open Std Mesh Framing

namespace Flock

variable {P : Primitives} {α β : Type}

/-- An event that lets somebody new in. -/
def Body.letsIn : Body → Bool
  | .invite .. | .deviceCert _ => true
  | _ => false

/-! ### What entry points write -/

theorem State.sealAll_bodies {key : AgentKey P.toCrypto} {specs : List Spec} {st next : State}
    {sealed : List Sealed} {ids : List ContentId}
    (h : st.sealAll key specs = .ok (next, sealed, ids)) :
    sealed.map (·.event.payload.body) = specs.map (·.body) := by
  induction specs generalizing st sealed ids with
  | nil =>
    obtain ⟨rfl, -⟩ := State.sealAll_nil h
    rfl
  | cons spec specs ih =>
    obtain ⟨x, mid, more, ids', rfl, -, -, hbody, hrest⟩ := State.sealAll_cons h
    rw [List.map_cons, List.map_cons, hbody, ih hrest]

namespace Server

variable {s s' : Server P} {Q : Sealed → Prop}

/-- What the log has after a call, it had before or `Q` allows. -/
def Wrote (Q : Sealed → Prop) (s s' : Server P) : Prop :=
  ∀ y ∈ s'.frames.flatten, y ∈ s.frames.flatten ∨ Q y

theorem wrote_nothing (h : s'.journal = s.journal) : Wrote Q s s' := by
  intro y hy
  rw [frames, h] at hy
  exact .inl hy

theorem Wrote.mono {Q' : Sealed → Prop} (h : Wrote Q s s') (hQ : ∀ y, Q y → Q' y) : Wrote Q' s s' :=
  fun y hy => (h y hy).imp_right (hQ y)

theorem commitFrame_wrote (sealed : List Sealed) (next : State) (fault : Option Fault)
    (hQ : ∀ y ∈ sealed, Q y) : Wrote Q s (s.commitFrame sealed next fault).1 := by
  rw [commitFrame, append]
  cases s.log.append P.frameCodec ⟨sealed⟩ fault with
  | mk log r =>
    cases r with
    | error e => exact wrote_nothing rfl
    | ok u =>
      intro y hy
      simp only [frames, publish, List.map_append, List.flatten_append, List.mem_append,
        List.map_cons, List.map_nil, List.flatten_cons, List.flatten_nil, List.append_nil] at hy
      exact hy.imp_right (hQ y)

theorem transact_wrote (specs : List Spec) (fault : Option Fault)
    (hQ : ∀ y : Sealed, y.event.payload.body ∈ specs.map (·.body) → Q y) :
    Wrote Q s (s.transact specs fault).1 := by
  rw [transact]
  split
  · exact wrote_nothing rfl
  · split
    · exact wrote_nothing rfl
    · rename_i next sealed ids hseal
      split
      · refine commitFrame_wrote sealed next fault fun y hy => hQ y ?_
        rw [← State.sealAll_bodies hseal]
        exact List.mem_map_of_mem hy
      · exact wrote_nothing rfl

theorem transact_quiet (specs : List Spec) (fault : Option Fault)
    (hquiet : ∀ spec ∈ specs, spec.body.letsIn = false) :
    Wrote (fun y => y.event.payload.body.letsIn = false) s (s.transact specs fault).1 := by
  refine transact_wrote specs fault fun y hy => ?_
  obtain ⟨spec, hspec, hbody⟩ := List.mem_map.mp hy
  rw [← hbody]
  exact hquiet spec hspec

theorem endSession_quiet (session : String) (reason : EndReason) (io : Io) :
    Wrote (fun y => y.event.payload.body.letsIn = false) s (s.endSession session reason io).1 := by
  rw [endSession]
  split
  · exact wrote_nothing rfl
  · refine transact_quiet _ _ fun spec hspec => ?_
    simp only [List.mem_cons, List.not_mem_nil, or_false] at hspec
    rcases hspec with rfl | rfl <;> rfl

theorem enrollFinish_quiet (challenge : PossessionChallenge) (proof : Signature) (io : Io) :
    Wrote (fun y => y.event.payload.body.letsIn = false) s
      (s.enrollFinish challenge proof io).1 := by
  rw [enrollFinish]
  split <;> rename_i heq <;> obtain rfl := congrArg Prod.fst heq
  · exact wrote_nothing rfl
  · exact wrote_nothing rfl
  · rw [startSession]
    split
    · exact wrote_nothing rfl
    · refine transact_quiet (s := { s with challenges := _ }) _ _ fun spec hspec => ?_
      rw [List.mem_singleton.mp hspec]
      rfl

theorem renewFinish_quiet (challenge : PossessionChallenge) (proof : Signature) (io : Io) :
    Wrote (fun y => y.event.payload.body.letsIn = false) s
      (s.renewFinish challenge proof io).1 := by
  rw [renewFinish]
  split <;> rename_i heq <;> obtain rfl := congrArg Prod.fst heq
  · exact wrote_nothing rfl
  · exact wrote_nothing rfl
  · split
    · exact wrote_nothing rfl
    · split
      · exact wrote_nothing rfl
      · rw [renewSession]
        split
        · exact wrote_nothing rfl
        · refine transact_quiet (s := { s with challenges := _ }) _ _ fun spec hspec => ?_
          rw [List.mem_singleton.mp hspec]
          rfl

/-- The server itself signed the event. -/
def Signs (s : Server P) (node : MerkleNode Event) (sig : Assertion) : Prop :=
  ∃ signer, s.st.sessions.resolve P sig (P.eventId node) s.st.chain.serverPub s.st.chain.user
    (s.st.chain.epochFor node.payload.kind) = .ok signer ∧ signer.class_ = .server

theorem prepare_letsIn {node : MerkleNode Event} {sig : Assertion} {p : Prepared}
    (h : s.st.prepare s.key node sig = .ok p) :
    p.sealed.event = node ∧ (node.payload.body.letsIn = true → s.Signs node sig) := by
  obtain ⟨signer, conflict, hv, -, rfl⟩ := State.prepare_ok.mp h
  refine ⟨rfl, fun hin => ⟨signer, hv.resolved, ?_⟩⟩
  obtain ⟨member, target, closes, hgate, -⟩ := hv.admissible.table
  refine signerMember_serverKind ?_ hgate
  rw [← hv.admissible.fits]
  cases hb : node.payload.body <;> rw [hb] at hin <;> first | rfl | cases hin

theorem refuseEvent_quiet (node : MerkleNode Event) (why : Refusal) (io : Io) :
    Wrote Q s (s.refuseEvent node why io).1 :=
  wrote_nothing (refuseEvent_unchanged node why io).1.journal

/-- **An event that lets somebody in is admitted only with the server's
signature.** -/
theorem admitNode_wrote (node : MerkleNode Event) (sig : Assertion) (io : Io) :
    Wrote (fun y => y.event.payload.body.letsIn = true → y.event = node ∧ s.Signs node sig) s
      (s.admitNode node sig io).1 := by
  have hcame := s.admitNode_admission node sig io
  generalize s.admitNode node sig io = r at hcame
  cases hcame with
  | givesUp | known => exact wrote_nothing rfl
  | refuses up why => exact refuseEvent_quiet node why io
  | single up prepared =>
    obtain ⟨hevent, hsigns⟩ := prepare_letsIn prepared
    refine commitFrame_wrote _ _ _ fun y hy hin => ?_
    rw [List.mem_singleton.mp hy] at hin ⊢
    exact ⟨hevent, hsigns (hevent ▸ hin)⟩
  | bumped up prepared bumps =>
    obtain ⟨hevent, hsigns⟩ := prepare_letsIn prepared
    refine commitFrame_wrote _ _ _ fun y hy hin => ?_
    simp only [List.mem_cons, List.not_mem_nil, or_false] at hy
    rcases hy with rfl | rfl
    · exact ⟨hevent, hsigns (hevent ▸ hin)⟩
    · -- the bump lets nobody in
      obtain ⟨signer, conflict, -, -, rfl⟩ := State.prepare_ok.mp bumps
      cases hin

end Server

/-! ### Requests -/

/-- What is behind an event that lets somebody in: the owner's request to invite
the member it names, by a token drawn for it, the owner's request to register the
certificate it records, or the event itself, which the server had signed. -/
inductive Behind (s : Server P) (y : Sealed) : Class → Req → Io → Prop where
  | invited {member : String} {io : Io}
      (body : y.event.payload.body = .invite member (tokenDigest P (P.hexEncode (io.rand 0)))) :
      Behind s y .owner (.invite member) io
  | registered {cert : CertChain} {io : Io} (body : y.event.payload.body = .deviceCert cert) :
      Behind s y .owner (.registerDevice cert) io
  | presigned {class_ : Class} {sig : Assertion} {io : Io} (signs : s.Signs y.event sig) :
      Behind s y class_ (.admitNode y.event sig) io

theorem handle_wrote (s : Server P) {class_ : Class} {req : Req}
    (hoffered : offered class_ req = true)
    (bound : Option String) (io : Io) :
    Server.Wrote (fun y => y.event.payload.body.letsIn = true → Behind s y class_ req io) s
      (handle s req bound io).server := by
  -- a request that writes only what lets nobody in
  have hquiet : ∀ {s' : Server P},
      Server.Wrote (fun y => y.event.payload.body.letsIn = false) s s' →
      Server.Wrote (fun y => y.event.payload.body.letsIn = true → Behind s y class_ req io)
        s s' := by
    intro s' h
    refine h.mono fun y hy hin => ?_
    rw [hy] at hin
    cases hin
  cases req with
  | hello | genesis | head | end_ | watchBegin | watch | prove | fileStat | file =>
    exact Server.wrote_nothing rfl
  | invite member =>
    cases class_ with
    | remote => cases hoffered
    | owner =>
      exact Server.transact_wrote _ _ fun y hy _ => .invited (List.mem_singleton.mp hy)
  | registerDevice cert =>
    cases class_ with
    | remote => cases hoffered
    | owner =>
      exact Server.transact_wrote _ _ fun y hy _ => .registered (List.mem_singleton.mp hy)
  | enrollBegin token member pubkey =>
    cases bound with
    | some a => exact Server.wrote_nothing rfl
    | none =>
      refine Server.wrote_nothing ?_
      show (s.enrollBegin token member pubkey io).1.journal = s.journal
      rw [Server.enrollBegin]
      split <;> rfl
  | enrollFinish challenge proof =>
    cases bound with
    | some a => exact Server.wrote_nothing rfl
    | none =>
      have hwrote := s.enrollFinish_quiet challenge proof io
      rw [handle]
      generalize s.enrollFinish challenge proof io = r at hwrote
      obtain ⟨s', r⟩ := r
      cases r <;> exact hquiet hwrote
  | renew last =>
    refine Server.wrote_nothing ?_
    show (s.renewOrCurrent last io).1.journal = s.journal
    have hbegin : (s.renewBegin last io).1.journal = s.journal := by
      rw [Server.renewBegin]
      split <;> rfl
    rw [Server.renewOrCurrent]
    split
    · split
      · rfl
      · exact hbegin
    · exact hbegin
  | renewFinish challenge proof => exact hquiet (s.renewFinish_quiet challenge proof io)
  | admitNode node sig =>
    refine (s.admitNode_wrote node sig io).mono fun y hy hin => ?_
    obtain ⟨rfl, hsigns⟩ := hy hin
    exact .presigned hsigns

/-- **Invites and devices are the owner's.**  Serve any server on any sockets and
let its threads interleave in any way.  Whatever invite or device certificate the
log has gained, it gained as one connection's request was handled: the invite of
that member or the certificate was asked for on the owner's socket, or the request
was to admit that very event, which already carried the server's signature.  The
attach socket lets nobody in. -/
theorem invites_are_the_owners (s : Server P) (rootPaths : BTreeMap String String)
    (contentId : MerkleNode StreamChallenge → Except String ContentId) (classes : List Class)
    (acts : List Service.Act) {y : Sealed} (hin : y.event.payload.body.letsIn = true)
    (hy : y ∈ ((Service.start s rootPaths contentId classes).run acts).server.frames.flatten)
    (hnew : y ∉ s.frames.flatten) :
    let x := Service.start s rootPaths contentId classes
    ∃ pre id req io post c, acts = pre ++ .thread id (.request req io) :: post ∧
      (x.run pre).conns[id]? = some c ∧ c.stage = .reading ∧
      Behind (x.run pre).server y c.class_ req io ∧
      y ∉ (x.run pre).server.frames.flatten ∧
      y ∈ ((x.run pre).step (.thread id (.request req io))).server.frames.flatten := by
  intro x
  induction acts using List.reverseRecOn with
  | nil => exact absurd hy hnew
  | append_singleton acts a ih =>
    by_cases hold : y ∈ (x.run acts).server.frames.flatten
    · obtain ⟨pre, id, req, io, post, c, rfl, h⟩ := ih hold
      exact ⟨pre, id, req, io, post ++ [a], c, by simp, h⟩
    · -- the step that brought it
      rw [Service.run_append] at hy
      have hy' : y ∈ ((x.run acts).step a).server.frames.flatten := hy
      have hmove := (x.run acts).step_moves a
      have hbrought := hy'
      generalize (x.run acts).step a = z at hmove hy'
      cases hmove with
      | idle | takes | ends | drops | accepts | flagged | drained | stopped => exact absurd hy' hold
      | @accesses id act c c' z known access =>
        have hquiet : ∀ {t : Server P}, Server.Wrote
            (fun y => y.event.payload.body.letsIn = false) (x.run acts).server t →
            y ∉ t.frames.flatten := by
          intro t hwrote ht
          rcases hwrote y ht with h | h
          · exact hold h
          · rw [h] at hin
            cases hin
        cases access with
        | handled reading req io allowed ordinary =>
          rcases handle_wrote (x.run acts).server allowed c.bound io y hy' with h | h
          · exact absurd h hold
          · exact ⟨acts, id, req, io, [], c, rfl, known, reading, h hin, hold, hbrought⟩
        | closed reading session bound io =>
          exact absurd hy' (hquiet (Server.endSession_quiet session .closed io))
        | lost leaving session bound io =>
          exact absurd hy' (hquiet (Server.endSession_quiet session .lost io))
        | unproved _ _ _ same | unread _ _ _ same | worked _ _ _ _ same =>
          rcases same with rfl | rfl <;> exact absurd hy' hold
        | still | declined | challenged | watched | proved | located | farewell | hungUp | read
        | panicked | placed | cancelled | recorded | recordedLast | wrote | left =>
          exact absurd hy' hold

set_option maxRecDepth 100000 in
/-- The small flock's invite was asked for by its owner, and came as the request
was handled. -/
theorem invites_are_the_owners_small :
    ∃ s, Server.open_ Small.lifeKey Small.signedGenesis ⟨[], []⟩ ⟨[], []⟩ = .ok s ∧
      let x := Service.start s ∅ Small.contentId [.owner]
      ∃ pre id req io post c, Small.enrolls = pre ++ .thread id (.request req io) :: post ∧
        (x.run pre).conns[id]? = some c ∧ c.stage = .reading ∧
        Behind (x.run pre).server Small.invited c.class_ req io ∧
        Small.invited ∉ (x.run pre).server.frames.flatten ∧
        Small.invited ∈
          ((x.run pre).step (.thread id (.request req io))).server.frames.flatten := by
  exact ⟨Small.life, Small.life_open, invites_are_the_owners Small.life ∅ Small.contentId [.owner]
    Small.enrolls rfl (by decide +kernel) (by decide +kernel)⟩

end Flock
