/-
What a call on the server can do.

The entry points differ in what they check and build.  What they do to the
server comes down to five effects: held challenges change, a frame built on
the live state is appended and published, or its append breaks, and the same
for a refusal.  Whatever holds of every effect holds of every call.

* `Built` — the two shapes of frame the server builds: one event that shrinks
  no authority, or an event followed by its epoch bump;
* `Server.admitNode_admission` — how an admission comes out;
* `Server.call_outcome` — every call is a sequence of effects;
* `Server.serve_invariant` — induction over the calls of a server;
* `Server.serve_taken` — its state is where its log leads.
-/
import AgentMesh.Entry
import AgentMesh.SessionTable

open Std Mesh Framing

namespace Flock

variable {P : Primitives}

/-! ### Frames built on the live path -/

/-- The live path checked `x` on `st`, sealed it and took it in. -/
inductive State.Seals (key : AgentKey P.toCrypto) (st : State) : Sealed → State → Prop where
  | prepared {node : MerkleNode Event} {sig : Assertion} {p : Prepared}
      (h : st.prepare key node sig = .ok p) : Seals key st p.sealed (st.commit P p)

section Frames

variable {key : AgentKey P.toCrypto} {st next : State} {x : Sealed}

theorem State.Seals.vetted (h : st.Seals key x next) :
    ∃ sig signer conflict,
      st.Vetted P x.event sig (st.chain.epochFor x.kind) signer conflict ∧
        (∃ cert, st.citedCert P (P.certCid sig.author) = .ok cert) ∧
        x = st.sealing key x.event sig ∧ next = st.after P x signer conflict := by
  obtain ⟨hp⟩ := h
  obtain ⟨signer, conflict, hv, hcited, rfl⟩ := State.prepare_ok.mp hp
  exact ⟨_, signer, conflict, hv, hcited, rfl, State.commit_of hv⟩

theorem State.Seals.nextIndex (h : st.Seals key x next) :
    next.chain.nextIndex = st.chain.nextIndex + 1 := by
  obtain ⟨sig, signer, conflict, -, -, -, rfl⟩ := h.vetted
  rfl

theorem State.Seals.roster (h : st.Seals key x next) {members : List Member}
    {roots : List String} (hk : x.kind = .roster)
    (hb : x.event.payload.body = .roster members roots) : next.board.members = members := by
  obtain ⟨sig, signer, conflict, hv, -, -, rfl⟩ := h.vetted
  rw [hv.admissible.roster_conflict hk]
  exact Board.record_roster hk hb

/-- A frame the server builds on `st`, and the state it leads to. -/
inductive Built (key : AgentKey P.toCrypto) (st : State) : List Sealed → State → Prop where
  /-- One event, which shrinks no authority. -/
  | single {x : Sealed} {next : State} (seals : st.Seals key x next)
      (ends : x.kind ≠ .sessionEnd ∧ x.kind ≠ .handoff)
      (drops : x.kind = .roster → dropsMember st.board.members next.board.members = false) :
      Built key st [x] next
  /-- An event with its epoch bump. -/
  | bumped {x y : Sealed} {mid next : State} (seals : st.Seals key x mid)
      (bump : mid.Seals key y next) (epoch : y.kind = .epoch) : Built key st [x, y] next

theorem State.sealAll_cons {spec : Spec} {rest : List Spec} {sealed : List Sealed}
    {ids : List ContentId} (h : st.sealAll key (spec :: rest) = .ok (next, sealed, ids)) :
    ∃ x mid more ids', sealed = x :: more ∧ st.Seals key x mid ∧ x.kind = spec.kind ∧
      x.event.payload.body = spec.body ∧ mid.sealAll key rest = .ok (next, more, ids') := by
  simp only [State.sealAll, bind_ok, pure, Except.pure, Except.ok.injEq, Prod.mk.injEq] at h
  obtain ⟨p, hp, ⟨mid, more, ids'⟩, hrest, rfl, rfl, rfl⟩ := h
  have hseals := State.Seals.prepared hp
  obtain ⟨signer, conflict, -, -, rfl⟩ := State.prepare_ok.mp hp
  exact ⟨_, _, more, ids', rfl, hseals, rfl, rfl, hrest⟩

theorem State.sealAll_nil {sealed : List Sealed} {ids : List ContentId}
    (h : st.sealAll key [] = .ok (next, sealed, ids)) : sealed = [] ∧ next = st := by
  cases h
  exact ⟨rfl, rfl⟩

theorem State.sealAll_single {spec : Spec} {sealed : List Sealed} {ids : List ContentId}
    (h : st.sealAll key [spec] = .ok (next, sealed, ids))
    (ends : spec.kind ≠ .sessionEnd ∧ spec.kind ≠ .handoff)
    (drops : spec.kind = .roster →
      ∃ members roots, spec.body = .roster members roots ∧
        dropsMember st.board.members members = false) : Built key st sealed next := by
  obtain ⟨x, mid, more, ids', rfl, hx, hkind, hbody, hrest⟩ := State.sealAll_cons h
  obtain ⟨rfl, rfl⟩ := State.sealAll_nil hrest
  refine .single hx (hkind ▸ ends) fun hk => ?_
  obtain ⟨members, roots, hb, hdrop⟩ := drops (hkind ▸ hk)
  rw [hx.roster hk (hbody.trans hb)]
  exact hdrop

theorem State.sealAll_bumped {spec bump : Spec} {sealed : List Sealed} {ids : List ContentId}
    (h : st.sealAll key [spec, bump] = .ok (next, sealed, ids)) (hb : bump.kind = .epoch) :
    Built key st sealed next := by
  obtain ⟨x, mid, more, ids', rfl, hx, -, -, hrest⟩ := State.sealAll_cons h
  obtain ⟨y, last, more, ids'', rfl, hy, hkind, -, hrest⟩ := State.sealAll_cons hrest
  obtain ⟨rfl, rfl⟩ := State.sealAll_nil hrest
  exact .bumped hx hy (hkind.trans hb)

theorem State.Seals.takes (h : st.Seals key x next) : st.Takes P x.event next := by
  obtain ⟨hp⟩ := h
  have htakes := State.Takes.committed hp
  obtain ⟨signer, conflict, -, -, rfl⟩ := State.prepare_ok.mp hp
  exact htakes

theorem Built.later {frame : List Sealed} (h : Built key st frame next) :
    State.Later P st next := by
  cases h with
  | single seals => exact .single (.event seals.takes)
  | bumped seals bump => exact .head (.event seals.takes) (.single (.event bump.takes))

end Frames

/-! ### Effects -/

namespace Server

def refusal (s : Server P) (node : MerkleNode Event) (why : Refusal) : RefusalEntry :=
  .sign s.key s.refusalPrev ⟨P.eventId node, node.payload.author, why, s.admitted⟩

inductive Effect (s : Server P) : Server P → Prop where
  /-- Held challenges are issued or consumed. -/
  | held (challenges : BTreeMap (BitVec 256) Held) : Effect s { s with challenges := challenges }
  /-- A frame is durable, taken in and published. -/
  | published {sealed : List Sealed} {next : State} {fault : Option Fault} {log : Log}
      (up : s.poisoned = false) (built : Built s.key s.st sealed next)
      (wrote : s.log.append P.frameCodec ⟨sealed⟩ fault = (log, .ok ()))
      (fits : frameFits P sealed = true) : Effect s (publish { s with log := log } sealed next)
  /-- The append of a frame breaks. -/
  | broken {sealed : List Sealed} {next : State} {fault : Option Fault} {log : Log}
      {e : ServerError} (up : s.poisoned = false) (built : Built s.key s.st sealed next)
      (wrote : s.log.append P.frameCodec ⟨sealed⟩ fault = (log, .error e))
      (fits : frameFits P sealed = true) : Effect s { s with log := log, poisoned := true }
  /-- A refusal is durable and part of the chain. -/
  | refused {node : MerkleNode Event} {why : Refusal} {fault : Option Fault} {log : Log}
      (up : s.poisoned = false)
      (wrote : s.refusalLog.append P.refusalCodec (s.refusal node why) fault = (log, .ok ())) :
      Effect s { s with
        refusalLog := log
        refusalPrev := P.refusalId (s.refusal node why).record
        refusals := s.refusals ++ [s.refusal node why] }
  /-- The append of a refusal breaks. -/
  | brokenRefusal {node : MerkleNode Event} {why : Refusal} {fault : Option Fault} {log : Log}
      {e : ServerError} (up : s.poisoned = false)
      (wrote : s.refusalLog.append P.refusalCodec (s.refusal node why) fault = (log, .error e)) :
      Effect s { s with refusalLog := log, poisoned := true }

def Does : Server P → Server P → Prop := Relation.ReflTransGen Effect

/-- What a call leaves: effects, none of which broke an append if it returned a
result. -/
structure Outcome {α : Type} (s : Server P) (r : Server P × Except ServerError α) : Prop where
  does : s.Does r.1
  unbroken : ∀ a, r.2 = .ok a → r.1.poisoned = s.poisoned

section Outcomes

variable {α β : Type} {s : Server P}

theorem Outcome.error (e : ServerError) : Outcome s ((s, .error e) : Server P × Except _ α) :=
  ⟨.refl, nofun⟩

theorem Outcome.held (challenges : BTreeMap (BitVec 256) Held) (r : Except ServerError α) :
    Outcome s ({ s with challenges := challenges }, r) :=
  ⟨.single (.held challenges), fun _ _ => rfl⟩

theorem Outcome.returning {r : Server P × Except ServerError α} (h : Outcome s r) (f : α → β) :
    Outcome s (returning f r) := by
  refine ⟨h.does, fun b hb => ?_⟩
  obtain ⟨s', r⟩ := r
  cases r with
  | ok a => exact h.unbroken a rfl
  | error e => cases hb

theorem Outcome.after_held {challenges : BTreeMap (BitVec 256) Held}
    {r : Server P × Except ServerError α}
    (h : Outcome { s with challenges := challenges } r) : Outcome s r :=
  ⟨.head (.held challenges) h.does, h.unbroken⟩

theorem commitFrame_outcome {sealed : List Sealed} {next : State} (up : s.poisoned = false)
    (built : Built s.key s.st sealed next) (fits : frameFits P sealed = true)
    (fault : Option Fault) : Outcome s (s.commitFrame sealed next fault) := by
  rw [commitFrame, append]
  cases ha : s.log.append P.frameCodec ⟨sealed⟩ fault with
  | mk log r =>
    cases r with
    | ok u => exact ⟨.single (.published up built ha fits), fun _ _ => rfl⟩
    | error e => exact ⟨.single (.broken up built ha fits), nofun⟩

theorem recordRefusal_does (up : s.poisoned = false) (node : MerkleNode Event) (why : Refusal)
    (fault : Option Fault) : s.Does (s.recordRefusal node why fault).1 := by
  rw [recordRefusal, ← refusal]
  cases ha : s.refusalLog.append P.refusalCodec (s.refusal node why) fault with
  | mk log r =>
    cases r with
    | ok u => exact .single (.refused up ha)
    | error e => exact .single (.brokenRefusal up ha)

/-! ### Transactions -/

theorem transact_outcome {specs : List Spec} (fault : Option Fault)
    (hbuilt : ∀ {next sealed ids}, s.st.sealAll s.key specs = .ok (next, sealed, ids) →
      Built s.key s.st sealed next) : Outcome s (s.transact specs fault) := by
  rw [transact]
  split
  · exact .error _
  · rename_i hup
    split
    · exact .error _
    · rename_i hseal
      split
      · rename_i fits
        exact (commitFrame_outcome (by simpa using hup) (hbuilt hseal) fits fault).returning _
      · exact .error _

theorem transact_single {spec : Spec} (fault : Option Fault)
    (ends : spec.kind ≠ .sessionEnd ∧ spec.kind ≠ .handoff ∧ spec.kind ≠ .roster) :
    Outcome s (s.transact [spec] fault) :=
  transact_outcome fault fun h =>
    State.sealAll_single h ⟨ends.1, ends.2.1⟩ fun hk => absurd hk ends.2.2

theorem transact_bumped {spec : Spec} (fault : Option Fault) :
    Outcome s (s.transact [spec, s.st.bumpSpec] fault) :=
  transact_outcome fault fun h => State.sealAll_bumped h rfl

theorem transact_roster {refs : List (String × ContentId)} {members : List Member}
    {roots : List String} (fault : Option Fault)
    (hdrop : dropsMember s.st.board.members members = false) :
    Outcome s (s.transact [⟨.roster, refs, .roster members roots⟩] fault) :=
  transact_outcome fault fun h =>
    State.sealAll_single h ⟨nofun, nofun⟩ fun _ => ⟨members, roots, rfl, hdrop⟩

end Outcomes

/-! ### Entry points -/

theorem refuseEvent_outcome {s : Server P} (up : s.poisoned = false) (node : MerkleNode Event)
    (why : Refusal) (io : Io) : Outcome s (s.refuseEvent node why io) := by
  have h := recordRefusal_does up node why io.refusalFault
  rw [refuseEvent]
  split <;> rename_i heq <;> rw [heq] at h <;> exact ⟨h, nofun⟩

/-- How an admission comes out: it is given up, answered as a duplicate or
refused, or its frame is written, alone or with an epoch bump. -/
inductive Admission (s : Server P) (node : MerkleNode Event) (sig : Assertion) (io : Io) :
    Server P × Except ServerError Receipt → Prop where
  | givesUp (e : ServerError) : Admission s node sig io (s, .error e)
  | known (e : Entry) : Admission s node sig io (s, .ok ⟨e.index, true, none⟩)
  | refuses (up : s.poisoned = false) (why : Refusal) :
      Admission s node sig io (s.refuseEvent node why io)
  | single (up : s.poisoned = false) {p : Prepared} (prepared : s.st.prepare s.key node sig = .ok p)
      (ends : node.payload.kind ≠ .sessionEnd ∧ node.payload.kind ≠ .handoff)
      (keeps : node.payload.kind = .roster →
        dropsMember s.st.board.members (s.st.commit P p).board.members = false)
      (fits : frameFits P [p.sealed] = true) :
      Admission s node sig io (s.receive p [p.sealed] (s.st.commit P p) io)
  | bumped (up : s.poisoned = false) {p bump : Prepared}
      (prepared : s.st.prepare s.key node sig = .ok p)
      (bumps : let e := (s.st.commit P p).serverEvent s.key (s.st.commit P p).bumpSpec
        (s.st.commit P p).prepare s.key e.1 e.2 = .ok bump)
      (fits : frameFits P [p.sealed, bump.sealed] = true) :
      Admission s node sig io
        (s.receive p [p.sealed, bump.sealed] ((s.st.commit P p).commit P bump) io)

theorem admitNode_admission (s : Server P) (node : MerkleNode Event) (sig : Assertion) (io : Io) :
    Admission s node sig io (s.admitNode node sig io) := by
  rw [admitNode]
  split
  · exact .givesUp _
  · rename_i hup
    have up : s.poisoned = false := by simpa using hup
    split
    · exact .known _
    · split
      · exact .givesUp _
      · rename_i hends
        split
        · exact .refuses up _
        · exact .givesUp _
        · rename_i p hp
          split
          · rename_i fits
            rw [admitPrepared]
            split
            · dsimp only
              split
              · exact .givesUp _
              · rename_i bump hbump
                split
                · rename_i hfits
                  exact .bumped up hp hbump hfits
                · exact .refuses up .tooLarge
            · rename_i hdrop
              exact .single up hp (not_or.mp hends) (fun hk => by simpa [hk] using hdrop) fits
          · exact .refuses up .tooLarge

theorem admitNode_outcome (s : Server P) (node : MerkleNode Event) (sig : Assertion) (io : Io) :
    Outcome s (s.admitNode node sig io) := by
  have hkind : ∀ {st : State} {key : AgentKey P.toCrypto} {node : MerkleNode Event}
      {sig : Assertion} {p : Prepared}, st.prepare key node sig = .ok p →
      p.sealed.kind = node.payload.kind := by
    intro st key node sig p hp
    obtain ⟨signer, conflict, -, -, rfl⟩ := State.prepare_ok.mp hp
    rfl
  have hcame := s.admitNode_admission node sig io
  generalize s.admitNode node sig io = r at hcame ⊢
  cases hcame with
  | givesUp e => exact .error e
  | known e => exact ⟨.refl, fun _ _ => rfl⟩
  | refuses up why => exact refuseEvent_outcome up node why io
  | single up prepared ends keeps fits =>
    refine (commitFrame_outcome up (.single (.prepared prepared) ?_ fun hk => ?_) fits
      io.logFault).returning _
    · rw [hkind prepared]
      exact ends
    · rw [hkind prepared] at hk
      exact keeps hk
  | bumped up prepared bumps fits =>
    have hbuilt := Built.bumped (.prepared prepared) (.prepared bumps) (hkind bumps)
    exact (commitFrame_outcome up hbuilt fits io.logFault).returning _

theorem enrollBegin_outcome (s : Server P) (token member : String) (pubkey : PubKey) (io : Io) :
    Outcome s (s.enrollBegin token member pubkey io) := by
  rw [enrollBegin]
  split
  · exact .error _
  · exact .held ..

theorem startSession_outcome (s : Server P) (challenge : PossessionChallenge) (proof : Signature)
    (invite : InviteInfo) (io : Io) : Outcome s (s.startSession challenge proof invite io) := by
  rw [startSession]
  split
  · exact .error _
  · refine .returning (transact_single io.logFault ?_) _
    exact ⟨nofun, nofun, nofun⟩

theorem enrollFinish_outcome (s : Server P) (challenge : PossessionChallenge) (proof : Signature)
    (io : Io) : Outcome s (s.enrollFinish challenge proof io) := by
  rw [enrollFinish]
  split <;> rename_i heq <;> obtain rfl := congrArg Prod.fst heq
  · exact .held ..
  · exact .held ..
  · exact .after_held (startSession_outcome ..)

theorem endSession_outcome (s : Server P) (session : String) (reason : EndReason) (io : Io) :
    Outcome s (s.endSession session reason io) := by
  rw [endSession]
  split
  · exact .error _
  · exact (transact_bumped io.logFault).returning _

theorem issueAll_does (epoch : ℕ) (rand : ℕ → BitVec 256) (due : List (String × PubKey)) :
    ∀ (s : Server P) (i : ℕ), s.Does (issueAll epoch rand s i due).1 ∧
      (issueAll epoch rand s i due).1.poisoned = s.poisoned := by
  induction due with
  | nil => exact fun s i => ⟨.refl, rfl⟩
  | cons d due ih =>
    intro s i
    obtain ⟨hdoes, hup⟩ := ih (s.issue d.2 (.renew d.1 epoch) (rand i)).1 (i + 1)
    exact ⟨.head (.held _) hdoes, hup⟩

theorem renewBegin_outcome (s : Server P) (last : CertChain) (io : Io) :
    Outcome s (s.renewBegin last io) := by
  rw [renewBegin]
  split
  · exact .error _
  · exact .held ..

theorem renewSession_outcome (s : Server P) (challenge : PossessionChallenge) (proof : Signature)
    (session : String) (epoch : ℕ) (info : SessionInfo) (io : Io) :
    Outcome s (s.renewSession challenge proof session epoch info io) := by
  rw [renewSession]
  split
  · exact .error _
  · refine .returning (transact_single io.logFault ?_) _
    exact ⟨nofun, nofun, nofun⟩

theorem renewFinish_outcome (s : Server P) (challenge : PossessionChallenge) (proof : Signature)
    (io : Io) : Outcome s (s.renewFinish challenge proof io) := by
  rw [renewFinish]
  split <;> rename_i heq <;> obtain rfl := congrArg Prod.fst heq
  · exact .held ..
  · exact .held ..
  · split
    · exact .held ..
    · split
      · exact .held ..
      · exact .after_held (renewSession_outcome ..)

theorem replaceRoster_outcome (s : Server P) (members : List Member) (io : Io) :
    Outcome s (s.replaceRoster members io) := by
  rw [replaceRoster, transactEvent, rosterSpecs]
  split
  · exact (transact_bumped io.logFault).returning _
  · rename_i hdrop
    exact (transact_roster io.logFault (by simpa using hdrop)).returning _

theorem handoff_outcome (s : Server P) (approval : MerkleNode HandoffApproval) (sig : Assertion)
    (io : Io) : Outcome s (s.handoff approval sig io) := by
  rw [handoff]
  split
  · exact (transact_bumped io.logFault).returning _
  · exact .error _

/-- **Every call is a sequence of effects**, and one that returned a result
broke no append. -/
theorem call_outcome (s : Server P) (c : Call) (io : Io) : Outcome s (s.call c io) := by
  cases c with
  | admitNode node sig => exact (s.admitNode_outcome node sig io).returning _
  | invite member =>
    refine .returning (.returning (transact_single io.logFault ?_) _) _
    exact ⟨nofun, nofun, nofun⟩
  | enrollBegin token member pubkey =>
    exact (s.enrollBegin_outcome token member pubkey io).returning _
  | enrollFinish challenge proof => exact (s.enrollFinish_outcome challenge proof io).returning _
  | endSession session reason => exact (s.endSession_outcome session reason io).returning _
  | renewalChallenges => exact ⟨(issueAll_does ..).1, fun _ _ => (issueAll_does ..).2⟩
  | renewBegin last => exact (s.renewBegin_outcome last io).returning _
  | renewFinish challenge proof => exact (s.renewFinish_outcome challenge proof io).returning _
  | registerDevice cert =>
    refine .returning (.returning (transact_single io.logFault ?_) _) _
    exact ⟨nofun, nofun, nofun⟩
  | replaceRoster members => exact (s.replaceRoster_outcome members io).returning _
  | setRoots roots =>
    have hkeep := dropsMember_eq_false.mpr fun b (hb : b ∈ s.st.board.members) => ⟨b, hb, rfl⟩
    exact ((transact_roster io.logFault hkeep).returning _).returning _
  | handoff approval sig => exact (s.handoff_outcome approval sig io).returning _

theorem Does.invariant (Inv : Server P → Prop) (hstep : ∀ {s s'}, Effect s s' → Inv s → Inv s')
    {s s' : Server P} (h : s.Does s') (h0 : Inv s) : Inv s' := by
  induction h with
  | refl => exact h0
  | tail _ he ih => exact hstep he ih

theorem Does.later {s s' : Server P} (h : s.Does s') : State.Later P s.st s'.st := by
  refine h.invariant (fun t => State.Later P s.st t.st) ?_ .refl
  intro t t' he hlater
  cases he with
  | published up built wrote => exact hlater.trans built.later
  | held | broken | refused | brokenRefusal => exact hlater

/-- A server that stopped after a failed write never writes again. -/
theorem Does.log_of_poisoned {s s' : Server P} (h : s.Does s') (hp : s.poisoned = true) :
    s'.log = s.log := by
  refine (h.invariant (fun t => t.poisoned = true ∧ t.log = s.log) ?_ ⟨hp, rfl⟩).2
  rintro t t' he ⟨hp, hl⟩
  cases he with
  | held => exact ⟨hp, hl⟩
  | published up | broken up | refused up | brokenRefusal up =>
    rw [up] at hp
    cases hp

/-- **Induction over the calls of a server.** -/
theorem serve_invariant {Inv : Server P → Prop} (hstep : ∀ {s s'}, Effect s s' → Inv s → Inv s')
    {s : Server P} (h0 : Inv s) (calls : List (Call × Io)) : Inv (s.serve calls) := by
  induction calls generalizing s with
  | nil => exact h0
  | cons c calls ih => exact ih ((s.call_outcome c.1 c.2).does.invariant Inv hstep h0)

/-! ### The log behind the state -/

theorem open_replays {key : AgentKey P.toCrypto} {genesis : SignedGenesis}
    {logFile refusalFile : File} {s : Server P}
    (h : Server.open_ key genesis logFile refusalFile = .ok s) :
    Replays P genesis.node s.frames.flatten s.st := by
  obtain ⟨-, -, _, found, _, _, _, _, published, _, _, -, -, hrebuild, -, rfl⟩ := open_ok.mp h
  have hpublished := hrebuild
  simp only [rebuildWith, bind_ok] at hpublished
  obtain ⟨st₀, -, hpublished⟩ := hpublished
  have hframes : published.map (·.1) = found.map fun f => f.2.sealed :=
    rebuildFrames_published hpublished
  rw [frames, hframes]
  exact rebuildWith_replays hrebuild

theorem Effect.taken {g : MerkleNode Genesis} {s s' : Server P} (he : Effect s s')
    (h : Taken P g s.frames.flatten s.st) : Taken P g s'.frames.flatten s'.st := by
  cases he with
  | held | broken | refused | brokenRefusal => exact h
  | @published sealed next fault log up built wrote =>
    have hframes : (publish { s with log := log } sealed next).frames.flatten =
        s.frames.flatten ++ sealed := by
      simp [frames, publish]
    rw [hframes]
    cases built with
    | single seals => exact h.snoc seals.takes
    | @bumped x y mid _ seals bump =>
      have hlog := (h.snoc seals.takes).snoc bump.takes
      rw [List.append_assoc] at hlog
      exact hlog

/-- **A server's state is where its log leads**, over every run. -/
theorem serve_taken {key : AgentKey P.toCrypto} {genesis : SignedGenesis}
    {logFile refusalFile : File} {s : Server P}
    (h : Server.open_ key genesis logFile refusalFile = .ok s) (calls : List (Call × Io)) :
    Taken P genesis.node (s.serve calls).frames.flatten (s.serve calls).st :=
  serve_invariant (fun he h => he.taken h) (open_replays h).taken calls

end Server

end Flock
