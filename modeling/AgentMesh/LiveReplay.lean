/-
Live state equals replay.

The live path checks an event under the certificate its caller presented, then
seals it; a reader checks the sealed entry under the certificate its record
cites.  The two agree because a citation resolves to the certificate it was
made from, and because the server's own signature verifies at every epoch.

* `State.Seals.replay` — an event sealed live replays to the same state;
* `Built.apply` — a frame the server builds is one a follower accepts;
* `live_equals_replay` — after any calls, the published frames lead a follower
  and a rebuild to the live state.
-/
import AgentMesh.Effects
import AgentMesh.History

open Std Mesh Framing

namespace Flock

variable {P : Primitives} {g : MerkleNode Genesis}

/-! ### The server's key -/

/-- The key the records are signed with is the one readers verify them
against, at every epoch. -/
structure Trusted (key : AgentKey P.toCrypto) (g : MerkleNode Genesis) : Prop where
  cert : key.cert = g.payload.serverCert
  root : key.cert.rootAgent = key.cert.agentPubkey
  verifies : ∀ epoch, key.cert.verifyAt P.toCrypto epoch = .ok ()

theorem Trusted.of_open {key : AgentKey P.toCrypto} {genesis : SignedGenesis}
    {logFile refusalFile : File} {s : Server P}
    (h : Server.open_ key genesis logFile refusalFile = .ok s)
    (htop : genesis.node.payload.serverCert.metadata.caveats = Caveats.top) :
    Trusted key genesis.node := by
  obtain ⟨hgen, hkey, log, frames, _, _, st, _, _, _, _, -, -, hrebuild, -, -⟩ :=
    Server.open_ok.mp h
  simp only [verifySignedGenesis, bind_ok, ensure_ok, mapError_ok] at hgen
  obtain ⟨_, -, _, hauthor, _, -, hsig⟩ := hgen
  have hverify := (Assertion.verify_ok.mp hsig).1
  rw [hauthor] at hverify
  simp only [rebuildWith, bind_ok] at hrebuild
  obtain ⟨st₀, hstart, -⟩ := hrebuild
  obtain ⟨user, huser, -⟩ := startState_ok.mp hstart
  obtain ⟨pk, m, sig, hroot⟩ := CertChain.eq_root_of_issuer huser
  rw [hroot] at hkey hverify htop
  refine ⟨hkey.trans hroot.symm, by rw [hkey]; rfl, fun epoch => ?_⟩
  rw [hkey]
  exact CertChain.verifyAt_of_unbounded (by rw [show m.caveats = _ from htop]; rfl) hverify epoch

/-! ### Citations -/

theorem Replays.chains_keyed {log : List Sealed} {st : State} (h : Replays P g log st)
    {cid : ContentId} {c : CertChain} (hc : st.sessions.chains[cid]? = some c) :
    P.certCid c = cid := by
  refine replays_invariant (fun _ st => ∀ cid c, st.sessions.chains[cid]? = some c →
    P.certCid c = cid) ?_ ?_ h cid c hc
  · intro user _ cid c hc
    simp [State.genesis, Sessions.empty] at hc
  · intro log st x cert signer conflict _ hinv hacc cid c hc
    -- the steps that file a certificate insert it under its id
    have hinsert : ∀ {c' : CertChain},
        (st.sessions.chains.insert (P.certCid c') c')[cid]? = some c →
        P.certCid c = cid := by
      intro c' hc
      rw [BTreeMap.get_insert] at hc
      split at hc
      · rename_i hid
        cases hc
        exact hid
      · exact hinv cid c hc
    have hstep := hacc.tableStep
    generalize (st.after P x signer conflict).sessions = s' at hstep hc
    cases hstep with
    | start | renewal | device => exact hinsert hc
    | invite | end_ | handoff | other => exact hinv cid c hc

theorem Replays.citedCert_eq {log : List Sealed} {st : State} (hinj : P.IdsInjective)
    (h : Replays P g log st) {c cert : CertChain}
    (hcited : st.citedCert P (P.certCid c) = .ok cert) : cert = c := by
  rw [State.citedCert] at hcited
  split at hcited
  · rename_i hid
    cases hcited
    exact (hinj.cert hid).symm
  · exact hinj.cert (h.chains_keyed (okOr_ok.mp hcited))

/-! ### Entries and frames -/

section Live

variable {key : AgentKey P.toCrypto} {log : List Sealed} {st next : State} {x : Sealed}

/-- **What the live path seals, replay accepts**, with the same result. -/
theorem State.Seals.replay (hinj : P.IdsInjective) (hC : P.toCrypto.HonestVerifies)
    (ht : Trusted key g) (hlog : Replays P g log st) (h : st.Seals key x next) :
    st.replay P x = .ok next := by
  obtain ⟨sig, signer, conflict, hv, ⟨cert, hcited⟩, hx, hnext⟩ := h.vetted
  obtain ⟨hcert, hpub, -, -⟩ := hlog.chain_fixed
  rw [← ht.cert] at hcert hpub
  -- the record carries the server's own signature, made under this chain
  have hsig : (⟨st.chain.serverCert, x.recordSig⟩ : Assertion).verify P.toCrypto
      (P.recordId x.record) st.chain.serverPub x.record.payload.epoch = .ok () := by
    rw [hcert, hpub, hx]
    exact Assertion.verify_sign hC (ht.verifies _) ht.root
  cases hlog.citedCert_eq hinj hcited
  refine State.replay_ok.mpr ⟨sig.author, signer, conflict, ⟨⟨hsig, ?_, ?_, ?_, ?_⟩, ?_, ?_⟩, hnext⟩
  · rw [hx]; rfl
  · rw [hx]; rfl
  · rw [hx]; rfl
  · rw [hx]; rfl
  · rw [hx]
    exact hcited
  · have hsigs : x.eventSig = sig.sig := by rw [hx]; rfl
    have hepoch : x.record.payload.epoch = st.chain.epochFor x.kind := by rw [hx]; rfl
    rw [hsigs, hepoch]
    exact hv

theorem State.Seals.extends_chain (h : st.Seals key x next) :
    x.record.parents = {st.chain.prev} ∧ x.record.payload.index = st.chain.nextIndex := by
  obtain ⟨sig, signer, conflict, -, -, hx, -⟩ := h.vetted
  rw [hx]
  exact ⟨rfl, rfl⟩

theorem Built.shape {frame : List Sealed} (h : Built key st frame next) :
    checkFrameShape frame = .ok () ∧
      ∃ first, frame.head? = some first ∧ first.record.parents = {st.chain.prev} ∧
        first.record.payload.index = st.chain.nextIndex := by
  cases h with
  | single seals ends drops =>
    refine ⟨?_, _, rfl, seals.extends_chain⟩
    simp [checkFrameShape, ends]
  | bumped seals bump epoch =>
    refine ⟨?_, _, rfl, seals.extends_chain⟩
    simp [checkFrameShape, epoch]

theorem Built.replayFrame (hinj : P.IdsInjective) (hC : P.toCrypto.HonestVerifies)
    (ht : Trusted key g) (hlog : Replays P g log st) {frame : List Sealed}
    (h : Built key st frame next) : st.replayFrame P frame = .ok next := by
  cases h with
  | single seals ends drops =>
    simp only [State.replayFrame, bind_ok, ensure_ok]
    refine ⟨next, seals.replay hinj hC ht hlog, (), ?_, rfl⟩
    rintro ⟨hk, hdrop, -⟩
    rw [drops hk] at hdrop
    cases hdrop
  | @bumped x y mid _ seals bump epoch =>
    have hx := seals.replay hinj hC ht hlog
    obtain ⟨cert, signer, conflict, hacc, hmid⟩ := State.replay_ok.mp hx
    have hlog' := Replays.snoc.mpr ⟨st, cert, signer, conflict, hlog, hacc, hmid⟩
    simp only [State.replayFrame, bind_ok, ensure_ok]
    refine ⟨mid, hx, (), ?_, next, bump.replay hinj hC ht hlog', (), ?_, rfl⟩
    · simp [epoch]
    · simp [epoch]

/-- **A frame the server builds is one a follower accepts.** -/
theorem Built.apply (hinj : P.IdsInjective) (hC : P.toCrypto.HonestVerifies)
    (ht : Trusted key g) {frames : List (List Sealed)} {f : Follower}
    (hf : Follower.Reaches P g frames f) {frame : List Sealed} (h : Built key f.st frame next) :
    ∃ f', Follower.Reaches P g (frames ++ [frame]) f' ∧ f'.st = next := by
  have happly := Follower.apply_ok.mpr
    ⟨h.shape.2, h.shape.1, next, h.replayFrame hinj hC ht hf.replays, rfl⟩
  exact ⟨_, hf.snoc happly, rfl⟩

end Live

/-! ### Rebuilding -/

/-- A rebuild accepts the frames a follower accepted, wherever they lie in the
file. -/
theorem rebuildFrames_of_applyAll {α : Type} (after : α → State → α) {frames : List (ℕ × Frame)} :
    ∀ {f f' : Follower} {a : α}, f.applyAll P (frames.map fun x => x.2.sealed) = .ok f' →
      ∃ a', rebuildFrames P after f.st a frames = .ok (f'.st, a') := by
  induction frames with
  | nil =>
    intro f f' a h
    cases h
    exact ⟨a, rfl⟩
  | cons frame frames ih =>
    intro f f' a h
    obtain ⟨u, hu, h⟩ := Steps.run_cons.mp h
    obtain ⟨⟨first, hfirst, -⟩, hshape, next, hnext, rfl⟩ := Follower.apply_ok.mp hu
    have hne : frame.2.sealed ≠ [] := fun he => by simp [he] at hfirst
    obtain ⟨a', ha'⟩ := ih h
    refine ⟨a', ?_⟩
    simp only [rebuildFrames, bind_ok, ensure_ok, mapError_ok]
    exact ⟨(), hne, (), hshape, next, hnext, ha'⟩

theorem Follower.Reaches.rebuild {α : Type} {frames : List (ℕ × Frame)} {f : Follower}
    (h : Follower.Reaches P g (frames.map fun x => x.2.sealed) f) (after : α → State → α) (a : α) :
    ∃ a', rebuildWith P g frames after a = .ok (f.st, a') := by
  obtain ⟨f₀, hnew, hrun⟩ := h
  obtain ⟨st, hst, rfl⟩ := Follower.new_ok.mp hnew
  obtain ⟨a', ha'⟩ := rebuildFrames_of_applyAll after hrun
  exact ⟨a', by rw [rebuildWith, hst]; exact ha'⟩

/-! ### Every run of a server -/

/-- A follower given what the server published is where the server is. -/
structure Server.Mirrored (g : MerkleNode Genesis) (s : Server P) : Prop where
  trusted : Trusted s.key g
  follower : ∃ f, Follower.Reaches P g s.frames f ∧ f.st = s.st

theorem Server.Effect.mirrored (hinj : P.IdsInjective) (hC : P.toCrypto.HonestVerifies)
    {s s' : Server P} (he : Server.Effect s s') (h : s.Mirrored g) : s'.Mirrored g := by
  cases he with
  | held | broken | refused | brokenRefusal => exact ⟨h.trusted, h.follower⟩
  | published up built wrote =>
    obtain ⟨f, hf, hst⟩ := h.follower
    rw [← hst] at built
    obtain ⟨f', hf', hst'⟩ := built.apply hinj hC h.trusted hf
    refine ⟨h.trusted, f', ?_, hst'⟩
    simpa [Server.frames, Server.publish] using hf'

theorem Server.mirrored_of_empty {key : AgentKey P.toCrypto} {genesis : SignedGenesis}
    {s : Server P} (h : Server.open_ key genesis ⟨[], []⟩ ⟨[], []⟩ = .ok s)
    (htop : genesis.node.payload.serverCert.metadata.caveats = Caveats.top) :
    s.Mirrored genesis.node := by
  have ht := Trusted.of_open h htop
  obtain ⟨-, -, st, hstart, rfl⟩ := Server.open_empty.mp h
  exact ⟨ht, ⟨st, none⟩, ⟨⟨st, none⟩, Follower.new_ok.mpr ⟨st, hstart, rfl⟩, rfl⟩, rfl⟩

/-- **Live state equals replay.**  After any calls on a server started on an
empty log, with any outcomes, a follower given the published frames accepts
every one of them and ends in the live state; so does a rebuild. -/
theorem live_equals_replay (hinj : P.IdsInjective) (hC : P.toCrypto.HonestVerifies)
    {key : AgentKey P.toCrypto} {genesis : SignedGenesis} {s : Server P}
    (htop : genesis.node.payload.serverCert.metadata.caveats = Caveats.top)
    (hopen : Server.open_ key genesis ⟨[], []⟩ ⟨[], []⟩ = .ok s) (calls : List (Call × Io)) :
    (∃ f₀ f, Follower.new P genesis.node = .ok f₀ ∧
      f₀.applyAll P (s.serve calls).frames = .ok f ∧ f.st = (s.serve calls).st) ∧
    ∀ (α : Type) (after : α → State → α) (a : α) (frames : List (ℕ × Frame)),
      (frames.map fun x => x.2.sealed) = (s.serve calls).frames →
        ∃ a', rebuildWith P genesis.node frames after a = .ok ((s.serve calls).st, a') := by
  have hmirror : (s.serve calls).Mirrored genesis.node :=
    Server.serve_invariant (fun he h => he.mirrored hinj hC h)
      (Server.mirrored_of_empty hopen htop) calls
  obtain ⟨f, hf, hst⟩ := hmirror.follower
  refine ⟨?_, fun α after a frames hframes => ?_⟩
  · obtain ⟨f₀, hnew, hrun⟩ := hf
    exact ⟨f₀, f, hnew, hrun, hst⟩
  · rw [← hst]
    exact Follower.Reaches.rebuild (hframes ▸ hf) after a

set_option maxRecDepth 100000 in
/-- A run of the small flock's server, with a call that fails, and its reader. -/
theorem live_equals_replay_enrolled :
    ∃ s, Server.open_ Small.key Small.signedGenesis ⟨[], []⟩ ⟨[], []⟩ = .ok s ∧
      (s.serve Small.enrolledTwice).frames = [[Small.invited], [Small.started]] ∧
      ∃ f₀ f, Follower.new Small.P Small.genesis = .ok f₀ ∧
        f₀.applyAll Small.P [[Small.invited], [Small.started]] = .ok f ∧
        f.st = (s.serve Small.enrolledTwice).st := by
  obtain ⟨s, hopen, hframes⟩ :
      ∃ s, Server.open_ Small.key Small.signedGenesis ⟨[], []⟩ ⟨[], []⟩ = .ok s ∧
        (s.serve Small.enrolledTwice).frames = [[Small.invited], [Small.started]] := by
    decide +kernel
  obtain ⟨hfollower, -⟩ := live_equals_replay Small.ids_injective Small.tables.honestVerifies rfl
    hopen Small.enrolledTwice
  rw [hframes] at hfollower
  exact ⟨s, hopen, hframes, hfollower⟩

end Flock
