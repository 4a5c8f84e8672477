/-
Opening a server on what a crash left.

`Server.Sound` says what ties a server to its two files: the log holds the
published frames and at most part of one more that was built on the live
state, the refusal file the chained refusals and at most part of the next.
Every effect keeps it, and it is all that opening needs.

* `RefusalChain.verifies` — the chain check of the opening server accepts the
  refusals it signed;
* `Server.Effect.sound` — every effect keeps the server sound;
* `Server.Sound.reopens` — opening on what is left succeeds, with the published
  frames, or those and the one that was being appended.
-/
import AgentMesh.LiveReplay

open Std Mesh Framing

namespace Flock

variable {P : Primitives} {g : MerkleNode Genesis}

/-! ### The refusal chain -/

/-- Refusals the server signed one after another, with the id of the last and
the admissions it counted. -/
inductive RefusalChain (key : AgentKey P.toCrypto) (flock : ContentId) :
    List RefusalEntry → ContentId → ℕ → Prop where
  | nil : RefusalChain key flock [] flock 0
  | snoc {entries : List RefusalEntry} {prev : ContentId} {last : ℕ}
      (chain : RefusalChain key flock entries prev last) (r : RefusalRecord)
      (counts : last ≤ r.admitted) :
      RefusalChain key flock (entries ++ [.sign key prev r])
        (P.refusalId (RefusalEntry.sign key prev r).record) r.admitted

theorem RefusalEntry.verify_sign {key : AgentKey P.toCrypto} (hC : P.toCrypto.HonestVerifies)
    (ht : Trusted key g) {prev : ContentId} {r : RefusalRecord} {last total : ℕ}
    (hlast : last ≤ r.admitted) (htotal : r.admitted ≤ total) (epoch : ℕ) :
    (RefusalEntry.sign key prev r).verify P prev key.cert.agentPubkey epoch last total =
      .ok (P.refusalId (RefusalEntry.sign key prev r).record) := by
  simp only [verify, bind_ok, ensure_ok, mapError_ok, pure, Except.pure]
  exact ⟨(), rfl, (), Assertion.verify_sign hC (ht.verifies epoch) ht.root, (), rfl, (),
    ⟨hlast, htotal⟩, trivial⟩

/-- **The chain check accepts the refusals the server signed**, as long as they
count no more admissions than there are. -/
theorem RefusalChain.verifies {key : AgentKey P.toCrypto} (hC : P.toCrypto.HonestVerifies)
    (ht : Trusted key g) {flock prev : ContentId} {entries : List RefusalEntry} {last total : ℕ}
    (h : RefusalChain key flock entries prev last) (htotal : last ≤ total) (epoch : ℕ) :
    ∀ {found : List (ℕ × RefusalEntry)}, found.map (·.2) = entries →
      Steps.run (RefusalEntry.verifyNext P key.cert.agentPubkey epoch total) (flock, 0) found =
        .ok (prev, last) := by
  induction h with
  | nil =>
    intro found hfound
    rw [List.map_eq_nil_iff.mp hfound]
    rfl
  | @snoc entries prev last chain r counts ih =>
    intro found hfound
    obtain ⟨before, rest, rfl, hbefore, hrest⟩ := List.map_eq_append_iff.mp hfound
    obtain ⟨⟨offset, e⟩, rfl, rfl⟩ := List.map_eq_singleton_iff.mp hrest
    refine Steps.run_snoc.mpr ⟨(prev, last), ih (counts.trans htotal) hbefore, ?_⟩
    simp only [RefusalEntry.verifyNext, bind_ok, mapError_ok]
    exact ⟨_, RefusalEntry.verify_sign hC ht counts htotal epoch, rfl⟩

/-! ### Sound servers -/

theorem Built.nextIndex_le {key : AgentKey P.toCrypto} {st next : State} {frame : List Sealed}
    (h : Built key st frame next) : st.chain.nextIndex ≤ next.chain.nextIndex := by
  cases h with
  | single seals => exact seals.nextIndex ▸ Nat.le_succ _
  | bumped seals bump =>
    rw [bump.nextIndex, seals.nextIndex]
    omega

/-- The frame of a list of sealed events, as the log stores it. -/
def framed (frames : List (List Sealed)) : List Frame := frames.map Frame.mk

theorem framed_snoc (frames : List (List Sealed)) (frame : List Sealed) :
    framed (frames ++ [frame]) = framed frames ++ [⟨frame⟩] := by
  simp [framed]

namespace Server

/-- What ties a server to its files. -/
structure Sound (genesis : SignedGenesis) (s : Server P) : Prop where
  genuine : verifySignedGenesis P genesis = .ok ()
  mirrored : s.Mirrored genesis.node
  chained : ∃ last, RefusalChain s.key (P.genesisId genesis.node) s.refusals s.refusalPrev last ∧
    last ≤ s.admitted
  fits : (∀ v ∈ framed s.frames, Fits P.frameCodec v) ∧ ∀ e ∈ s.refusals, Fits P.refusalCodec e
  /-- The published frames, and at most part of one built on the live state. -/
  log : Torn P.frameCodec (fun v => ∃ next, Built s.key s.st v.sealed next) (framed s.frames)
    s.log.file
  /-- The chained refusals, and at most part of the next. -/
  refusalLog : Torn P.refusalCodec (fun e => ∃ node why, e = s.refusal node why) s.refusals
    s.refusalLog.file
  /-- Until an append fails, both files hold exactly that. -/
  clean : s.poisoned = false →
    s.log.Clean P.frameCodec (framed s.frames) ∧ s.refusalLog.Clean P.refusalCodec s.refusals

variable {genesis : SignedGenesis} {s s' : Server P}

/-- **Every effect keeps the server sound.** -/
theorem Effect.sound (hinj : P.IdsInjective) (hC : P.toCrypto.HonestVerifies) (he : Effect s s')
    (h : s.Sound genesis) : s'.Sound genesis := by
  have hmirrored := he.mirrored hinj hC h.mirrored
  cases he with
  | held challenges =>
    exact ⟨h.genuine, hmirrored, h.chained, h.fits, h.log, h.refusalLog, h.clean⟩
  | @published sealed next fault log up built wrote fits =>
    obtain ⟨hclean, hrefusals⟩ := h.clean up
    have hnext : log.Clean P.frameCodec
        (framed (publish { s with log := log } sealed next).frames) := by
      have hl := Log.append_done hclean wrote
      rw [frames, publish, List.map_append]
      exact framed_snoc .. ▸ hl
    obtain ⟨last, hchain, hlast⟩ := h.chained
    refine ⟨h.genuine, hmirrored, ⟨last, hchain, hlast.trans ?_⟩, ⟨hnext.fits, h.fits.2⟩,
      .clean hnext.file, .clean hrefusals.file, fun _ => ⟨hnext, hrefusals⟩⟩
    exact Nat.sub_le_sub_right built.nextIndex_le 1
  | @broken sealed next fault log e up built wrote fits =>
    obtain ⟨hclean, hrefusals⟩ := h.clean up
    have htorn := Log.append_failed hclean wrote
    refine ⟨h.genuine, hmirrored, h.chained, h.fits, htorn.imp ?_, h.refusalLog,
      fun hup => by cases hup⟩
    rintro v rfl
    exact ⟨next, built⟩
  | @refused node why fault log up wrote =>
    obtain ⟨hclean, hrefusals⟩ := h.clean up
    have hnext := Log.append_done hrefusals wrote
    obtain ⟨last, hchain, hlast⟩ := h.chained
    exact ⟨h.genuine, hmirrored, ⟨s.admitted, .snoc hchain _ hlast, le_rfl⟩,
      ⟨h.fits.1, hnext.fits⟩, .clean hclean.file, .clean hnext.file, fun _ => ⟨hclean, hnext⟩⟩
  | @brokenRefusal node why fault log e up wrote =>
    obtain ⟨hclean, hrefusals⟩ := h.clean up
    have htorn := Log.append_failed hrefusals wrote
    refine ⟨h.genuine, hmirrored, h.chained, h.fits, h.log, htorn.imp ?_, fun hup => by cases hup⟩
    rintro e rfl
    exact ⟨node, why, rfl⟩

end Server

/-! ### Opening -/

/-- Opening succeeds on files whose whole frames a follower accepts and whose
refusals are the server's own. -/
theorem Server.open_of {key : AgentKey P.toCrypto} {genesis : SignedGenesis}
    (hC : P.toCrypto.HonestVerifies) (ht : Trusted key genesis.node)
    (hgen : verifySignedGenesis P genesis = .ok ()) {lf rf : File} {log refusalLog : Log}
    {found : List (ℕ × Frame)} {foundRefusals : List (ℕ × RefusalEntry)}
    (hlog : Log.open_ P.frameCodec lf = .ok (log, found))
    (hrefusals : Log.open_ P.refusalCodec rf = .ok (refusalLog, foundRefusals))
    {frames : List (List Sealed)} (hfound : found.map (·.2) = framed frames) {f : Follower}
    (hf : Follower.Reaches P genesis.node frames f) {prev : ContentId} {last : ℕ}
    (hchain : RefusalChain key (P.genesisId genesis.node) (foundRefusals.map (·.2)) prev last)
    (hlast : last ≤ f.st.chain.nextIndex - 1) :
    ∃ s, Server.open_ key genesis lf rf = .ok s ∧ s.key = key ∧ s.frames = frames ∧
      s.st = f.st ∧ s.refusals = foundRefusals.map (·.2) ∧ s.refusalPrev = prev ∧
      s.log = log.commitRecovery ∧ s.refusalLog = refusalLog.commitRecovery ∧
      s.poisoned = false := by
  have hsealed : (found.map fun x => x.2.sealed) = frames := by
    have h := congrArg (List.map Frame.sealed) hfound
    rw [framed, List.map_map, List.map_map] at h
    exact h.trans (List.map_id _)
  obtain ⟨⟨rest, published⟩, hrebuild⟩ :=
    Follower.Reaches.rebuild (hsealed ▸ hf) publishNext (found.map fun x => x.2.sealed, [])
  have hpublished : published.map (·.1) = frames := by
    have h := hrebuild
    simp only [rebuildWith, bind_ok] at h
    obtain ⟨st₀, -, h⟩ := h
    rw [rebuildFrames_published h, hsealed]
    rfl
  have hverify := hchain.verifies hC ht hlast f.st.chain.epoch rfl
  rw [← hf.replays.chain_fixed.2.2.2, ht.cert] at hverify
  exact ⟨_, Server.open_ok.mpr ⟨hgen, ht.cert, log, found, refusalLog, foundRefusals, f.st, rest,
    published, prev, last, hlog, hrefusals, hrebuild, hverify, rfl⟩, rfl, hpublished, rfl, rfl, rfl,
    rfl, rfl, rfl⟩

/-- What a crash can leave of the frames: all that was published, or that and
the frame that was being appended. -/
def Server.Keeps (s : Server P) (logFile : File) (s' : Server P) : Prop :=
  (s'.frames = s.frames ∧ s'.st = s.st) ∨
    ∃ frame, s'.frames = s.frames ++ [frame] ∧ Built s.key s.st frame s'.st ∧
      logFile.contents = bytesAll P.frameCodec (framed s'.frames)

/-- **Opening on what a crash left succeeds**, with the published frames, or
those and the one that was being appended, whole. -/
theorem Server.Sound.reopens (hinj : P.IdsInjective) (hC : P.toCrypto.HonestVerifies)
    (hframe : P.frameCodec.Lawful) (hrefusal : P.refusalCodec.Lawful) {genesis : SignedGenesis}
    {s : Server P} (h : s.Sound genesis) {lf rf : File} (hlf : s.log.file.Lost lf)
    (hrf : s.refusalLog.file.Lost rf) :
    ∃ s', Server.open_ s.key genesis lf rf = .ok s' ∧ s'.Sound genesis ∧ s'.key = s.key ∧
      s.Keeps lf s' := by
  have ht := h.mirrored.trusted
  obtain ⟨f₀, hf₀, hst₀⟩ := h.mirrored.follower
  obtain ⟨last₀, hchain₀, hlast₀⟩ := h.chained
  obtain ⟨vs, log, found, hlog, hvs, hclean, hcase⟩ :=
    Log.recovers hframe (h.log.lost hlf) h.fits.1
  obtain ⟨es, refusalLog, foundRefusals, hrlog, hes, hrclean, hrcase⟩ :=
    Log.recovers hrefusal (h.refusalLog.lost hrf) h.fits.2
  -- the frames found are ones a follower accepts
  obtain ⟨frames, f, hframes, hf, hindex, hkeeps⟩ : ∃ frames f, vs = framed frames ∧
      Follower.Reaches P genesis.node frames f ∧ s.admitted ≤ f.st.chain.nextIndex - 1 ∧
      ((frames = s.frames ∧ f.st = s.st) ∨ ∃ frame, frames = s.frames ++ [frame] ∧
        Built s.key s.st frame f.st ∧ lf.contents = bytesAll P.frameCodec (framed frames)) := by
    rcases hcase with rfl | ⟨v, ⟨next, hbuilt⟩, rfl, hcontents⟩
    · exact ⟨s.frames, f₀, rfl, hf₀, by rw [hst₀, Server.admitted], .inl ⟨rfl, hst₀⟩⟩
    · obtain ⟨f, hf, hst⟩ := Built.apply hinj hC ht hf₀ (hst₀.symm ▸ hbuilt)
      refine ⟨s.frames ++ [v.sealed], f, (framed_snoc ..).symm, hf, ?_,
        .inr ⟨v.sealed, rfl, ?_, ?_⟩⟩
      · rw [hst]
        exact Nat.sub_le_sub_right hbuilt.nextIndex_le 1
      · rw [hst]
        exact hbuilt
      · rw [framed_snoc]
        exact hcontents
  -- the refusals found are the server's own
  obtain ⟨prev, last, hchain, hlast⟩ : ∃ prev last,
      RefusalChain s.key (P.genesisId genesis.node) es prev last ∧ last ≤ s.admitted := by
    rcases hrcase with rfl | ⟨e, ⟨node, why, rfl⟩, rfl, -⟩
    · exact ⟨_, last₀, hchain₀, hlast₀⟩
    · exact ⟨_, _, .snoc hchain₀ _ hlast₀, le_rfl⟩
  subst hes
  obtain ⟨s', hopen, hkey, hframes', hst', hrefusals', hprev', hlog', hrlog', hup'⟩ :=
    Server.open_of hC ht h.genuine hlog hrlog (hvs.trans hframes) hf hchain (hlast.trans hindex)
  rw [← hlog', hframes, ← hframes'] at hclean
  rw [← hrlog', ← hrefusals'] at hrclean
  refine ⟨s', hopen, ?_, hkey, ?_⟩
  · refine ⟨h.genuine, ⟨hkey.symm ▸ ht, f, hframes'.symm ▸ hf, hst'.symm⟩, ⟨last, ?_, ?_⟩,
      ⟨hclean.fits, hrclean.fits⟩, .clean hclean.file, .clean hrclean.file,
      fun _ => ⟨hclean, hrclean⟩⟩
    · rw [hkey, hrefusals', hprev']
      exact hchain
    · rw [Server.admitted, hst']
      exact hlast.trans hindex
  · rw [Server.Keeps, hframes', hst']
    exact hkeeps

end Flock
