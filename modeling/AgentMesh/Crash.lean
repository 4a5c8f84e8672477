/-
Crash atomicity and durability.

A machine is a running server or the two files the last crash left.  It moves
by calls, whose appends may die at any byte, by crashes, which keep an
arbitrary first part of what was not synced, and by opening the files again.

* `World.Holds` — what every such run keeps: whatever was published is in the
  log, and the files are those of a sound server;
* `Follower.Reaches.bumped` — an entry that takes authority away is followed by
  its epoch event in the same frame;
* `crash_atomic` — the guarantees of the server over every run.
-/
import AgentMesh.Recovery

open Std Mesh Framing

namespace Flock

variable {P : Primitives} {g : MerkleNode Genesis}

/-! ### Machines -/

/-- A running server, or the two files the last crash left. -/
inductive World (P : Primitives) where
  | up (s : Server P)
  | down (log refusals : File)

namespace World

inductive Step (key : AgentKey P.toCrypto) (genesis : SignedGenesis) :
    World P → World P → Prop where
  /-- A call; its appends die where `io` says. -/
  | call (s : Server P) (c : Call) (io : Io) : Step key genesis (.up s) (.up (s.call c io).1)
  /-- The machine stops; bytes that were not synced may be lost. -/
  | crash {s : Server P} {lf rf : File} (log : s.log.file.Lost lf)
      (refusals : s.refusalLog.file.Lost rf) : Step key genesis (.up s) (.down lf rf)
  /-- It stops again before the server is opened. -/
  | again {lf rf lf' rf' : File} (log : lf.Lost lf') (refusals : rf.Lost rf') :
      Step key genesis (.down lf rf) (.down lf' rf')
  | reopen {lf rf : File} {s : Server P} (h : Server.open_ key genesis lf rf = .ok s) :
      Step key genesis (.down lf rf) (.up s)

def Run (key : AgentKey P.toCrypto) (genesis : SignedGenesis) : World P → World P → Prop :=
  Relation.ReflTransGen (Step key genesis)

theorem Run.serve {key : AgentKey P.toCrypto} {genesis : SignedGenesis} (s : Server P)
    (calls : List (Call × Io)) : Run key genesis (.up s) (.up (s.serve calls)) := by
  induction calls generalizing s with
  | nil => exact .refl
  | cons c calls ih => exact .head (.call s c.1 c.2) (ih _)

/-- `s` is sound, runs under `key`, and kept everything published. -/
structure Keeper (key : AgentKey P.toCrypto) (genesis : SignedGenesis)
    (published : List (List Sealed)) (s : Server P) : Prop where
  sound : s.Sound genesis
  key : s.key = key
  kept : ∃ more, s.frames = published ++ more

/-- The machine runs a keeper of what was published, or has the files a crash
left of one. -/
def Holds (key : AgentKey P.toCrypto) (genesis : SignedGenesis)
    (published : List (List Sealed)) : World P → Prop
  | .up s => Keeper key genesis published s
  | .down lf rf => ∃ s : Server P, Keeper key genesis published s ∧ s.log.file.Lost lf ∧
      s.refusalLog.file.Lost rf

end World

/-! ### What a run keeps -/

section Keeping

variable {key : AgentKey P.toCrypto} {genesis : SignedGenesis} {published : List (List Sealed)}
  {s s' : Server P}

theorem World.Keeper.effect (hinj : P.IdsInjective) (hC : P.toCrypto.HonestVerifies)
    (he : Server.Effect s s') (h : World.Keeper key genesis published s) :
    World.Keeper key genesis published s' := by
  refine ⟨he.sound hinj hC h.sound, ?_, ?_⟩
  · cases he <;> exact h.key
  · obtain ⟨more, hmore⟩ := h.kept
    cases he with
    | @published sealed next fault log up built wrote fits =>
      refine ⟨more ++ [sealed], ?_⟩
      rw [← List.append_assoc, ← hmore]
      simp [Server.frames, Server.publish]
    | held | broken | refused | brokenRefusal => exact ⟨more, hmore⟩

theorem World.Keeper.reopens (hinj : P.IdsInjective) (hC : P.toCrypto.HonestVerifies)
    (hframe : P.frameCodec.Lawful) (hrefusal : P.refusalCodec.Lawful)
    (h : World.Keeper key genesis published s) {lf rf : File} (hlf : s.log.file.Lost lf)
    (hrf : s.refusalLog.file.Lost rf) :
    ∃ s', Server.open_ key genesis lf rf = .ok s' ∧ World.Keeper key genesis published s' ∧
      s.Keeps lf s' := by
  obtain ⟨s', hopen, hsound, hkey, hkeeps⟩ :=
    h.sound.reopens hinj hC hframe hrefusal hlf hrf
  obtain ⟨more, hmore⟩ := h.kept
  rw [h.key] at hopen hkey
  refine ⟨s', hopen, ⟨hsound, hkey, ?_⟩, hkeeps⟩
  rcases hkeeps with ⟨hframes, -⟩ | ⟨frame, hframes, -⟩
  · exact ⟨more, hframes.trans hmore⟩
  · exact ⟨more ++ [frame], by rw [hframes, hmore, List.append_assoc]⟩

theorem World.Step.holds (hinj : P.IdsInjective) (hC : P.toCrypto.HonestVerifies)
    (hframe : P.frameCodec.Lawful) (hrefusal : P.refusalCodec.Lawful) {w w' : World P}
    (hstep : World.Step key genesis w w') (h : World.Holds key genesis published w) :
    World.Holds key genesis published w' := by
  cases hstep with
  | call s c io =>
    exact (s.call_outcome c io).does.invariant _ (fun he h => h.effect hinj hC he) h
  | @crash s lf rf log refusals => exact ⟨s, h, log, refusals⟩
  | again log refusals =>
    obtain ⟨s, hs, hl, hr⟩ := h
    exact ⟨s, hs, hl.trans log, hr.trans refusals⟩
  | @reopen lf rf s hopen =>
    obtain ⟨s₀, hs, hl, hr⟩ := h
    obtain ⟨s', hopen', hs', -⟩ := hs.reopens hinj hC hframe hrefusal hl hr
    rw [hopen] at hopen'
    cases hopen'
    exact hs'

/-- **What was published stays, over every run.** -/
theorem World.Run.holds (hinj : P.IdsInjective) (hC : P.toCrypto.HonestVerifies)
    (hframe : P.frameCodec.Lawful) (hrefusal : P.refusalCodec.Lawful) {w w' : World P}
    (hrun : World.Run key genesis w w') (h : World.Holds key genesis published w) :
    World.Holds key genesis published w' := by
  induction hrun with
  | refl => exact h
  | tail _ hstep ih => exact hstep.holds hinj hC hframe hrefusal ih

theorem Server.sound_of_empty (hopen : Server.open_ key genesis ⟨[], []⟩ ⟨[], []⟩ = .ok s)
    (htop : genesis.node.payload.serverCert.metadata.caveats = Caveats.top) :
    s.Sound genesis ∧ s.key = key ∧ s.frames = [] := by
  have hmirrored := Server.mirrored_of_empty hopen htop
  obtain ⟨hgen, -, st, hstart, rfl⟩ := Server.open_empty.mp hopen
  obtain ⟨user, -, rfl⟩ := startState_ok.mp hstart
  have hclean : ∀ {α : Type} {c : Codec α}, (⟨⟨[], []⟩, 0, none⟩ : Log).Clean c [] :=
    fun {_ _} => ⟨rfl, rfl, by simp⟩
  exact ⟨⟨hgen, hmirrored, ⟨0, .nil, Nat.zero_le _⟩, ⟨hclean.fits, hclean.fits⟩, .clean rfl,
    .clean rfl, fun _ => ⟨hclean, hclean⟩⟩, rfl, rfl⟩

theorem World.Run.keeper (hinj : P.IdsInjective) (hC : P.toCrypto.HonestVerifies)
    (hframe : P.frameCodec.Lawful) (hrefusal : P.refusalCodec.Lawful) {s₀ : Server P}
    (htop : genesis.node.payload.serverCert.metadata.caveats = Caveats.top)
    (hopen : Server.open_ key genesis ⟨[], []⟩ ⟨[], []⟩ = .ok s₀) {w : World P}
    (hrun : World.Run key genesis (.up s₀) w) : World.Holds key genesis [] w := by
  obtain ⟨hsound₀, hkey₀, -⟩ := Server.sound_of_empty hopen htop
  have hstart : World.Holds key genesis [] (.up s₀) := ⟨hsound₀, hkey₀, _, (List.nil_append _).symm⟩
  exact hrun.holds hinj hC hframe hrefusal hstart

end Keeping

/-! ### Entries that take authority away -/

/-- Entry `x`, after `log`, takes authority away: it ends a session, hands one
off, or is a roster that drops a member. -/
def Shrinks (P : Primitives) (g : MerkleNode Genesis) (log : List Sealed) (x : Sealed) : Prop :=
  x.kind = .sessionEnd ∨ x.kind = .handoff ∨
    (x.kind = .roster ∧ ∃ u v, Replays P g log u ∧ Replays P g (log ++ [x]) v ∧
      dropsMember u.board.members v.board.members = true)

theorem checkFrameShape_split {p q : List Sealed} {x : Sealed}
    (h : checkFrameShape (p ++ x :: q) = .ok ()) (hx : x.kind = .sessionEnd ∨ x.kind = .handoff) :
    q.head?.map Sealed.kind = some .epoch := by
  induction p with
  | nil =>
    simp only [List.nil_append, checkFrameShape, bind_ok, ensure_ok] at h
    obtain ⟨_, hshape, -⟩ := h
    by_contra hne
    exact hshape ⟨hx, hne⟩
  | cons y p ih =>
    simp only [List.cons_append, checkFrameShape, bind_ok] at h
    obtain ⟨_, -, h⟩ := h
    exact ih h

theorem State.replayFrame_split {p q : List Sealed} {x : Sealed} {st' : State} :
    ∀ {st : State}, st.replayFrame P (p ++ x :: q) = .ok st' →
      ∃ u v, Steps.run (State.replay P) st p = .ok u ∧ u.replay P x = .ok v ∧
        (x.kind = .roster → dropsMember u.board.members v.board.members = true →
          q.head?.map Sealed.kind = some .epoch) := by
  induction p with
  | nil =>
    intro st h
    simp only [List.nil_append, State.replayFrame, bind_ok, ensure_ok] at h
    obtain ⟨v, hv, _, hdrop, -⟩ := h
    refine ⟨st, v, rfl, hv, fun hk hd => ?_⟩
    by_contra hne
    exact hdrop ⟨hk, hd, hne⟩
  | cons y p ih =>
    intro st h
    simp only [List.cons_append, State.replayFrame, bind_ok] at h
    obtain ⟨next, hy, _, -, h⟩ := h
    obtain ⟨u, v, hu, hv, hdrop⟩ := ih h
    exact ⟨u, v, Steps.run_cons.mpr ⟨next, hy, hu⟩, hv, hdrop⟩

theorem Follower.Reaches.split {frames more : List (List Sealed)} {frame : List Sealed}
    {f : Follower} (h : Follower.Reaches P g (frames ++ frame :: more) f) :
    ∃ f₁ f₂, Follower.Reaches P g frames f₁ ∧ f₁.apply P frame = .ok f₂ := by
  obtain ⟨f₀, hnew, hrun⟩ := h
  obtain ⟨f₁, f₂, h₁, h₂, -⟩ := Steps.run_split hrun
  exact ⟨f₁, f₂, ⟨f₀, hnew, h₁⟩, h₂⟩

/-- **An accepted entry that takes authority away is followed at once by an
epoch event in its frame.** -/
theorem Follower.Reaches.bumped {frames more : List (List Sealed)} {p q : List Sealed} {x : Sealed}
    {f : Follower} (h : Follower.Reaches P g (frames ++ (p ++ x :: q) :: more) f)
    (hx : Shrinks P g (frames.flatten ++ p) x) : q.head?.map Sealed.kind = some .epoch := by
  obtain ⟨f₁, f₂, hf₁, happly⟩ := h.split
  obtain ⟨-, hshape, next, hnext, -⟩ := Follower.apply_ok.mp happly
  rcases hx with hk | hk | ⟨hk, u, v, hu, hv, hdrop⟩
  · exact checkFrameShape_split hshape (.inl hk)
  · exact checkFrameShape_split hshape (.inr hk)
  · obtain ⟨u', v', hu', hv', hbump⟩ := State.replayFrame_split hnext
    obtain ⟨st₀, hst₀, hrun⟩ := hf₁.replays
    have hu'' : Replays P g (frames.flatten ++ p) u' :=
      ⟨st₀, hst₀, Steps.run_append.mpr ⟨f₁.st, hrun, hu'⟩⟩
    obtain ⟨w, cert, signer, conflict, hw, hacc, rfl⟩ := Replays.snoc.mp hv
    cases hw.unique hu
    cases hu.unique hu''
    rw [State.replay_ok.mpr ⟨cert, signer, conflict, hacc, rfl⟩] at hv'
    cases hv'
    exact hbump hk hdrop

/-! ### The guarantee -/

/-- **Crash atomicity and durability.**  Over every run from an empty log, with
any calls, any crashes in the middle of appends and any number of openings:

* the server opens on whatever a crash left;
* opened on what is left of a running server, it has that server's published
  frames and state, or those and the one frame that was being appended, whole;
* the state is the one its frames lead to, and a frame once published is in the
  log of every later incarnation;
* a call that returned a result left the log as it was, or durable with exactly
  the published frames;
* an entry that takes authority away is never in the log without its epoch
  event. -/
theorem crash_atomic (hinj : P.IdsInjective) (hC : P.toCrypto.HonestVerifies)
    (hframe : P.frameCodec.Lawful) (hrefusal : P.refusalCodec.Lawful)
    {key : AgentKey P.toCrypto} {genesis : SignedGenesis} {s₀ : Server P}
    (htop : genesis.node.payload.serverCert.metadata.caveats = Caveats.top)
    (hopen : Server.open_ key genesis ⟨[], []⟩ ⟨[], []⟩ = .ok s₀) :
    (∀ lf rf, World.Run key genesis (.up s₀) (.down lf rf) →
      ∃ s, Server.open_ key genesis lf rf = .ok s) ∧
    ∀ s, World.Run key genesis (.up s₀) (.up s) →
      (∀ lf rf, s.log.file.Lost lf → s.refusalLog.file.Lost rf →
        ∃ s', Server.open_ key genesis lf rf = .ok s' ∧ s.Keeps lf s') ∧
      (∃ f, Follower.Reaches P genesis.node s.frames f ∧ f.st = s.st) ∧
      (∀ s', World.Run key genesis (.up s) (.up s') → ∃ more, s'.frames = s.frames ++ more) ∧
      (∀ c io r, (s.call c io).2 = .ok r → (s.call c io).1.log = s.log ∨
        (s.call c io).1.log.file =
          ⟨bytesAll P.frameCodec (framed (s.call c io).1.frames), []⟩) ∧
      ∀ before p x q after, s.frames = before ++ (p ++ x :: q) :: after →
        Shrinks P genesis.node (before.flatten ++ p) x →
          q.head?.map Sealed.kind = some .epoch := by
  refine ⟨fun lf rf hrun => ?_, fun s hrun => ?_⟩
  · obtain ⟨s, hs, hl, hr⟩ := hrun.keeper hinj hC hframe hrefusal htop hopen
    obtain ⟨s', hopen', -, -⟩ := hs.reopens hinj hC hframe hrefusal hl hr
    exact ⟨s', hopen'⟩
  · have hs : World.Keeper key genesis [] s := hrun.keeper hinj hC hframe hrefusal htop hopen
    obtain ⟨f, hf, hst⟩ := hs.sound.mirrored.follower
    refine ⟨fun lf rf hl hr => ?_, ⟨f, hf, hst⟩, fun s' hrun' => ?_, fun c io r hr => ?_, ?_⟩
    · obtain ⟨s', hopen', -, hkeeps⟩ := hs.reopens hinj hC hframe hrefusal hl hr
      exact ⟨s', hopen', hkeeps⟩
    · have hself : World.Holds key genesis s.frames (.up s) :=
        ⟨hs.sound, hs.key, [], (List.append_nil _).symm⟩
      have hs' : World.Keeper key genesis s.frames s' :=
        hrun'.holds hinj hC hframe hrefusal hself
      exact hs'.kept
    · have houtcome := s.call_outcome c io
      have hsound' := houtcome.does.invariant _ (fun he h => he.sound hinj hC h) hs.sound
      have hup := houtcome.unbroken r hr
      cases hp : s.poisoned with
      | true => exact .inl (houtcome.does.log_of_poisoned hp)
      | false => exact .inr (hsound'.clean (hup.trans hp)).1.file
    · intro before p x q after hframes hx
      rw [hframes] at hf
      exact hf.bumped hx

set_option maxRecDepth 100000 in
/-- The small flock's server dies five bytes into an append; what it left opens. -/
theorem crash_atomic_torn :
    ∃ s, World.Run Small.key Small.signedGenesis (.down ⟨[], []⟩ ⟨[], []⟩) (.up s) ∧
      s.frames = [[Small.invited]] ∧ s.log.file.pending.length = 5 ∧
      ∃ s', Server.open_ Small.key Small.signedGenesis s.log.file s.refusalLog.file = .ok s' ∧
        s.Keeps s.log.file s' := by
  obtain ⟨s₀, hopen, hframes, htorn⟩ :
      ∃ s, Server.open_ Small.key Small.signedGenesis ⟨[], []⟩ ⟨[], []⟩ = .ok s ∧
        (s.serve Small.enrolledTorn).frames = [[Small.invited]] ∧
        (s.serve Small.enrolledTorn).log.file.pending.length = 5 := by
    decide +kernel
  obtain ⟨-, hup⟩ := crash_atomic Small.ids_injective Small.tables.honestVerifies
    Small.tables.frameLawful Small.tables.refusalLawful rfl hopen
  have hrun : World.Run Small.key Small.signedGenesis (.up s₀)
      (.up (s₀.serve Small.enrolledTorn)) :=
    .serve s₀ _
  exact ⟨_, .head (.reopen hopen) hrun, hframes, htorn, (hup _ hrun).1 _ _ (.refl _) (.refl _)⟩

end Flock
