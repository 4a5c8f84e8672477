/-
The published journal.

Every committed frame is published once it is durable, together with who was
eligible after it; a reader walks the journal without the writer's lock.  A
resume token names the last record of a frame the reader has.

* `Journaled` — the journal of a server: each frame leads from one state to
  the next, and was published with the sessions eligible after it;
* `Server.serve_journaled` — so it is of every server, over every run;
* `Journaled.sorted`, `Journaled.len_le_delivered` — indexes count the events
  published, so places in the journal and indexes order alike;
* `Journaled.loss` — the first frame after which a session is no longer
  eligible carries an epoch event;
* `Journal.cursorFrom_resumes` — a token is honoured only right after its own
  record.
-/
import AgentMesh.LiveReplay
import AgentMesh.Ratchet
import AgentMesh.Segments

open Std Mesh Framing Segments

namespace Flock

variable {P : Primitives} {g : MerkleNode Genesis}

/-! ### Reading the journal -/

/-- One published frame and who was eligible after it. -/
abbrev Published := List Sealed × Finset String

def lastIndex (f : List Sealed) : ℕ := (f.getLast?.map fun s => s.record.payload.index).getD 0

def bumps (f : List Sealed) : Bool := f.any fun s => decide (s.kind = .epoch)

theorem bumps_eq_false {f : List Sealed} : bumps f = false ↔ ∀ x ∈ f, x.kind ≠ .epoch := by
  simp [bumps]

inductive Resume where
  /-- The server's history is shorter than the token's index. -/
  | behind (have_ : ℕ)
  /-- The server's record at that index is not the token's. -/
  | diverged
  /-- The token names an event inside a frame, not the end of one. -/
  | notABoundary
  deriving DecidableEq

/-- What asking for a cursor comes to.  The lookup of the frame indexes the
journal unchecked, so it may also go wrong. -/
inductive Placed where
  | next (next : ℕ)
  | refused (why : Resume)
  | panicked
  deriving DecidableEq

inductive Next where
  | frame (p : Published)
  | ended
  | waits

namespace Journal

def len (frames : List Published) : ℕ := (frames.getLast?.map fun p => lastIndex p.1).getD 0

/-- A cursor positioned after `head` (the start, with none). -/
def cursorFrom (P : Primitives) (frames : List Published) : Option Head → Placed
  | none => .next 0
  | some h =>
    if h.index > len frames then .refused (.behind (len frames))
    else
      -- the partition point: the first frame that does not end before the token
      let pos := (frames.takeWhile fun p => decide (lastIndex p.1 < h.index)).length
      match frames[pos]? with
      | none => .panicked
      | some p =>
        if lastIndex p.1 ≠ h.index then .refused .notABoundary
        else if (p.1.getLast?.map fun s => P.recordId s.record) = some (h.id P) then .next (pos + 1)
        else .refused .diverged

/-- The index of the last event a cursor at `next` delivered (or of its resume
point). -/
def delivered (frames : List Published) : ℕ → ℕ
  | 0 => 0
  | n + 1 => (frames[n]?.map fun p => lastIndex p.1).getD 0

/-- The frame at `next`, if there is one; the cursor waits for more unless the
journal is stopped. -/
def nextFrame (frames : List Published) (stopped cancelled : Bool) (next : ℕ) : Next :=
  if cancelled then .ended
  else
    match frames[next]? with
    | some p => .frame p
    | none => if stopped then .ended else .waits

theorem delivered_succ {frames : List Published} {n : ℕ} {p : Published}
    (h : frames[n]? = some p) : delivered frames (n + 1) = lastIndex p.1 := by
  rw [delivered, h]
  rfl

theorem delivered_grown {frames frames' : List Published} (h : frames <+: frames') {n : ℕ}
    (hn : n ≤ frames.length) : delivered frames' n = delivered frames n := by
  cases n with
  | zero => rfl
  | succ n =>
    have hp := List.getElem?_eq_getElem (show n < frames.length by omega)
    rw [delivered_succ hp, delivered_succ (getElem?_grown h hp)]

theorem len_snoc {frames : List Published} (p : Published) :
    len (frames ++ [p]) = lastIndex p.1 := by
  rw [len, List.getLast?_concat]
  rfl

theorem delivered_length (frames : List Published) :
    delivered frames frames.length = len frames := by
  cases hl : frames.length with
  | zero =>
    rw [List.length_eq_zero_iff.mp hl]
    rfl
  | succ m =>
    rw [delivered, len, List.getLast?_eq_getElem?, hl]
    rfl

/-- Place `start` of the journal is right after the token's record. -/
def Resumes (P : Primitives) (frames : List Published) : Option Head → ℕ → Prop
  | none, start => start = 0
  | some h, start => ∃ n p s, start = n + 1 ∧ frames[n]? = some p ∧ p.1.getLast? = some s ∧
      s.record.payload.index = h.index ∧ P.recordId s.record = h.id P

/-- **A token is honoured only right after its own record.** -/
theorem cursorFrom_resumes {frames : List Published} {head : Option Head} {start : ℕ}
    (h : cursorFrom P frames head = .next start) : Resumes P frames head start := by
  cases head with
  | none =>
    cases h
    rfl
  | some t =>
    simp only [cursorFrom] at h
    split at h
    · cases h
    · split at h
      · cases h
      · rename_i p hp
        split at h
        · cases h
        · rename_i hlast
          split at h
          · rename_i hid
            cases h
            obtain ⟨s, hs, hsid⟩ := Option.map_eq_some_iff.mp hid
            have hindex : lastIndex p.1 = s.record.payload.index := by
              rw [lastIndex, hs]
              rfl
            exact ⟨_, p, s, rfl, hp, hs, by rw [← hindex]; simpa using hlast, hsid⟩
          · cases h

theorem Resumes.le_length {frames : List Published} {head : Option Head} {start : ℕ}
    (h : Resumes P frames head start) : start ≤ frames.length := by
  cases head with
  | none =>
    rw [show start = 0 from h]
    exact Nat.zero_le _
  | some t =>
    obtain ⟨n, p, s, rfl, hp, -⟩ := h
    exact (List.getElem?_eq_some_iff.mp hp).1

theorem Resumes.grown {frames frames' : List Published} (hgrow : frames <+: frames')
    {head : Option Head} {start : ℕ} (h : Resumes P frames head start) :
    Resumes P frames' head start := by
  cases head with
  | none => exact h
  | some t =>
    obtain ⟨n, p, s, hn, hp, hs⟩ := h
    exact ⟨n, p, s, hn, getElem?_grown hgrow hp, hs⟩

end Journal

/-! ### What publishing a frame does -/

/-- A frame leads from `st` to `st'`, by replay or as the server built it. -/
structure State.Publishes (P : Primitives) (st : State) (frame : List Sealed) (st' : State) :
    Prop where
  nonempty : frame ≠ []
  later : State.Later P st st'
  grows : st.chain.nextIndex < st'.chain.nextIndex
  last : lastIndex frame + 1 = st'.chain.nextIndex
  keeps : (∀ x ∈ frame, x.kind ≠ .epoch) → st.eligible ⊆ st'.eligible

theorem lastIndex_snoc (xs : List Sealed) (x : Sealed) :
    lastIndex (xs ++ [x]) = x.record.payload.index := by
  rw [lastIndex, List.getLast?_concat]
  rfl

theorem State.replay_nextIndex {st st' : State} {x : Sealed} (h : st.replay P x = .ok st') :
    x.record.payload.index = st.chain.nextIndex ∧
      st'.chain.nextIndex = st.chain.nextIndex + 1 := by
  obtain ⟨cert, signer, conflict, hacc, rfl⟩ := State.replay_ok.mp h
  exact ⟨hacc.extend.index, rfl⟩

theorem State.replayFrame_publishes {st st' : State} {frame : List Sealed} (hne : frame ≠ [])
    (hshape : checkFrameShape frame = .ok ()) (h : st.replayFrame P frame = .ok st') :
    st.Publishes P frame st' := by
  have hrun := State.replayFrame_run h
  have hlater : ∀ {s t : State} {xs : List Sealed}, Steps.run (State.replay P) s xs = .ok t →
      State.Later P s t := by
    intro s t xs hxs
    exact Steps.run_rel (fun _ => .refl) (fun hab hbc => hab.trans hbc)
      (fun hx => .single (.event (.replayed hx))) hxs
  have hmono : ∀ {s t : State} {xs : List Sealed}, Steps.run (State.replay P) s xs = .ok t →
      s.chain.nextIndex ≤ t.chain.nextIndex := by
    intro s t xs hxs
    refine Steps.run_rel (R := fun s t => s.chain.nextIndex ≤ t.chain.nextIndex)
      (fun _ => Nat.le_refl _) (fun hab hbc => hab.trans hbc) ?_ hxs
    intro s x s' hx
    have hstep := (State.replay_nextIndex hx).2
    omega
  obtain ⟨xs, x, rfl⟩ : ∃ xs x, frame = xs ++ [x] :=
    ⟨_, _, (List.dropLast_append_getLast hne).symm⟩
  obtain ⟨u, hu, hx⟩ := Steps.run_snoc.mp hrun
  obtain ⟨hindex, hnext⟩ := State.replay_nextIndex hx
  have hle := hmono hu
  refine ⟨hne, hlater hrun, by omega, ?_, State.replayFrame_eligible h hshape⟩
  rw [lastIndex_snoc, hindex, hnext]

theorem Built.publishes {key : AgentKey P.toCrypto} {st next : State} {frame : List Sealed}
    (h : Built key st frame next) : st.Publishes P frame next := by
  have hlater := h.later
  cases h with
  | @single x _ seals ends drops =>
    have hnext := seals.nextIndex
    refine ⟨by simp, hlater, by omega, ?_, fun _ => ?_⟩
    · rw [show [x] = [] ++ [x] from rfl, lastIndex_snoc, seals.extends_chain.2, hnext]
    · obtain ⟨sig, signer, conflict, hv, -, hx, rfl⟩ := seals.vetted
      have hepoch : x.record.payload.epoch = st.chain.epochFor x.kind := by
        rw [hx]
        rfl
      rw [← hepoch] at hv
      exact hv.eligible ends drops
  | @bumped x y mid _ seals bump epoch =>
    have hmid := seals.nextIndex
    have hnext := bump.nextIndex
    refine ⟨by simp, hlater, by omega, ?_, fun hnone => ?_⟩
    · rw [show [x, y] = [x] ++ [y] from rfl, lastIndex_snoc, bump.extends_chain.2, hnext]
    · exact absurd epoch (hnone y (by simp))

/-! ### The journal of a server -/

/-- The journal of a server of `g` whose state is now `st`. -/
def Journaled (P : Primitives) (g : MerkleNode Genesis) : List Published → State → Prop :=
  Steps.Trace (fun st => startState P g = .ok st) fun st p st' =>
    st.Publishes P p.1 st' ∧ p.2 = st'.eligible

namespace Journaled

variable {frames : List Published} {st : State}

theorem split (h : Journaled P g frames st) {i : ℕ} {p : Published} (hp : frames[i]? = some p) :
    ∃ u v, Journaled P g (frames.take i) u ∧ u.Publishes P p.1 v ∧ p.2 = v.eligible := by
  rw [eq_take_cons_drop hp] at h
  obtain ⟨u, v, hu, hv⟩ := Steps.Trace.split h
  exact ⟨u, v, hu, hv⟩

theorem last_eligible {p : Published} (h : Journaled P g (frames ++ [p]) st) :
    p.2 = st.eligible := by
  generalize hl : frames ++ [p] = l at h
  cases h with
  | nil => simp at hl
  | snoc htrace hx =>
    obtain ⟨-, hp⟩ := List.append_inj' hl rfl
    cases hp
    exact hx.2

theorem eligible_eq {st' : State} (h : Journaled P g frames st) (h' : Journaled P g frames st') :
    st.eligible = st'.eligible := by
  induction frames using List.reverseRecOn with
  | nil =>
    have hstart : ∀ {s : State}, Journaled P g [] s → startState P g = .ok s := by
      intro s hs
      generalize hl : ([] : List Published) = l at hs
      cases hs with
      | nil hs => exact hs
      | snoc => simp at hl
    have heq := (hstart h).symm.trans (hstart h')
    rw [Except.ok.inj heq]
  | append_singleton frames p _ => rw [← h.last_eligible, ← h'.last_eligible]

theorem nextIndex (h : Journaled P g frames st) :
    st.chain.nextIndex = Journal.len frames + 1 := by
  cases h with
  | nil hstart =>
    obtain ⟨user, -, rfl⟩ := startState_ok.mp hstart
    rfl
  | snoc _ hx =>
    rw [Journal.len_snoc, hx.1.last]

/-- **Later frames end at larger indexes.** -/
theorem sorted (h : Journaled P g frames st) :
    frames.Pairwise (fun p q => lastIndex p.1 < lastIndex q.1) ∧
      ∀ p ∈ frames, 0 < lastIndex p.1 ∧ lastIndex p.1 ≤ Journal.len frames := by
  induction h with
  | nil => exact ⟨List.Pairwise.nil, by simp⟩
  | @snoc frames st st' p htrace hx ih =>
    have hprev := Journaled.nextIndex htrace
    have hlast := hx.1.last
    have hgrows := hx.1.grows
    rw [Journal.len_snoc]
    constructor
    · refine List.pairwise_append.mpr ⟨ih.1, List.pairwise_singleton _ _, ?_⟩
      intro q hq r hr
      cases List.mem_singleton.mp hr
      have hle := (ih.2 q hq).2
      omega
    · intro q hq
      rcases List.mem_append.mp hq with hq | hq
      · have hle := ih.2 q hq
        omega
      · cases List.mem_singleton.mp hq
        omega

theorem lastIndex_lt (h : Journaled P g frames st) {i j : ℕ} {p q : Published}
    (hp : frames[i]? = some p) (hq : frames[j]? = some q) (hij : i < j) :
    lastIndex p.1 < lastIndex q.1 := by
  obtain ⟨hi, rfl⟩ := List.getElem?_eq_some_iff.mp hp
  obtain ⟨hj, rfl⟩ := List.getElem?_eq_some_iff.mp hq
  exact List.pairwise_iff_getElem.mp h.sorted.1 i j hi hj hij

theorem len_lt (h : Journaled P g frames st) {old : List Published} (hgrow : old <+: frames)
    {i : ℕ} {p : Published} (hp : frames[i]? = some p) (hi : old.length ≤ i) :
    Journal.len old < lastIndex p.1 := by
  induction old using List.reverseRecOn with
  | nil => exact (h.sorted.2 p (List.mem_of_getElem? hp)).1
  | append_singleton old q _ =>
    rw [Journal.len_snoc]
    rw [List.length_append] at hi
    refine h.lastIndex_lt (getElem?_grown hgrow (i := old.length) ?_) hp ?_
    · simp
    · simpa using hi

/-- **A cursor has delivered everything exactly when it is at the end.** -/
theorem len_le_delivered (h : Journaled P g frames st) {n : ℕ} (hn : n ≤ frames.length) :
    Journal.len frames ≤ Journal.delivered frames n ↔ n = frames.length := by
  constructor
  · intro hle
    by_contra hne
    obtain ⟨p, hp⟩ : ∃ p, frames[n]? = some p :=
      ⟨_, List.getElem?_eq_getElem (by omega)⟩
    have hlast := (h.sorted.2 p (List.mem_of_getElem? hp)).2
    -- the frame at `n` ends after what was delivered
    have hlt : Journal.delivered frames n < lastIndex p.1 := by
      cases n with
      | zero => exact (h.sorted.2 p (List.mem_of_getElem? hp)).1
      | succ m =>
        have hm := List.getElem?_eq_getElem (show m < frames.length by omega)
        rw [Journal.delivered_succ hm]
        exact h.lastIndex_lt hm hp (Nat.lt_succ_self m)
    omega
  · rintro rfl
    exact (Journal.delivered_length frames).ge

theorem nonempty (h : Journaled P g frames st) {i : ℕ} {p : Published}
    (hp : frames[i]? = some p) : p.1 ≠ [] := by
  obtain ⟨u, v, -, hpub, -⟩ := h.split hp
  exact hpub.nonempty

end Journaled

/-- `p`, at place `k`, is the first frame published after `m` frames after
which `session` is not eligible. -/
structure FirstLoss (session : String) (m : ℕ) (frames : List Published) (k : ℕ) (p : Published) :
    Prop where
  frame : frames[k]? = some p
  after : m ≤ k
  lost : session ∉ p.2
  first : ∀ i q, m ≤ i → i < k → frames[i]? = some q → session ∈ q.2

/-- **The first frame after which a session is no longer eligible carries an
epoch event.** -/
theorem Journaled.loss {old frames : List Published} {st₀ st : State}
    (h₀ : Journaled P g old st₀) (h : Journaled P g frames st) (hgrow : old <+: frames)
    {session : String} (hsession : session ∈ st₀.eligible) {k : ℕ} {p : Published}
    (hloss : FirstLoss session old.length frames k p) : bumps p.1 = true := by
  obtain ⟨u, v, hu, hpub, hp⟩ := h.split hloss.frame
  -- the session was eligible right before the frame
  have hbefore : session ∈ u.eligible := by
    rcases Nat.eq_or_lt_of_le hloss.after with hk | hk
    · rw [← hk, ← List.prefix_iff_eq_take.mp hgrow] at hu
      rw [hu.eligible_eq h₀]
      exact hsession
    · obtain ⟨k, rfl⟩ : ∃ k', k = k' + 1 := ⟨k - 1, by omega⟩
      have hlt := (List.getElem?_eq_some_iff.mp hloss.frame).1
      have hq := List.getElem?_eq_getElem (show k < frames.length by omega)
      rw [take_succ_of_getElem? hq] at hu
      rw [← hu.last_eligible]
      exact hloss.first k _ (by omega) (Nat.lt_succ_self k) hq
  by_contra hb
  have hkeeps := hpub.keeps (bumps_eq_false.mp (by simpa using hb))
  exact hloss.lost (hp ▸ hkeeps hbefore)

/-! ### Every run of the server -/

theorem rebuildFrames_journaled {frames : List (ℕ × Frame)} :
    ∀ {st st' : State} {rest : List (List Sealed)} {pub pub' : List Published},
      rebuildFrames P publishNext st (frames.map fun f => f.2.sealed, pub) frames =
        .ok (st', rest, pub') →
      Journaled P g pub st → Journaled P g pub' st' := by
  induction frames with
  | nil =>
    intro st st' rest pub pub' h hj
    cases h
    exact hj
  | cons frame frames ih =>
    intro st st' rest pub pub' h hj
    simp only [rebuildFrames, bind_ok, ensure_ok, mapError_ok] at h
    obtain ⟨_, hne, _, hshape, next, hnext, h⟩ := h
    exact ih h (hj.snoc ⟨State.replayFrame_publishes hne hshape hnext, rfl⟩)

namespace Server

theorem open_journaled {key : AgentKey P.toCrypto} {genesis : SignedGenesis}
    {logFile refusalFile : File} {s : Server P}
    (h : Server.open_ key genesis logFile refusalFile = .ok s) :
    Journaled P genesis.node s.journal s.st := by
  obtain ⟨-, -, _, found, _, _, st, _, published, _, _, -, -, hrebuild, -, rfl⟩ := open_ok.mp h
  simp only [rebuildWith, bind_ok] at hrebuild
  obtain ⟨st₀, hstart, hrebuild⟩ := hrebuild
  exact rebuildFrames_journaled hrebuild (.nil hstart)

theorem Effect.journaled {s s' : Server P} (he : Effect s s') (h : Journaled P g s.journal s.st) :
    Journaled P g s'.journal s'.st := by
  cases he with
  | held | broken | refused | brokenRefusal => exact h
  | published up built wrote => exact h.snoc ⟨built.publishes, rfl⟩

/-- **Frames are published with who is eligible after them**, over every run. -/
theorem serve_journaled {s : Server P} (h : Journaled P g s.journal s.st)
    (calls : List (Call × Io)) : Journaled P g (s.serve calls).journal (s.serve calls).st :=
  serve_invariant (fun he h => he.journaled h) h calls

theorem Does.journal_grows {s s' : Server P} (h : s.Does s') : s.journal <+: s'.journal := by
  refine h.invariant (fun t => s.journal <+: t.journal) ?_ (List.prefix_refl _)
  intro t t' he hgrow
  cases he with
  | held | broken | refused | brokenRefusal => exact hgrow
  | published up built wrote => exact hgrow.trans (List.prefix_append _ _)

theorem serve_does (s : Server P) (calls : List (Call × Io)) : s.Does (s.serve calls) :=
  serve_invariant (fun he h => h.tail he) .refl calls

end Server

end Flock
