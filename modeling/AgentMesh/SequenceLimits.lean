/-
The sequence tracker at the end of its numbers.

`check_and_advance` answers a rejected call with `last + 1`, which is no `u64`
once a peer's mark is the largest one.  A build with checked additions panics
there, with the lock held, and so poisons the lock for every peer; one with
wrapping additions answers 0.  Here the tracker is with its lock and its
numbers as the source has them, in both builds.

* `SharedTracker.checkAndAdvance_takes` — everything one call can do;
* `SharedTracker.tracker_run` — as long as nothing panicked, the map follows the
  library's tracker;
* `sequences_answered_iff` — every call is answered as it should be exactly if
  no peer calls again after it has sent the largest sequence;
* `largest_sequence_overflows` — one that does silences the tracker for all, or
  is told to expect 0;
* `inbox_sequence_follows` — the tracker of an inbox is this one, check by check
  and in either build.
-/
import AgentMesh.Sending

open Mesh

namespace Bus

def Build.addOne : Build → UInt64 → Except Panic UInt64
  | .checked, n => if n.toNat + 1 < 2 ^ 64 then .ok (n + 1) else .error .overflow
  | .wrapping, n => .ok (n + 1)

def maxSequence : UInt64 := 0xffffffffffffffff

/-- A sequence tracker with its lock: a panic while it is held poisons it. -/
structure SharedTracker where
  inner : Fingerprint → Option UInt64
  poisoned : Bool

/-- How a call of `check_and_advance` ends. -/
abbrev Answer := Except Panic (Except (UInt64 × UInt64) Unit)

namespace SharedTracker

def new : SharedTracker := ⟨fun _ => none, false⟩

def last (t : SharedTracker) (peer : Fingerprint) : UInt64 := (t.inner peer).getD 0

variable (build : Build)

/-- Accept and advance iff `seq` is above the peer's mark. -/
def checkAndAdvance (t : SharedTracker) (peer : Fingerprint) (seq : UInt64) :
    SharedTracker × Answer :=
  if t.poisoned then (t, .error .poisoned)
  else if t.last peer < seq then
    ({ t with inner := Function.update t.inner peer (some seq) }, .ok (.ok ()))
  else
    match build.addOne (t.last peer) with
    | .ok expected => (t, .ok (.error (expected, seq)))
    -- the guard goes away in a panic
    | .error e => ({ t with poisoned := true }, .error e)

def run (t : SharedTracker) (calls : List (Fingerprint × UInt64)) : SharedTracker :=
  calls.foldl (fun t x => (t.checkAndAdvance build x.1 x.2).1) t

def answers (t : SharedTracker) : List (Fingerprint × UInt64) → List Answer
  | [] => []
  | x :: calls =>
    (t.checkAndAdvance build x.1 x.2).2 :: answers (t.checkAndAdvance build x.1 x.2).1 calls

def accepted (t : SharedTracker) : List (Fingerprint × UInt64) → List (Fingerprint × UInt64)
  | [] => []
  | x :: calls =>
    (if (t.checkAndAdvance build x.1 x.2).2 = .ok (.ok ()) then [x] else []) ++
      accepted (t.checkAndAdvance build x.1 x.2).1 calls

/-! ### What one call can do -/

variable {build} {t t' : SharedTracker} {peer : Fingerprint} {seq : UInt64} {a : Answer}

inductive Takes (build : Build) (t : SharedTracker) (peer : Fingerprint) (seq : UInt64) :
    SharedTracker → Answer → Prop where
  | poisoned (h : t.poisoned = true) : Takes build t peer seq t (.error .poisoned)
  | accept (h : t.poisoned = false) (hlt : t.last peer < seq) :
      Takes build t peer seq { t with inner := Function.update t.inner peer (some seq) }
        (.ok (.ok ()))
  | reject (h : t.poisoned = false) (hle : seq ≤ t.last peer)
      (hroom : (t.last peer).toNat + 1 < 2 ^ 64) :
      Takes build t peer seq t (.ok (.error (t.last peer + 1, seq)))
  | overflow (h : t.poisoned = false) (hmax : t.last peer = maxSequence)
      (hbuild : build = .checked) :
      Takes build t peer seq { t with poisoned := true } (.error .overflow)
  | wrap (h : t.poisoned = false) (hmax : t.last peer = maxSequence)
      (hbuild : build = .wrapping) :
      Takes build t peer seq t (.ok (.error (0, seq)))

theorem toNat_maxSequence : maxSequence.toNat = 2 ^ 64 - 1 := by decide +kernel

theorem eq_maxSequence {n : UInt64} : n = maxSequence ↔ ¬n.toNat + 1 < 2 ^ 64 := by
  rw [← UInt64.toNat_inj, toNat_maxSequence]
  have hlt := UInt64.toNat_lt n
  omega

/-- **What one call does.** -/
theorem checkAndAdvance_takes (build : Build) (t : SharedTracker) (peer : Fingerprint)
    (seq : UInt64) :
    Takes build t peer seq (t.checkAndAdvance build peer seq).1
      (t.checkAndAdvance build peer seq).2 := by
  rw [checkAndAdvance]
  split
  · rename_i hpoisoned
    exact .poisoned hpoisoned
  · rename_i hpoisoned
    have hsound : t.poisoned = false := Bool.not_eq_true _ ▸ hpoisoned
    split
    · rename_i hlt
      exact .accept hsound hlt
    · rename_i hle
      have hle : seq ≤ t.last peer := UInt64.not_lt.mp hle
      by_cases hroom : (t.last peer).toNat + 1 < 2 ^ 64
      · have hok : build.addOne (t.last peer) = .ok (t.last peer + 1) := by
          cases build with
          | checked => exact if_pos hroom
          | wrapping => rfl
        rw [hok]
        exact .reject hsound hle hroom
      · have hmax : t.last peer = maxSequence := eq_maxSequence.mpr hroom
        cases build with
        | checked =>
          have herror : Build.checked.addOne (t.last peer) = .error .overflow := if_neg hroom
          rw [herror]
          exact .overflow hsound hmax rfl
        | wrapping =>
          have hzero : maxSequence + 1 = 0 := by decide
          show Takes _ t peer seq t (.ok (.error (t.last peer + 1, seq)))
          rw [hmax, hzero]
          exact .wrap hsound hmax rfl

/-! ### The library's tracker -/

def tracker (t : SharedTracker) : SequenceTracker Fingerprint :=
  ⟨fun peer => (t.inner peer).map UInt64.toNat⟩

def numbered (x : Fingerprint × UInt64) : Fingerprint × ℕ := (x.1, x.2.toNat)

theorem high_tracker (t : SharedTracker) (peer : Fingerprint) :
    t.tracker.high peer = (t.last peer).toNat := by
  show ((t.inner peer).map UInt64.toNat).getD 0 = ((t.inner peer).getD 0).toNat
  cases t.inner peer <;> rfl

theorem tracker_update (t : SharedTracker) (peer : Fingerprint) (seq : UInt64) (b : Bool) :
    tracker ⟨Function.update t.inner peer (some seq), b⟩ =
      ⟨Function.update t.tracker.last peer (some seq.toNat)⟩ :=
  congrArg SequenceTracker.mk (Function.comp_update (Option.map UInt64.toNat) t.inner peer _)

/-- A call that does not panic does to the map what it does to the library's
tracker, and is accepted by one exactly if it is by the other. -/
theorem Takes.follows (h : Takes build t peer seq t' a) (hsound : t'.poisoned = false) :
    t'.tracker = (t.tracker.checkAndAdvance peer seq.toNat).1 ∧
      (a = .ok (.ok ()) ↔ t.tracker.high peer < seq.toNat) := by
  -- whatever number a rejection gives, the library rejects too and both maps stay
  have hrejected : ∀ {r : UInt64 × UInt64}, seq ≤ t.last peer →
      t.tracker = (t.tracker.checkAndAdvance peer seq.toNat).1 ∧
        ((.ok (.error r) : Answer) = .ok (.ok ()) ↔ t.tracker.high peer < seq.toNat) := by
    intro r hle
    have hnot : ¬t.tracker.high peer < seq.toNat := by
      rw [high_tracker]
      exact Nat.not_lt.mpr (UInt64.le_iff_toNat_le.mp hle)
    rw [SequenceTracker.checkAndAdvance_error hnot]
    refine ⟨rfl, iff_of_false ?_ hnot⟩
    intro h
    cases h
  cases h with
  | poisoned h =>
    rw [h] at hsound
    cases hsound
  | accept h hlt =>
    have hlt : t.tracker.high peer < seq.toNat := by
      rw [high_tracker]
      exact UInt64.lt_iff_toNat_lt.mp hlt
    rw [SequenceTracker.checkAndAdvance, if_pos hlt]
    exact ⟨tracker_update t peer seq _, iff_of_true rfl hlt⟩
  | reject h hle hroom => exact hrejected hle
  | overflow => cases hsound
  | wrap h hmax =>
    refine hrejected (UInt64.le_iff_toNat_le.mpr ?_)
    rw [hmax, toNat_maxSequence]
    exact Nat.le_pred_of_lt (UInt64.toNat_lt seq)

theorem run_poisoned (h : t.poisoned = true) (calls : List (Fingerprint × UInt64)) :
    t.run build calls = t := by
  induction calls with
  | nil => rfl
  | cons x calls ih =>
    have hsame : (t.checkAndAdvance build x.1 x.2).1 = t := by
      rw [checkAndAdvance, if_pos h]
    show run build (t.checkAndAdvance build x.1 x.2).1 calls = t
    rw [hsame, ih]

theorem sound_of_run {calls : List (Fingerprint × UInt64)}
    (h : (t.run build calls).poisoned = false) : t.poisoned = false := by
  by_contra hpoisoned
  rw [Bool.not_eq_false] at hpoisoned
  rw [run_poisoned hpoisoned, hpoisoned] at h
  cases h

/-- **The map follows the library's tracker**, as long as nothing panicked. -/
theorem tracker_run {calls : List (Fingerprint × UInt64)}
    (h : (t.run build calls).poisoned = false) :
    (t.run build calls).tracker = t.tracker.run (calls.map numbered) := by
  induction calls generalizing t with
  | nil => rfl
  | cons x calls ih =>
    have hstep := (checkAndAdvance_takes build t x.1 x.2).follows (sound_of_run h)
    show (run build (t.checkAndAdvance build x.1 x.2).1 calls).tracker =
      (t.tracker.checkAndAdvance x.1 x.2.toNat).1.run (calls.map numbered)
    rw [← hstep.1]
    exact ih h

theorem accepted_numbered {calls : List (Fingerprint × UInt64)}
    (h : (t.run build calls).poisoned = false) :
    (t.accepted build calls).map numbered = t.tracker.accepted (calls.map numbered) := by
  induction calls generalizing t with
  | nil => rfl
  | cons x calls ih =>
    obtain ⟨htracker, hiff⟩ := (checkAndAdvance_takes build t x.1 x.2).follows (sound_of_run h)
    rw [accepted, List.map_append, ih h, htracker, List.map_cons, SequenceTracker.accepted]
    by_cases hlt : t.tracker.high (numbered x).1 < (numbered x).2
    · rw [if_pos hlt, if_pos (hiff.mpr hlt)]
      rfl
    · rw [if_neg hlt, if_neg fun hok => hlt (hiff.mp hok)]
      rfl

/-! ### Marks -/

variable {calls : List (Fingerprint × UInt64)}

theorem forall_numbered {v : ℕ} :
    (∀ s, (peer, s) ∈ calls.map numbered → s < v) ↔ ∀ s, (peer, s) ∈ calls → s.toNat < v := by
  constructor
  · intro hall s hs
    exact hall s.toNat (List.mem_map_of_mem hs)
  · intro hall s hs
    obtain ⟨x, hx, heq⟩ := List.mem_map.mp hs
    obtain ⟨rfl, rfl⟩ := Prod.mk.inj heq
    exact hall x.2 hx

theorem last_lt (h : (new.run build calls).poisoned = false) {v : ℕ} :
    ((new.run build calls).last peer).toNat < v ↔
      0 < v ∧ ∀ s, (peer, s) ∈ calls → s.toNat < v := by
  rw [← high_tracker, tracker_run h, SequenceTracker.high_run_lt, forall_numbered]
  rfl

theorem last_lt_accepted (h : (new.run build calls).poisoned = false) {v : ℕ} :
    ((new.run build calls).last peer).toNat < v ↔
      0 < v ∧ ∀ s, (peer, s) ∈ new.accepted build calls → s.toNat < v := by
  rw [← high_tracker, tracker_run h, SequenceTracker.high_run_lt_accepted, ← accepted_numbered h,
    forall_numbered]
  rfl

theorem last_eq_max (h : (new.run build calls).poisoned = false) :
    (new.run build calls).last peer = maxSequence ↔ (peer, maxSequence) ∈ calls := by
  rw [eq_maxSequence]
  have hlt : ((new.run build calls).last peer).toNat < 2 ^ 64 - 1 ↔
      0 < 2 ^ 64 - 1 ∧ ∀ s, (peer, s) ∈ calls → s.toNat < 2 ^ 64 - 1 := last_lt h
  constructor
  · intro hfull
    by_contra hnot
    -- all that came from the peer is below the largest, so the mark is
    refine hfull (Nat.add_lt_of_lt_sub (hlt.mpr ⟨by decide, fun s hs => ?_⟩))
    have hs' : s ≠ maxSequence := fun heq => hnot (heq ▸ hs)
    exact Nat.lt_sub_of_add_lt (not_not.mp fun hroom => hs' (eq_maxSequence.mpr hroom))
  · intro hmem hroom
    have hbelow := (hlt.mp (Nat.lt_sub_of_add_lt hroom)).2 maxSequence hmem
    rw [toNat_maxSequence] at hbelow
    exact Nat.lt_irrefl _ hbelow

/-! ### Whole runs -/

/-- A call is answered as it should be: it does not panic; it is accepted
exactly if its sequence is above 0 and all that were accepted from the peer; a
rejection gives the sequence, and a number above all those, and changes nothing;
and what the other peers sent makes no difference. -/
structure Answered (build : Build) (before : List (Fingerprint × UInt64)) (peer : Fingerprint)
    (seq : UInt64) : Prop where
  returns : ∃ verdict, ((new.run build before).checkAndAdvance build peer seq).2 = .ok verdict
  accepts : ((new.run build before).checkAndAdvance build peer seq).2 = .ok (.ok ()) ↔
    0 < seq ∧ ∀ s, (peer, s) ∈ new.accepted build before → s < seq
  rejects : ∀ expected actual,
    ((new.run build before).checkAndAdvance build peer seq).2 = .ok (.error (expected, actual)) →
    actual = seq ∧ 0 < expected ∧ (∀ s, (peer, s) ∈ new.accepted build before → s < expected) ∧
      ((new.run build before).checkAndAdvance build peer seq).1 = new.run build before
  apart : ((new.run build before).checkAndAdvance build peer seq).2 =
    ((new.run build (before.filter (·.1 = peer))).checkAndAdvance build peer seq).2

theorem answer_congr {t₁ t₂ : SharedTracker} (hpoisoned : t₁.poisoned = t₂.poisoned)
    (hlast : t₁.last peer = t₂.last peer) :
    (t₁.checkAndAdvance build peer seq).2 = (t₂.checkAndAdvance build peer seq).2 := by
  rw [checkAndAdvance, checkAndAdvance, hpoisoned, hlast]
  split
  · rfl
  · split
    · rfl
    · split <;> rfl

theorem Takes.rejected {expected actual : UInt64} (h : Takes build t peer seq t' a)
    (hmax : t.last peer ≠ maxSequence) (ha : a = .ok (.error (expected, actual))) :
    actual = seq ∧ expected.toNat = (t.last peer).toNat + 1 ∧ t' = t := by
  cases h with
  | poisoned | accept | overflow => cases ha
  | reject h hle hroom =>
    cases ha
    refine ⟨rfl, ?_, rfl⟩
    rw [UInt64.toNat_add]
    exact Nat.mod_eq_of_lt hroom
  | wrap h hmax' => exact absurd hmax' hmax

theorem Takes.returns (h : Takes build t peer seq t' a) (hsound : t.poisoned = false)
    (hmax : t.last peer ≠ maxSequence) : t'.poisoned = false ∧ ∃ verdict, a = .ok verdict := by
  cases h with
  | poisoned h =>
    rw [h] at hsound
    cases hsound
  | accept => exact ⟨hsound, _, rfl⟩
  | reject => exact ⟨hsound, _, rfl⟩
  | overflow h hmax' => exact absurd hmax' hmax
  | wrap h hmax' => exact absurd hmax' hmax

theorem Takes.at_max (h : Takes build t peer seq t' a) (hmax : t.last peer = maxSequence) :
    (∃ e, a = .error e) ∨ a = .ok (.error (0, seq)) := by
  cases h with
  | poisoned => exact .inl ⟨_, rfl⟩
  | overflow => exact .inl ⟨_, rfl⟩
  | wrap => exact .inr rfl
  | accept h hlt =>
    have hseq := UInt64.toNat_lt seq
    have hlt := UInt64.lt_iff_toNat_lt.mp hlt
    rw [hmax, toNat_maxSequence] at hlt
    omega
  | reject h hle hroom => exact absurd hroom (eq_maxSequence.mp hmax)

/-- No peer calls again after it has sent the largest sequence. -/
def Spaced (calls : List (Fingerprint × UInt64)) : Prop :=
  calls.Pairwise fun x y => x.2 = maxSequence → y.1 ≠ x.1

theorem Spaced.not_mem {after : List (Fingerprint × UInt64)}
    (h : Spaced (calls ++ (peer, seq) :: after)) : (peer, maxSequence) ∉ calls := by
  intro hmem
  exact (List.pairwise_append.mp h).2.2 _ hmem (peer, seq) List.mem_cons_self rfl rfl

/-- **Nothing panics** where the calls are so spaced. -/
theorem Spaced.sound (h : Spaced calls) : (new.run build calls).poisoned = false := by
  -- from the end: the last call finds a sound tracker, whose marks are known then
  induction calls using List.reverseRecOn with
  | nil => rfl
  | append_singleton calls x ih =>
    have hsound := ih (List.pairwise_append.mp h).1
    have hnot : (x.1, maxSequence) ∉ calls := Spaced.not_mem h
    have hrun : new.run build (calls ++ [x]) =
        ((new.run build calls).checkAndAdvance build x.1 x.2).1 := List.foldl_append
    have hmax : (new.run build calls).last x.1 ≠ maxSequence := by
      rw [ne_eq, last_eq_max hsound]
      exact hnot
    rw [hrun]
    exact ((checkAndAdvance_takes build _ x.1 x.2).returns hsound hmax).1

theorem Answered.of_spaced {after : List (Fingerprint × UInt64)}
    (h : Spaced (calls ++ (peer, seq) :: after)) : Answered build calls peer seq := by
  have hcalls : Spaced calls := (List.pairwise_append.mp h).1
  have hown : Spaced (calls.filter (·.1 = peer)) := List.Pairwise.filter _ hcalls
  have hsound : (new.run build calls).poisoned = false := hcalls.sound
  have hmax : (new.run build calls).last peer ≠ maxSequence := by
    rw [ne_eq, last_eq_max hsound]
    exact h.not_mem
  have htakes := checkAndAdvance_takes build (new.run build calls) peer seq
  obtain ⟨hsound', hreturns⟩ := htakes.returns hsound hmax
  refine ⟨hreturns, ?_, ?_, ?_⟩
  · rw [(htakes.follows hsound').2, high_tracker, last_lt_accepted hsound]
    simp only [UInt64.lt_iff_toNat_lt]
    rfl
  · intro expected actual hrejected
    obtain ⟨hactual, hexpected, hsame⟩ := htakes.rejected hmax hrejected
    obtain ⟨hpos, habove⟩ := (last_lt_accepted hsound).mp (Nat.lt_of_lt_of_eq
      (Nat.lt_succ_self ((new.run build calls).last peer).toNat) hexpected.symm)
    refine ⟨hactual, UInt64.lt_iff_toNat_lt.mpr hpos, fun s hs => ?_, hsame⟩
    exact UInt64.lt_iff_toNat_lt.mpr (habove s hs)
  · -- the peer's own calls lead to the same mark
    have hsound₁ : (new.run build (calls.filter (·.1 = peer))).poisoned = false := hown.sound
    refine answer_congr (hsound.trans hsound₁.symm) (UInt64.toNat_inj.mp ?_)
    refine eq_of_forall_gt_iff fun v => ?_
    rw [last_lt hsound, last_lt hsound₁]
    simp only [List.mem_filter, decide_true, and_true]

theorem Answered.not_mem (h : Answered build calls peer seq) : (peer, maxSequence) ∉ calls := by
  intro hmem
  obtain ⟨verdict, hverdict⟩ := h.returns
  have hsound : (new.run build calls).poisoned = false := by
    by_contra hpoisoned
    rw [Bool.not_eq_false] at hpoisoned
    rw [checkAndAdvance, if_pos hpoisoned] at hverdict
    cases hverdict
  have hmax : (new.run build calls).last peer = maxSequence := (last_eq_max hsound).mpr hmem
  rcases (checkAndAdvance_takes build (new.run build calls) peer seq).at_max hmax with
    ⟨e, he⟩ | hzero
  · rw [he] at hverdict
    cases hverdict
  · have hpos := (h.rejects 0 seq hzero).2.1
    exact absurd hpos (by decide)

theorem Spaced.of_answered (h : ∀ before peer seq after, calls = before ++ (peer, seq) :: after →
    Answered build before peer seq) : Spaced calls := by
  induction calls using List.reverseRecOn with
  | nil => exact List.Pairwise.nil
  | append_singleton calls x ih =>
    refine List.pairwise_append.mpr ⟨ih fun before peer seq after hcalls => ?_,
      List.pairwise_singleton _ _, fun y hy z hz hmax hpeer => ?_⟩
    · refine h before peer seq (after ++ [x]) ?_
      rw [hcalls, List.append_assoc]
      rfl
    · rw [List.mem_singleton.mp hz] at hpeer
      refine (h calls x.1 x.2 [] rfl).not_mem ?_
      rw [hpeer, ← hmax]
      exact hy

end SharedTracker

/-- **When the tracker has no arithmetic failure.**  In either build, for any
peers and sequences, all calls are answered as they should be exactly if no peer
calls again after it has sent the largest sequence. -/
theorem sequences_answered_iff (build : Build) (calls : List (Fingerprint × UInt64)) :
    (∀ before peer seq after, calls = before ++ (peer, seq) :: after →
      SharedTracker.Answered build before peer seq) ↔
    calls.Pairwise fun x y => x.2 = maxSequence → y.1 ≠ x.1 := by
  constructor
  · intro h
    exact SharedTracker.Spaced.of_answered h
  · rintro hspaced before peer seq after rfl
    exact SharedTracker.Answered.of_spaced hspaced

/-- Agent 3 sends the largest sequence and is heard no more; agent 2 goes on. -/
theorem sequences_answered_iff_apart :
    SharedTracker.Answered .checked [(⟨2⟩, 5), (⟨3⟩, maxSequence)] ⟨2⟩ 5 ∧
      (SharedTracker.new.answers .checked [(⟨2⟩, 5), (⟨3⟩, maxSequence), (⟨2⟩, 5), (⟨2⟩, 6)]) =
        [.ok (.ok ()), .ok (.ok ()), .ok (.error (6, 5)), .ok (.ok ())] := by
  refine ⟨(sequences_answered_iff .checked
    [(⟨2⟩, 5), (⟨3⟩, maxSequence), (⟨2⟩, 5)]).mpr ?_ _ _ _ [] rfl, by decide +kernel⟩
  decide +kernel

/-! A peer of the same user sends the largest sequence, and then any other.  With
checked additions its second call panics, and so does every later call of every
peer; with wrapping ones it is told to expect 0.  Its envelopes are admitted.  The
inbox does the same. -/

noncomputable def Small.overrun : List Call :=
  [carried 2 (env 2 5 maxSequence.toNat (.publish "t" [1])),
    carried 2 (env 2 6 1 (.publish "t" [2]))]

set_option maxRecDepth 100000 in
theorem largest_sequence_overflows :
    SharedTracker.new.answers .checked [(⟨2⟩, maxSequence), (⟨2⟩, 1), (⟨3⟩, 1)] =
      [.ok (.ok ()), .error .overflow, .error .poisoned] ∧
    SharedTracker.new.answers .wrapping [(⟨2⟩, maxSequence), (⟨2⟩, 1), (⟨3⟩, 1)] =
      [.ok (.ok ()), .ok (.error (0, 1)), .ok (.ok ())] ∧
    ((Intake.start (.new .wrapping)).run Small.wire (Small.inTurn Small.overrun)).calls.map (·.2) =
      [.done (.ok none), .done (.error (.badSequence "kk" 0 1))] ∧
    ((Intake.start (.new .checked)).run Small.wire (Small.inTurn Small.overrun)).calls.map (·.2) =
      [.done (.ok none), .panicked .overflow] := by
  refine ⟨by decide +kernel, by decide +kernel, by decide +kernel, by decide +kernel⟩

/-! ### The inbox -/

/-- How the check of a sequence ends, by what the tracker answered. -/
def SharedTracker.phase (W : MessageWire) (ctx : RequestContext) : Answer → Phase
  | .ok (.ok ()) => .dispatch ctx
  | .ok (.error (expected, actual)) =>
    .done (.error (.badSequence (ctx.callerAgentFp.hex W.toCrypto) expected.toNat actual.toNat))
  | .error e => .panicked e

/-- **The tracker of an inbox is this one**, in either build: a check finds them in
one state, leaves them in one, and ends as the tracker answers. -/
theorem inbox_sequence_follows (W : MessageWire) {b : Inbox} {t : SharedTracker}
    (hlock : b.poisoned = t.poisoned) (hmarks : b.sequence = t.tracker) {c : Call}
    {seq : UInt64} (hseq : c.env.sequence = seq.toNat) (ctx : RequestContext) (o : Outcome) :
    let r := t.checkAndAdvance b.build ctx.callerAgentFp seq
    let s := b.advance W c o (.checkSequence ctx)
    s.1.poisoned = r.1.poisoned ∧ s.1.sequence = r.1.tracker ∧
      s.2.1 = SharedTracker.phase W ctx r.2 := by
  intro r s
  have hhigh : t.tracker.high ctx.callerAgentFp = (t.last ctx.callerAgentFp).toNat :=
    SharedTracker.high_tracker t ctx.callerAgentFp
  -- a rejection adds to the mark of the peer
  have hrejects : seq ≤ t.last ctx.callerAgentFp →
      t.tracker.checkAndAdvance ctx.callerAgentFp seq.toNat =
        (t.tracker, .error (((t.last ctx.callerAgentFp).toNat + 1) % 2 ^ 64, seq.toNat)) := by
    intro hle
    rw [SequenceTracker.checkAndAdvance, if_neg, hhigh]
    rw [hhigh]
    exact Nat.not_lt.mpr (UInt64.le_iff_toNat_le.mp hle)
  have hmax_le : t.last ctx.callerAgentFp = maxSequence → seq ≤ t.last ctx.callerAgentFp := by
    intro hmax
    rw [hmax, UInt64.le_iff_toNat_le, SharedTracker.toNat_maxSequence]
    exact Nat.le_pred_of_lt (UInt64.toNat_lt seq)
  simp only [r, s]
  rw [Inbox.advance, hlock, hmarks, hseq, hhigh]
  have htakes := SharedTracker.checkAndAdvance_takes b.build t ctx.callerAgentFp seq
  generalize t.checkAndAdvance b.build ctx.callerAgentFp seq = r at htakes
  obtain ⟨t', a⟩ := r
  dsimp only at htakes
  cases htakes with
  | poisoned h =>
    rw [if_pos h]
    exact ⟨hlock, hmarks, rfl⟩
  | accept h hlt =>
    have hlt' : t.tracker.high ctx.callerAgentFp < seq.toNat := by
      rw [hhigh]
      exact UInt64.lt_iff_toNat_lt.mp hlt
    rw [h, SequenceTracker.checkAndAdvance, if_pos hlt']
    exact ⟨rfl, (SharedTracker.tracker_update t ctx.callerAgentFp seq _).symm, rfl⟩
  | reject h hle hroom =>
    rw [h, hrejects hle]
    simp only [Bool.false_eq_true, if_false, Nat.not_le.mpr hroom, and_false]
    refine ⟨trivial, trivial, ?_⟩
    rw [SharedTracker.phase, UInt64.toNat_add]
    rfl
  | overflow h hmax hbuild =>
    rw [h, hrejects (hmax_le hmax), hmax, SharedTracker.toNat_maxSequence, hbuild]
    exact ⟨rfl, rfl, rfl⟩
  | wrap h hmax hbuild =>
    rw [h, hrejects (hmax_le hmax), hmax, SharedTracker.toNat_maxSequence, hbuild]
    exact ⟨rfl, rfl, rfl⟩

end Bus
