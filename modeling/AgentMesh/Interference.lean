/-
Other agents and an awaited reply.

A reply is awaited from one peer.  Envelopes of other agents leave its waiter
and the peer's sequence alone, whatever they carry and however their calls
interleave; but they share the nonce cache, which does not look at the sender,
and the lock of the sequences, which a build with checked additions lets any
agent poison.  So the reply is delivered exactly if its nonce is not in the cache
by then and the lock is sound: the responder check keeps out replies to the same
correlation, and nothing else.

* `Inbox.onEnvelope_reply` — what becomes of the peer's reply;
* `Intake.Unmoved` — what the calls of other agents leave alone;
* `Intake.overrun_iff` — which envelopes poison the lock;
* `awaited_reply_iff`, and `awaited_reply_blocked` for replies that another agent
  keeps from their waiter.
-/
import AgentMesh.Sending

open Mesh

namespace Bus

variable {W : MessageWire} {b : Inbox} {c : Call} {ctx : RequestContext} {id : CorrelationId}
  {body : Bytes} {pending : PendingReply} {o : Outcome}

/-! ### The reply -/

/-- The call carries the awaited reply: it is admitted, is for the waiter, comes
from the peer that is expected and is above all accepted from it. -/
structure Inbox.Awaits (W : MessageWire) (b : Inbox) (c : Call) (ctx : RequestContext)
    (id : CorrelationId) (body : Bytes) (pending : PendingReply) : Prop where
  admitted : c.admission W = .ok ctx
  parsed : c.parsed W = .ok (.reply id body)
  waiter : b.waiters.waiters id = some pending
  expected : pending.expectedPeerFp = ctx.callerAgentFp
  above : b.sequence.high ctx.callerAgentFp < c.env.sequence

namespace Inbox

theorem Awaits.arrived (h : b.Awaits W c ctx id body pending) :
    b.advance W c o .arrived = (b, .checkPeer ctx id, none) := by
  simp only [advance, Call.start, h.admitted, h.parsed]

theorem Awaits.checkPeer (h : b.Awaits W c ctx id body pending) :
    b.advance W c o (.checkPeer ctx id) = (b, .checkNonce ctx, none) := by
  simp only [advance, ReplyWaiter.checkPeer, h.waiter, h.expected, if_true]

theorem onEnvelope_replay (h : b.Awaits W c ctx id body pending)
    (hn : c.env.nonce ∈ b.nonceCache.seen) :
    b.onEnvelope W c o = (b, .done (.error .replay), none) := by
  have hcheck : b.advance W c o (.checkNonce ctx) = (b, .done (.error .replay), none) := by
    rw [advance, if_neg]
    exact fun htrue => NonceCache.checkAndInsert_true.mp htrue hn
  rw [onEnvelope, h.arrived, h.checkPeer, hcheck]
  rfl

theorem advance_fresh (hn : c.env.nonce ∉ b.nonceCache.seen) :
    b.advance W c o (.checkNonce ctx) =
      ({ b with nonceCache := (b.nonceCache.checkAndInsert c.env.nonce).1 }, .checkSequence ctx,
        none) := by
  rw [advance, if_pos (NonceCache.checkAndInsert_true.mpr hn)]

theorem onEnvelope_locked (h : b.Awaits W c ctx id body pending)
    (hn : c.env.nonce ∉ b.nonceCache.seen) (hpoisoned : b.poisoned = true) :
    (b.onEnvelope W c o).2 = (.panicked .poisoned, none) := by
  have hseq : Inbox.advance W { b with nonceCache := (b.nonceCache.checkAndInsert c.env.nonce).1 }
      c o (.checkSequence ctx) =
        ({ b with nonceCache := (b.nonceCache.checkAndInsert c.env.nonce).1 },
          .panicked .poisoned, none) := by
    simp only [advance, hpoisoned, if_true]
  simp only [onEnvelope, h.arrived, h.checkPeer, advance_fresh hn, hseq]
  rfl

/-- **A reply with a new nonce is delivered**, if the lock is sound. -/
theorem onEnvelope_reply (h : b.Awaits W c ctx id body pending)
    (hn : c.env.nonce ∉ b.nonceCache.seen) (hsound : b.poisoned = false)
    (ho : o.dropped = false) :
    (b.onEnvelope W c o).2 = (.done (.ok none), some (.delivered pending.token body)) := by
  have hseq : Inbox.advance W { b with nonceCache := (b.nonceCache.checkAndInsert c.env.nonce).1 }
      c o (.checkSequence ctx) =
        ({ b with
            nonceCache := (b.nonceCache.checkAndInsert c.env.nonce).1
            sequence := ⟨Function.update b.sequence.last ctx.callerAgentFp
              (some c.env.sequence)⟩ }, .dispatch ctx, none) := by
    simp only [advance, hsound, SequenceTracker.checkAndAdvance, if_pos h.above,
      Bool.false_eq_true, if_false]
  have hdeliver : ∀ b' : Inbox, b'.waiters = b.waiters →
      (b'.advance W c o (.dispatch ctx)).2 =
        (.done (.ok none), some (.delivered pending.token body)) := by
    intro b' hb'
    have hw := h.waiter
    rw [← hb'] at hw
    simp only [advance, h.parsed, dispatch, ReplyWaiter.deliver_expected hw h.expected, ho,
      Bool.false_eq_true, if_false]
  simp only [onEnvelope, h.arrived, h.checkPeer, advance_fresh hn, hseq]
  have hlast := hdeliver { b with
    nonceCache := (b.nonceCache.checkAndInsert c.env.nonce).1
    sequence := ⟨Function.update b.sequence.last ctx.callerAgentFp (some c.env.sequence)⟩ } rfl
  exact congrArg (fun x : Phase × Option Dispatch => (x.1, none.or x.2)) hlast

end Inbox

/-! ### The calls of other agents -/

structure Inbox.Keeps (peer : Fingerprint) (id : CorrelationId) (pending : PendingReply)
    (b b' : Inbox) : Prop where
  waiter : b.waiters.waiters id = some pending → b'.waiters.waiters id = some pending
  mark : b'.sequence.high peer = b.sequence.high peer

theorem Inbox.Advances.keeps {b' : Inbox} {p p' : Phase} {d : Option Dispatch} {peer : Fingerprint}
    (h : Advances W b c p b' p' d) (hs : c.Stands W p) (hother : c.signer W ≠ peer)
    (hexpected : pending.expectedPeerFp = peer) : Keeps peer id pending b b' := by
  cases h with
  | pass hsound hlt =>
    refine ⟨fun h => h, ?_⟩
    rw [SequenceTracker.high_checkAndAdvance hlt, if_neg]
    rw [Call.Stands.signer hs]
    exact hother.symm
  | @deliver ctx id' body pending' d hmsg hw heq =>
    refine ⟨fun hid => ?_, rfl⟩
    -- the waiter that is removed expects the caller, and this one expects the peer
    have hne : id ≠ id' := by
      rintro rfl
      rw [hid] at hw
      cases hw
      rw [hexpected, Call.Stands.signer hs] at heq
      exact hother heq.symm
    exact (Function.update_of_ne hne _ _).trans hid
  | refuse | reply | other | mismatch | match_ | replay | fresh | locked | overflow | outOfOrder
  | late | finish | ended => exact ⟨fun h => h, rfl⟩

/-- What other agents may do before the reply: their envelopes arrive and are
processed in any interleaving, and the application uses other correlations. -/
def Intake.Act.Others (W : MessageWire) (peer : Fingerprint) (id : CorrelationId) : Act → Prop
  | .call c => c.signer W ≠ peer
  | .register id' _ | .cancel id' _ => id' ≠ id
  | .step .. | .subscribe _ | .handle _ => True

namespace Intake

variable {w : Intake} {peer : Fingerprint}

/-- The invariant of a run of other agents' calls from the inbox `b`. -/
structure Unmoved (W : MessageWire) (peer : Fingerprint) (id : CorrelationId)
    (pending : PendingReply) (b : Inbox) (w : Intake) : Prop where
  others : ∀ c ∈ w.arrivals, c.signer W ≠ peer
  keeps : b.Keeps peer id pending w.inbox

theorem Unmoved.step (h : w.Unmoved W peer id pending b) (ht : w.Tracked W)
    (hexpected : pending.expectedPeerFp = peer) {act : Act} (ha : act.Others W peer id) :
    (w.step W act).Unmoved W peer id pending b := by
  have hothers : ∀ c ∈ (w.step W act).arrivals, c.signer W ≠ peer := by
    intro c hc
    rw [arrivals_step] at hc
    rcases List.mem_append.mp hc with hc | hc
    · exact h.others c hc
    · cases act with
      | call c' =>
        cases List.mem_singleton.mp hc
        exact ha
      | step | register | cancel | subscribe | handle => simp [delivered] at hc
  refine ⟨hothers, ?_⟩
  cases act with
  | call | subscribe | handle => exact ⟨h.keeps.waiter, h.keeps.mark⟩
  | step i o =>
    rw [Intake.step]
    split
    · rename_i c p hi
      have hadv := Inbox.advance_advances (W := W) w.inbox c o p
      have hkeeps : w.inbox.Keeps peer id pending (w.inbox.advance W c o p).1 :=
        hadv.keeps (ht.stands i c p hi) (h.others c (mem_arrivals hi)) hexpected
      exact ⟨fun hid => hkeeps.waiter (h.keeps.waiter hid), hkeeps.mark.trans h.keeps.mark⟩
    · exact h.keeps
  | register id' peer' =>
    refine ⟨fun hid => ?_, h.keeps.mark⟩
    exact (Function.update_of_ne (Ne.symm ha) _ _).trans (h.keeps.waiter hid)
  | cancel id' token =>
    refine ⟨fun hid => ?_, h.keeps.mark⟩
    have hid := h.keeps.waiter hid
    simp only [Intake.step, ReplyWaiter.cancel]
    split
    · exact (Function.update_of_ne (Ne.symm ha) _ _).trans hid
    · exact hid

theorem Unmoved.run (h : w.Unmoved W peer id pending b) (ht : w.Tracked W)
    (hexpected : pending.expectedPeerFp = peer) {acts : List Act}
    (ha : ∀ act ∈ acts, act.Others W peer id) : (w.run W acts).Unmoved W peer id pending b := by
  induction acts generalizing w with
  | nil => exact h
  | cons act acts ih =>
    exact ih (h.step ht hexpected (ha act List.mem_cons_self)) (ht.step act)
      fun act' hmem => ha act' (List.mem_cons_of_mem _ hmem)

theorem seen_run {acts : List Act} {n : BitVec 192}
    (h : n ∈ (w.run W acts).inbox.nonceCache.seen) :
    n ∈ w.inbox.nonceCache.seen ∨ ∃ c ∈ (w.run W acts).arrivals, c.env.nonce = n := by
  induction acts using List.reverseRecOn with
  | nil => exact .inl h
  | append_singleton acts act ih =>
    rw [run_append] at h ⊢
    have harrive : ∀ c ∈ (w.run W acts).arrivals,
        c ∈ ((w.run W acts).run W [act]).arrivals := by
      intro c hc
      rw [arrivals_run]
      exact List.mem_append_left _ hc
    rcases seen_step h with hold | ⟨c, hc, hn⟩
    · exact (ih hold).imp_right fun ⟨c, hc, hn⟩ => ⟨c, harrive c hc, hn⟩
    · exact .inr ⟨c, harrive c hc, hn⟩

/-- **Which envelopes poison the lock**: one that is checked after its signer's
mark has no successor, be it that it had none at first or that the signer sent
the largest sequence. -/
theorem overrun_iff {checked : List (ℕ × Call)} : Overrun W b checked ↔
    ∃ pre x post, checked = pre ++ x :: post ∧
      (max x.2.env.sequence (2 ^ 64 - 1) ≤ b.sequence.high (x.2.signer W) ∨
        ∃ y ∈ pre, y.2.signer W = x.2.signer W ∧
          max x.2.env.sequence (2 ^ 64 - 1) ≤ y.2.env.sequence) := by
  refine exists_congr fun pre => exists_congr fun x => exists_congr fun post =>
    and_congr_right fun _ => ?_
  -- both bounds at once: the mark is not below the larger of them
  have hmax : x.2.env.sequence ≤ markAt W b pre x ∧ 2 ^ 64 ≤ markAt W b pre x + 1 ↔
      ¬markAt W b pre x < max x.2.env.sequence (2 ^ 64 - 1) := by
    omega
  rw [hmax, markAt_lt, not_and_or, Nat.not_lt]
  refine or_congr_right ?_
  push Not
  rfl

end Intake

/-- **An awaited reply and the envelopes of other agents.**  After any traffic
of agents other than the expected peer, its reply is delivered to the waiter
exactly if its nonce is not in the nonce cache by then and the lock of the
sequences is not poisoned.  A nonce that is there makes it a replay, and a
poisoned lock a panic.  The lock is poisoned if it was before, or, in a build with
checked additions, by an envelope of an agent whose mark was the largest sequence
before or whose envelopes checked before that had it.  Where the lock is sound
and no envelope of theirs carries the nonce, the reply is delivered as it would
have been without them. -/
theorem awaited_reply_iff (h : b.Awaits W c ctx id body pending) {acts : List Intake.Act}
    (hothers : ∀ act ∈ acts, act.Others W ctx.callerAgentFp id) (ho : o.dropped = false) :
    let w := (Intake.start b).run W acts
    let r := (w.inbox.onEnvelope W c o).2
    (r = (.done (.ok none), some (.delivered pending.token body)) ↔
      c.env.nonce ∉ w.inbox.nonceCache.seen ∧ w.inbox.poisoned = false) ∧
    (c.env.nonce ∈ w.inbox.nonceCache.seen → r = (.done (.error .replay), none)) ∧
    (c.env.nonce ∉ w.inbox.nonceCache.seen → w.inbox.poisoned = true →
      r = (.panicked .poisoned, none)) ∧
    (w.inbox.poisoned = true ↔ b.poisoned = true ∨ b.build = .checked ∧
      ∃ pre x post, w.checked = pre ++ x :: post ∧
        (max x.2.env.sequence (2 ^ 64 - 1) ≤ b.sequence.high (x.2.signer W) ∨
          ∃ y ∈ pre, y.2.signer W = x.2.signer W ∧
            max x.2.env.sequence (2 ^ 64 - 1) ≤ y.2.env.sequence)) ∧
    (c.env.nonce ∉ b.nonceCache.seen → w.inbox.poisoned = false →
      (∀ c' ∈ Intake.delivered acts, c'.env.nonce ≠ c.env.nonce) → r = (b.onEnvelope W c o).2) := by
  intro w r
  have hstart : (Intake.start b).Unmoved W ctx.callerAgentFp id pending b :=
    ⟨fun c hc => by simp [Intake.arrivals, Intake.start] at hc, ⟨fun h => h, rfl⟩⟩
  have hkeeps := (hstart.run (.start b) h.expected hothers).keeps
  have hawaits : w.inbox.Awaits W c ctx id body pending :=
    ⟨h.admitted, h.parsed, hkeeps.waiter h.waiter, h.expected, by rw [hkeeps.mark]; exact h.above⟩
  have hlock : w.inbox.poisoned = true ↔ Intake.Locked W b w.checked :=
    ((Intake.Counted.start b).run (.start b) acts).lock
  have hreplay : c.env.nonce ∈ w.inbox.nonceCache.seen → r = (.done (.error .replay), none) := by
    intro hn
    show (w.inbox.onEnvelope W c o).2 = _
    rw [Inbox.onEnvelope_replay hawaits hn]
  refine ⟨⟨fun hdelivered => ?_, fun hn => Inbox.onEnvelope_reply hawaits hn.1 hn.2 ho⟩, hreplay,
    fun hn hpoisoned => Inbox.onEnvelope_locked hawaits hn hpoisoned, ?_, ?_⟩
  · by_cases hn : c.env.nonce ∈ w.inbox.nonceCache.seen
    · rw [hreplay hn] at hdelivered
      cases hdelivered
    · refine ⟨hn, ?_⟩
      by_contra hpoisoned
      have hlost : r = _ := Inbox.onEnvelope_locked hawaits hn (Bool.not_eq_false _ ▸ hpoisoned)
      rw [hlost] at hdelivered
      cases hdelivered
  · rw [hlock, Intake.Locked, Intake.overrun_iff]
  · intro hn hsound hnonces
    have hn' : c.env.nonce ∉ w.inbox.nonceCache.seen := by
      intro hseen
      rcases Intake.seen_run hseen with hold | ⟨c', hc', heq⟩
      · exact hn hold
      · rw [Intake.arrivals_run] at hc'
        exact hnonces c' hc' heq
    have hfirst : b.poisoned = false := by
      by_contra hpoisoned
      rw [hlock.mpr (.inl (Bool.not_eq_false _ ▸ hpoisoned))] at hsound
      cases hsound
    exact (Inbox.onEnvelope_reply hawaits hn' hsound ho).trans
      (Inbox.onEnvelope_reply h hn hfirst ho).symm

namespace Small

def asking : Inbox :=
  { Inbox.new .checked with waiters := (Inbox.new .checked).waiters.register ⟨7⟩ ⟨2⟩ }

noncomputable def answer : Call := carried 2 (env 2 5 1 (.reply ⟨7⟩ [3]))

/-- Agent 3 publishes before that, with the given nonce and sequence. -/
noncomputable def publishing (nonce : BitVec 192) (sequence : ℕ) : Call :=
  carried 3 (env 3 nonce sequence (.publish "t" [1]))

set_option maxRecDepth 100000 in
theorem asking_awaits : asking.Awaits wire answer ⟨⟨9⟩, ⟨2⟩⟩ ⟨7⟩ [3] ⟨0, ⟨2⟩⟩ :=
  ⟨by decide +kernel, by decide +kernel, by decide +kernel, rfl, by decide +kernel⟩

end Small

set_option maxRecDepth 100000 in
theorem awaited_reply_iff_published :
    let w := (Intake.start Small.asking).run Small.wire (Small.inTurn [Small.publishing 6 1])
    (w.inbox.onEnvelope Small.wire Small.answer Small.outcome).2 =
      (.done (.ok none), some (.delivered 0 [3])) := by
  intro w
  refine (awaited_reply_iff Small.asking_awaits ?_ rfl).1.mpr
    ⟨by decide +kernel, by decide +kernel⟩
  have hothers : ∀ act ∈ Small.inTurn [Small.publishing 6 1],
      act = .call (Small.publishing 6 1) ∨ act = .step 0 Small.outcome := by
    simp [Small.inTurn, List.replicate]
  intro act hact
  rcases hothers act hact with rfl | rfl
  · exact (by decide +kernel : (Small.publishing 6 1).signer Small.wire ≠ ⟨2⟩)
  · exact trivial

/-! Agent 3 publishes with the nonce the answer will carry: its envelope is
dispatched, and the answer is rejected.  Or it publishes with the largest sequence
and once more: the answer's task panics, though its nonce is new. -/

set_option maxRecDepth 100000 in
theorem awaited_reply_blocked :
    let w := (Intake.start Small.asking).run Small.wire (Small.inTurn [Small.publishing 5 1])
    let w' := (Intake.start Small.asking).run Small.wire
      (Small.inTurn [Small.publishing 6 (2 ^ 64 - 1), Small.publishing 8 1])
    (Small.publishing 5 1).admission Small.wire = .ok ⟨⟨9⟩, ⟨3⟩⟩ ∧
      (w.inbox.onEnvelope Small.wire Small.answer Small.outcome).2 =
        (.done (.error .replay), none) ∧
      w'.calls.map (·.2) = [.done (.ok none), .panicked .overflow] ∧
      (w'.inbox.onEnvelope Small.wire Small.answer Small.outcome).2 =
        (.panicked .poisoned, none) ∧
      (Small.asking.onEnvelope Small.wire Small.answer Small.outcome).2 =
        (.done (.ok none), some (.delivered 0 [3])) := by
  refine ⟨by decide +kernel, by decide +kernel, by decide +kernel, by decide +kernel,
    by decide +kernel⟩

end Bus
