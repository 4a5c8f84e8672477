/-
At-most-once dispatch.

Whatever envelopes reach an inbox, in whatever order the accesses of the calls
interleave, the sequences that pass the replay checks strictly increase for
each signer: the sequence check is one access, and its marks never fall.  So no
two dispatches come from envelopes with the same signer and sequence, however
many nonces were evicted in between.  A call that is refused by the immutable
checks, or as a reply by the wrong peer, makes no access that changes anything.

* `Call.Stands` — what the phase of a call says about it;
* `Inbox.Advances.kinds` — the three kinds of access, for dispatch;
* `Intake.Tracked` — the invariant over runs;
* `dispatch_at_most_once`.
-/
import AgentMesh.Inbox

open Mesh

namespace Bus

variable {W : MessageWire} {b b' : Inbox} {c : Call} {p p' : Phase} {d : Option Dispatch}

/-! ### What a phase says -/

/-- What the phase of a call says about it. -/
def Call.Stands (W : MessageWire) (c : Call) : Phase → Prop
  | .arrived => True
  | .refused e => c.admission W = .error e
  | .checkPeer ctx id => c.admission W = .ok ctx ∧ ∃ body, c.parsed W = .ok (.reply id body)
  | .checkNonce ctx | .checkSequence ctx | .dispatch ctx => c.admission W = .ok ctx
  | .mismatched | .mismatchedLate | .panicked _ | .done _ => ∃ ctx, c.admission W = .ok ctx

theorem Inbox.Advances.stands (h : Advances W b c p b' p' d) (hs : c.Stands W p) :
    c.Stands W p' := by
  cases h with
  | refuse h => exact h
  | reply h hmsg => exact ⟨h, _, hmsg⟩
  | other h hmsg => exact h
  | mismatch h hne => exact ⟨_, hs.1⟩
  | match_ h => exact hs.1
  | replay h => exact ⟨_, hs⟩
  | fresh h => exact hs
  | locked | overflow | outOfOrder => exact ⟨_, hs⟩
  | pass => exact hs
  | deliver hmsg h heq => exact ⟨_, hs⟩
  | late hmsg h hne => exact ⟨_, hs⟩
  | finish => exact ⟨_, hs⟩
  | ended h => exact hs

theorem Call.Stands.signer {ctx : RequestContext} (h : c.admission W = .ok ctx) :
    ctx.callerAgentFp = c.signer W :=
  admit_signer h

/-- A call that has ended stays so, and its accesses do nothing. -/
theorem Inbox.Advances.of_ended (h : Advances W b c p b' p' d) (hp : p.Ended) :
    b' = b ∧ p' = p ∧ d = none := by
  cases h with
  | ended => exact ⟨rfl, rfl, rfl⟩
  | refuse | reply | other | mismatch | match_ | replay | fresh | locked | overflow | outOfOrder
  | pass | deliver | late | finish => exact hp.elim

/-- The kinds of access: one that neither passes the sequence check nor comes
after it, the sequence check that passes, and the dispatch. -/
inductive Inbox.Kind (W : MessageWire) (b : Inbox) (c : Call) (p : Phase) (b' : Inbox)
    (p' : Phase) : Option Dispatch → Prop where
  | quiet (hseq : b'.sequence = b.sequence) (hpass : Intake.passes p p' = false)
      (hp' : ∀ ctx, p' ≠ .dispatch ctx) : Kind W b c p b' p' none
  | pass {ctx : RequestContext} (hp : p = .checkSequence ctx) (hp' : p' = .dispatch ctx)
      (hlt : b.sequence.high (c.signer W) < c.env.sequence)
      (hseq : b'.sequence = (b.sequence.checkAndAdvance (c.signer W) c.env.sequence).1) :
      Kind W b c p b' p' none
  | dispatch {ctx : RequestContext} {d : Option Dispatch} (hp : p = .dispatch ctx)
      (hseq : b'.sequence = b.sequence) (hp' : p'.Ended) : Kind W b c p b' p' d

theorem Inbox.Advances.kinds (h : Advances W b c p b' p' d) (hs : c.Stands W p) :
    Kind W b c p b' p' d := by
  cases h with
  | refuse | reply | other | mismatch | match_ | replay | fresh | locked | overflow | outOfOrder =>
    exact .quiet rfl rfl (fun ctx h => (nomatch h))
  | pass hsound h =>
    rw [Call.Stands.signer hs] at h
    refine .pass rfl rfl h ?_
    rw [Call.Stands.signer hs]
  | deliver | late | finish => exact .dispatch rfl rfl trivial
  | ended h =>
    refine .quiet rfl ?_ ?_
    · cases p <;> rfl
    · rintro ctx rfl
      exact h

/-! ### The invariant of a run -/

namespace Intake

variable {w : Intake}

/-- The sequence of `x` is below that of `y` if one agent signed both. -/
def Before (W : MessageWire) (x y : ℕ × Call) : Prop :=
  x.2.signer W = y.2.signer W → x.2.env.sequence < y.2.env.sequence

/-- The invariant: the marks are above all that passed, in order; a call about
to be dispatched passed, and one that was dispatched has ended. -/
structure Tracked (W : MessageWire) (w : Intake) : Prop where
  stands : ∀ (i : ℕ) (c : Call) (p : Phase), w.calls[i]? = some (c, p) → c.Stands W p
  marked : ∀ x ∈ w.passed, x.2.env.sequence ≤ w.inbox.sequence.high (x.2.signer W)
  ordered : w.passed.Pairwise (Before W)
  pending : ∀ (i : ℕ) (c : Call) (ctx : RequestContext),
    w.calls[i]? = some (c, .dispatch ctx) → (i, c) ∈ w.passed
  ended : ∀ d ∈ w.dispatched, (d.1, d.2.1) ∈ w.passed ∧
    ∃ (c : Call) (p : Phase), w.calls[d.1]? = some (c, p) ∧ p.Ended
  once : w.dispatched.Pairwise fun d e => d.1 ≠ e.1

theorem Tracked.start (b : Inbox) : (start b).Tracked W where
  stands i c p h := by simp [Intake.start] at h
  marked x hx := by simp [Intake.start] at hx
  ordered := .nil
  pending i c ctx h := by simp [Intake.start] at h
  ended d hd := by simp [Intake.start] at hd
  once := .nil

theorem calls_set {i j : ℕ} {x y z : Call × Phase} (hi : w.calls[i]? = some x)
    (h : (w.calls.set i y)[j]? = some z) : i = j ∧ y = z ∨ i ≠ j ∧ w.calls[j]? = some z := by
  rw [List.getElem?_set] at h
  by_cases hij : i = j
  · rw [if_pos hij, if_pos (List.getElem?_eq_some_iff.mp hi).1, Option.some.injEq] at h
    exact .inl ⟨hij, h⟩
  · rw [if_neg hij] at h
    exact .inr ⟨hij, h⟩

theorem ended_set {i j : ℕ} {x y : Call × Phase} (hi : w.calls[i]? = some x)
    (hy : x.2.Ended → y.2.Ended)
    (h : ∃ (c : Call) (p : Phase), w.calls[j]? = some (c, p) ∧ p.Ended) :
    ∃ (c : Call) (p : Phase), (w.calls.set i y)[j]? = some (c, p) ∧ p.Ended := by
  obtain ⟨c, p, hj, hp⟩ := h
  rw [List.getElem?_set]
  by_cases hij : i = j
  · subst hij
    rw [hi, Option.some.injEq] at hj
    refine ⟨y.1, y.2, ?_, hy (by rw [hj]; exact hp)⟩
    rw [if_pos rfl, if_pos (List.getElem?_eq_some_iff.mp hi).1]
  · exact ⟨c, p, by rw [if_neg hij]; exact hj, hp⟩

/-- **One access keeps the invariant.** -/
theorem Tracked.advance (h : w.Tracked W) {i : ℕ} (hi : w.calls[i]? = some (c, p)) (o : Outcome) :
    (w.advance W i c p o).Tracked W := by
  have hadv := Inbox.advance_advances (W := W) w.inbox c o p
  have hstands := hadv.stands (h.stands i c p hi)
  have hkind := hadv.kinds (h.stands i c p hi)
  have hstays : p.Ended → (w.inbox.advance W c o p).2.1.Ended := by
    intro hp
    rw [(hadv.of_ended hp).2.1]
    exact hp
  rw [Intake.advance]
  generalize w.inbox.advance W c o p = r at hkind hstands hstays
  obtain ⟨b', p', d⟩ := r
  have hcalls : ∀ (j : ℕ) (c' : Call) (q : Phase), (w.calls.set i (c, p'))[j]? = some (c', q) →
      c'.Stands W q := by
    intro j c' q hj
    rcases calls_set hi hj with ⟨-, hq⟩ | ⟨-, hj⟩
    · cases hq
      exact hstands
    · exact h.stands j c' q hj
  have hended : ∀ d ∈ w.dispatched, ∃ (c' : Call) (q : Phase),
      (w.calls.set i (c, p'))[d.1]? = some (c', q) ∧ q.Ended :=
    fun d hd => ended_set hi hstays (h.ended d hd).2
  cases hkind with
  | quiet hseq hpass hp' =>
    simp only [hpass, Bool.false_eq_true, if_false, List.append_nil, Option.toList_none,
      List.map_nil]
    refine ⟨hcalls, fun x hx => ?_, h.ordered, fun j c' ctx hj => ?_,
      fun d hd => ⟨(h.ended d hd).1, hended d hd⟩, h.once⟩
    · rw [hseq]
      exact h.marked x hx
    · rcases calls_set hi hj with ⟨-, hq⟩ | ⟨-, hj⟩
      · cases hq
        exact absurd rfl (hp' ctx)
      · exact h.pending j c' ctx hj
  | pass hp hp' hlt hseq =>
    subst hp hp'
    simp only [passes, if_true, Option.toList_none, List.map_nil, List.append_nil]
    refine ⟨hcalls, fun x hx => ?_, ?_, fun j c' ctx hj => ?_,
      fun d hd => ⟨List.mem_append_left _ (h.ended d hd).1, hended d hd⟩, h.once⟩
    · -- the mark of the signer rises to the sequence that passed, and none falls
      rw [hseq]
      rcases List.mem_append.mp hx with hx | hx
      · exact (h.marked x hx).trans (SequenceTracker.high_le _)
      · cases List.mem_singleton.mp hx
        rw [SequenceTracker.high_checkAndAdvance hlt, if_pos rfl]
    · refine List.pairwise_append.mpr ⟨h.ordered, List.pairwise_singleton _ _, ?_⟩
      intro x hx y hy hsigner
      cases List.mem_singleton.mp hy
      have hx := h.marked x hx
      rw [hsigner] at hx
      exact Nat.lt_of_le_of_lt hx hlt
    · rcases calls_set hi hj with ⟨rfl, hq⟩ | ⟨-, hj⟩
      · cases hq
        exact List.mem_append_right _ (List.mem_singleton_self _)
      · exact List.mem_append_left _ (h.pending j c' ctx hj)
  | dispatch hp hseq hp' =>
    subst hp
    have hnew : ∀ x ∈ d.toList.map (fun d => (i, c, d)), x.1 = i ∧ x.2.1 = c := by
      intro x hx
      obtain ⟨_, -, rfl⟩ := List.mem_map.mp hx
      exact ⟨rfl, rfl⟩
    simp only [passes, Bool.false_eq_true, if_false, List.append_nil]
    refine ⟨hcalls, fun x hx => ?_, h.ordered, fun j c' ctx hj => ?_, fun x hx => ?_, ?_⟩
    · rw [hseq]
      exact h.marked x hx
    · rcases calls_set hi hj with ⟨-, hq⟩ | ⟨-, hj⟩
      · cases hq
        exact hp'.elim
      · exact h.pending j c' ctx hj
    · rcases List.mem_append.mp hx with hx | hx
      · exact ⟨(h.ended x hx).1, hended x hx⟩
      · obtain ⟨h1, h2⟩ := hnew x hx
        rw [h1, h2]
        refine ⟨h.pending i c _ hi, c, p', ?_, hp'⟩
        rw [List.getElem?_set, if_pos rfl, if_pos (List.getElem?_eq_some_iff.mp hi).1]
    · -- a call that was dispatched before has ended, so this one was not
      refine List.pairwise_append.mpr ⟨h.once, ?_, fun x hx y hy hxy => ?_⟩
      · cases d with
        | none => exact .nil
        | some d => exact List.pairwise_singleton _ _
      · obtain ⟨c', q, hq, hend⟩ := (h.ended x hx).2
        rw [hxy, (hnew y hy).1, hi] at hq
        cases hq
        exact hend

theorem calls_append {x y : Call × Phase} {i : ℕ} (h : (w.calls ++ [x])[i]? = some y) :
    w.calls[i]? = some y ∨ y = x := by
  rw [List.getElem?_append] at h
  split at h
  · exact .inl h
  · exact .inr (List.mem_singleton.mp (List.mem_of_getElem? h))

theorem Tracked.tables (h : w.Tracked W) {b : Inbox} (hseq : b.sequence = w.inbox.sequence) :
    Tracked W { w with inbox := b } :=
  ⟨h.stands, fun x hx => by rw [hseq]; exact h.marked x hx, h.ordered, h.pending, h.ended, h.once⟩

theorem Tracked.step (h : w.Tracked W) (act : Act) : (w.step W act).Tracked W := by
  cases act with
  | call c =>
    refine ⟨fun i c' p hi => ?_, h.marked, h.ordered, fun i c' ctx hi => ?_, fun d hd => ?_, h.once⟩
    · rcases calls_append hi with hi | hnew
      · exact h.stands i c' p hi
      · cases hnew
        exact trivial
    · rcases calls_append hi with hi | hnew
      · exact h.pending i c' ctx hi
      · cases hnew
    · obtain ⟨hpassed, c', p, hp, hend⟩ := h.ended d hd
      refine ⟨hpassed, c', p, ?_, hend⟩
      exact (List.getElem?_append_left (List.getElem?_eq_some_iff.mp hp).1).trans hp
  | step i o =>
    rw [Intake.step]
    split
    · rename_i c p hi
      exact h.advance hi o
    · exact h
  | register | cancel | subscribe | handle => exact h.tables rfl

theorem Tracked.run (h : w.Tracked W) (acts : List Act) : (w.run W acts).Tracked W := by
  induction acts generalizing w with
  | nil => exact h
  | cons act acts ih => exact ih (h.step act)

/-- Different signers or different sequences. -/
def Apart (W : MessageWire) (x y : ℕ × Call) : Prop :=
  ¬(x.2.signer W = y.2.signer W ∧ x.2.env.sequence = y.2.env.sequence)

instance : Std.Symm (Apart W) where
  symm _ _ h := fun hyx => h ⟨hyx.1.symm, hyx.2.symm⟩

/-- **No two dispatches come from envelopes with one signer and sequence.** -/
theorem Tracked.distinct (h : w.Tracked W) :
    w.dispatched.Pairwise fun d e => Apart W (d.1, d.2.1) (e.1, e.2.1) := by
  -- whichever of two calls passed first has the lower sequence
  have happart : w.passed.Pairwise (Apart W) := by
    refine h.ordered.imp fun {x y} hlt heq => ?_
    exact Nat.ne_of_lt (hlt heq.1) heq.2
  refine h.once.imp_of_mem fun {d e} hd he hne => ?_
  refine happart.forall (h.ended d hd).1 (h.ended e he).1 fun heq => hne ?_
  exact congrArg (fun x : ℕ × Call => x.1) heq

end Intake

/-! ### Refused calls -/

/-- The call has not touched the replay state: it is before the nonce check, or
was refused before it. -/
def Phase.Early : Phase → Prop
  | .arrived | .checkPeer .. | .refused _ | .mismatched => True
  | _ => False

/-- An access that leaves a call early found it early, and changed nothing. -/
theorem Inbox.Advances.of_early (h : Advances W b c p b' p' d) (hp' : p'.Early) :
    p.Early ∧ b' = b := by
  cases h with
  | refuse | reply | mismatch => exact ⟨trivial, rfl⟩
  | ended => exact ⟨hp', rfl⟩
  | other | match_ | replay | fresh | locked | overflow | outOfOrder | pass | deliver | late
  | finish => exact hp'.elim

theorem Call.Stands.early {e : BusError} (h : c.Stands W p) (he : c.admission W = .error e) :
    p.Early := by
  have hno : ∀ ctx, c.admission W ≠ .ok ctx := by
    intro ctx hok
    rw [he] at hok
    cases hok
  cases p with
  | arrived | refused | mismatched | checkPeer => exact trivial
  | checkNonce ctx | checkSequence ctx | dispatch ctx => exact absurd h (hno ctx)
  | mismatchedLate | panicked | done =>
    obtain ⟨ctx, hok⟩ := h
    exact absurd hok (hno ctx)

namespace Intake

variable {w : Intake} {i : ℕ}

theorem early_step {act : Act}
    (h : ∀ (c : Call) (q : Phase), (w.step W act).calls[i]? = some (c, q) → q.Early) :
    ∀ (c : Call) (p : Phase), w.calls[i]? = some (c, p) → p.Early := by
  intro c p hi
  have hlen : i < w.calls.length := (List.getElem?_eq_some_iff.mp hi).1
  cases act with
  | call c' => exact h c p ((List.getElem?_append_left hlen).trans hi)
  | step j o =>
    rw [step] at h
    split at h
    · rename_i c' q hj
      by_cases hij : j = i
      · subst hij
        rw [hi] at hj
        cases hj
        have hset : (w.advance W j c p o).calls[j]? =
            some (c, (w.inbox.advance W c o p).2.1) := by
          rw [advance, List.getElem?_set, if_pos rfl, if_pos hlen]
        exact ((Inbox.advance_advances w.inbox c o p).of_early (h _ _ hset)).1
      · refine h c p ?_
        rw [advance, List.getElem?_set, if_neg hij]
        exact hi
    · exact h c p hi
  | register | cancel | subscribe | handle => exact h c p hi

theorem early_run {acts : List Act}
    (h : ∀ (c : Call) (q : Phase), (w.run W acts).calls[i]? = some (c, q) → q.Early) :
    ∀ (c : Call) (p : Phase), w.calls[i]? = some (c, p) → p.Early := by
  induction acts generalizing w with
  | nil => exact h
  | cons act acts ih => exact early_step (ih h)

/-- **A call that ends early changed nothing.** -/
theorem inbox_of_early {o : Outcome} (acts : List Act)
    (h : ∀ (c : Call) (q : Phase),
      ((w.step W (.step i o)).run W acts).calls[i]? = some (c, q) → q.Early) :
    (w.step W (.step i o)).inbox = w.inbox := by
  have hearly := early_run h
  rw [step] at hearly ⊢
  split at hearly
  · rename_i c p hi
    have hlen : i < w.calls.length := (List.getElem?_eq_some_iff.mp hi).1
    refine ((Inbox.advance_advances w.inbox c o p).of_early (hearly c _ ?_)).2
    rw [advance, List.getElem?_set, if_pos rfl, if_pos hlen]
  · rfl

end Intake

/-! ### Replies and their waiters -/

/-- The responder check is passed, the dispatch still to come. -/
def Phase.Checked : Phase → Prop
  | .checkNonce _ | .checkSequence _ | .dispatch _ => True
  | _ => False

/-- A call past the responder check is awaited from its signer, or not at all. -/
structure Call.Awaited (W : MessageWire) (b : Inbox) (c : Call) (p : Phase) : Prop where
  waiter : p.Checked → ∀ id body, c.parsed W = .ok (.reply id body) →
    ∀ pending, b.waiters.waiters id = some pending → pending.expectedPeerFp = c.signer W
  not_late : p ≠ .mismatchedLate

theorem Inbox.Advances.waiters (h : Advances W b c p b' p' d) {id : CorrelationId}
    {pending : PendingReply} (hid : b'.waiters.waiters id = some pending) :
    b.waiters.waiters id = some pending := by
  cases h with
  | deliver => exact ReplyWaiter.of_removed hid
  | refuse | reply | other | mismatch | match_ | replay | fresh | locked | overflow | outOfOrder
  | pass | late | finish | ended => exact hid

theorem Call.Awaited.mono {b b' : Inbox} {c : Call} {p : Phase} (h : c.Awaited W b p)
    (hle : ∀ id pending, b'.waiters.waiters id = some pending →
      b.waiters.waiters id = some pending) : c.Awaited W b' p :=
  ⟨fun hp id body hmsg pending hid => h.waiter hp id body hmsg pending (hle id pending hid),
    h.not_late⟩

theorem Inbox.Advances.awaited (h : Advances W b c p b' p' d) (hs : c.Stands W p)
    (ha : c.Awaited W b p) : c.Awaited W b' p' := by
  cases h with
  | refuse | reply | mismatch | replay | locked | overflow | outOfOrder | deliver | finish =>
    exact ⟨fun hp => hp.elim, fun hp => (nomatch hp)⟩
  | other h hmsg => exact ⟨fun _ id body hreply => absurd hreply (hmsg id body), nofun⟩
  | @match_ ctx id h =>
    refine ⟨fun _ id' body hmsg pending hid => ?_, nofun⟩
    -- the correlation checked is the one of the message
    obtain ⟨hok, body', hmsg'⟩ := hs
    rw [hmsg] at hmsg'
    cases hmsg'
    rw [h pending hid, Call.Stands.signer hok]
  | fresh => exact ⟨fun _ => ha.waiter trivial, nofun⟩
  | pass => exact ⟨fun _ => ha.waiter trivial, nofun⟩
  | @late ctx id body pending hmsg h hne =>
    refine absurd ?_ hne
    rw [ha.waiter trivial id body hmsg pending h, Call.Stands.signer hs]
  | ended => exact ha

namespace Intake

variable {w : Intake}

/-- While nothing is registered, every call past the responder check stays
awaited from its signer or not at all. -/
theorem awaited_run {acts : List Act} (hacts : ∀ id peer, Act.register id peer ∉ acts)
    (ht : w.Tracked W)
    (h : ∀ (i : ℕ) (c : Call) (p : Phase), w.calls[i]? = some (c, p) → c.Awaited W w.inbox p) :
    ∀ (i : ℕ) (c : Call) (p : Phase), (w.run W acts).calls[i]? = some (c, p) →
      c.Awaited W (w.run W acts).inbox p := by
  induction acts generalizing w with
  | nil => exact h
  | cons act acts ih =>
    refine ih (fun id peer hmem => hacts id peer (List.mem_cons_of_mem _ hmem)) (ht.step act) ?_
    intro i c p hi
    cases act with
    | call c' =>
      rcases calls_append hi with hi | hnew
      · exact h i c p hi
      · cases hnew
        exact ⟨fun hp => hp.elim, nofun⟩
    | step j o =>
      rw [step] at hi ⊢
      split at hi
      · rename_i c' q hj
        have hadv := Inbox.advance_advances (W := W) w.inbox c' o q
        rcases calls_set hj hi with ⟨-, hq⟩ | ⟨-, hi⟩
        · cases hq
          exact hadv.awaited (ht.stands j _ q hj) (h j _ q hj)
        · exact (h i c p hi).mono fun id pending hid => hadv.waiters hid
      · exact h i c p hi
    | register id peer => exact absurd List.mem_cons_self (hacts id peer)
    | cancel id token =>
      exact (h i c p hi).mono fun id' pending hid => ReplyWaiter.cancel_waiters hid
    | subscribe | handle => exact (h i c p hi).mono fun id pending hid => hid

end Intake

/-- **At-most-once dispatch, and no poisoning by rejected traffic.**  In any
interleaving of the calls, with any envelopes and provenances: the sequences
that pass strictly increase for each signer, every dispatch comes from a call
that passed, and no two from envelopes with one signer and sequence.  A call
refused by the immutable checks, or as a reply by the responder check, changes
nothing in any access it makes; if nothing is registered meanwhile, replies are
refused in no other place. -/
theorem dispatch_at_most_once (b : Inbox) (acts : List Intake.Act) :
    let w := (Intake.start b).run W acts
    (w.passed.Pairwise fun x y =>
      x.2.signer W = y.2.signer W → x.2.env.sequence < y.2.env.sequence) ∧
    (∀ d ∈ w.dispatched, (d.1, d.2.1) ∈ w.passed) ∧
    (w.dispatched.Pairwise fun d e =>
      ¬(d.2.1.signer W = e.2.1.signer W ∧ d.2.1.env.sequence = e.2.1.env.sequence)) ∧
    (∀ (before after : List Intake.Act) (i : ℕ) (o : Outcome) (c : Call) (p : Phase),
      acts = before ++ .step i o :: after → w.calls[i]? = some (c, p) →
      (∃ e, c.admission W = .error e) ∨ p = .mismatched →
        ((Intake.start b).run W (before ++ [.step i o])).inbox =
          ((Intake.start b).run W before).inbox) ∧
    ((∀ id peer, Intake.Act.register id peer ∉ acts) →
      ∀ (i : ℕ) (c : Call), w.calls[i]? ≠ some (c, .mismatchedLate)) := by
  intro w
  have hstart := Intake.Tracked.start (W := W) b
  have htracked : w.Tracked W := hstart.run acts
  refine ⟨htracked.ordered, fun d hd => (htracked.ended d hd).1, htracked.distinct,
    fun before after i o c p hacts hi hrefused => ?_, fun hacts i c hi => ?_⟩
  · have hearly : p.Early := by
      rcases hrefused with ⟨e, he⟩ | rfl
      · exact (htracked.stands i c p hi).early he
      · exact trivial
    have hrun : w = (((Intake.start b).run W before).step W (.step i o)).run W after := by
      show (Intake.start b).run W acts = _
      rw [hacts, Intake.run_append]
      rfl
    rw [Intake.run_append]
    refine Intake.inbox_of_early after fun c' q hq => ?_
    rw [← hrun, hi] at hq
    cases hq
    exact hearly
  · have hnone : ∀ (i : ℕ) (c : Call) (p : Phase), (Intake.start b).calls[i]? = some (c, p) →
        c.Awaited W (Intake.start b).inbox p := by
      intro i c p h
      simp [Intake.start] at h
    exact (Intake.awaited_run hacts hstart hnone i c _ hi).not_late rfl

/-! A bus of the user with key 9: agent 1 is local, agents 2 and 3 are its
peers. -/

deriving instance Countable for CorrelationId
deriving instance Countable for BusMessage

namespace Small

open Flock

def member : AgentMetadata := ⟨"", "", [], "", none, .top⟩

def messages : List BusMessage :=
  [.publish "t" [1], .publish "t" [2], .reply ⟨7⟩ [3], .request "t" ⟨8⟩ [4]]

noncomputable def wire : MessageWire where
  toCrypto := idealCrypto [member]
  payloadHash b := BitVec.ofNat 256 (digest b)
  recipientJson := tabled [.direct ⟨1⟩]
  keyError _ := none
  messageJson := tabled messages
  messageOfJson b := okOr (recalled messages b) "eof"

noncomputable def key (n : Seed) : AgentKey wire.toCrypto :=
  AgentKey.issueWith wire.toCrypto ⟨9⟩ n member

noncomputable def env (n : Seed) (nonce : BitVec 192) (sequence : ℕ) (msg : BusMessage) :
    SignedEnvelope :=
  .new (W := wire.toWire) (key n) nonce (.direct ⟨1⟩) sequence (wire.messageJson msg)

/-- The call for an envelope carried by agent `carrier`. -/
def carried (carrier : BitVec 256) (env : SignedEnvelope) : Call :=
  ⟨env, .direct ⟨⟨9⟩, ⟨carrier⟩⟩, ⟨9⟩, ⟨1⟩⟩

def outcome : Outcome := ⟨.ok [], false⟩

/-- The calls run one after another, each to its end. -/
def inTurn (calls : List Call) : List Intake.Act :=
  calls.mapIdx (fun i c => Intake.Act.call c :: List.replicate 5 (.step i outcome)) |>.flatten

/-- Agent 2 publishes; the envelope comes again, and agent 3 carries it too. -/
noncomputable def replayed : List Call :=
  let publish := env 2 5 1 (.publish "t" [1])
  [carried 2 publish, carried 2 publish, carried 3 publish]

end Small

set_option maxRecDepth 100000 in
theorem dispatch_at_most_once_replayed :
    let acts := .subscribe "t" :: Small.inTurn Small.replayed
    let w := (Intake.start (.new .checked)).run Small.wire acts
    w.dispatched.map (fun d => (d.1, d.2.2)) = [(0, .published "t" [1])] ∧
    w.calls.map (·.2) = [.done (.ok none), .done (.error .replay),
      .refused (.carrierAgentMismatch "kkk" "kk")] ∧
    (w.dispatched.Pairwise fun d e =>
      ¬(d.2.1.signer Small.wire = e.2.1.signer Small.wire ∧
        d.2.1.env.sequence = e.2.1.env.sequence)) ∧
    ((Intake.start (.new .checked)).run Small.wire (acts.take 15)).inbox =
      ((Intake.start (.new .checked)).run Small.wire (acts.take 14)).inbox := by
  intro acts w
  obtain ⟨-, -, hdistinct, hrefused, -⟩ :=
    dispatch_at_most_once (W := Small.wire) (.new .checked) acts
  refine ⟨by decide +kernel, by decide +kernel, hdistinct, ?_⟩
  -- the first access of the last call
  have hlast : w.calls[2]? = some (Small.carried 3 (Small.env 2 5 1 (.publish "t" [1])),
      .refused (.carrierAgentMismatch "kkk" "kk")) := by decide +kernel
  have hadmitted : (Small.carried 3 (Small.env 2 5 1 (.publish "t" [1]))).admission Small.wire =
      .error (.carrierAgentMismatch "kkk" "kk") := by decide +kernel
  exact hrefused (acts.take 14) (acts.drop 15) 2 Small.outcome _ _ rfl hlast (.inl ⟨_, hadmitted⟩)

end Bus
