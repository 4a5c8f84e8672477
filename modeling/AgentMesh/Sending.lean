/-
Concurrent sends and the order of their checks.

A bus numbers its envelopes before it hands them to the transport, and the
receiver checks the numbers in one task per envelope, so the order of the
checks can be any.  The receiver takes a sequence only if it is above all that
it checked before: envelopes of one bus that are checked in the order they were
numbered are all dispatched, and one that is overtaken is not.

* `Sequencer.next_cases`, `mem_sent` — the numbers of one bus;
* `Intake.Counted` — which envelopes pass and which checks panic, for any traffic;
* `Intake.Honest` — no call of honest traffic ends before its number is checked;
* `Intake.served_run` — a call that passed is about to be dispatched, or was;
* `concurrent_sends_ordered`, and `concurrent_send_lost` for an overtaken one.
-/
import AgentMesh.Dispatch

open Mesh

namespace Bus

/-! ### The sender -/

/-- What a bus has issued and reserved. -/
structure Sequencer where
  last : ℕ
  reserved : ℕ

namespace Sequencer

/-- Sequences from `last + 1`, held in memory only. -/
def after (last : ℕ) : Sequencer := ⟨last, 2 ^ 64 - 1⟩

/-- How many sequences are reserved at a time. -/
def reservationBlock : ℕ := 1024

/-- The next sequence; `reserve` is how a durable reservation goes, if the bus
makes them and one is due. -/
def next (s : Sequencer) (reserve : Option (Except BusError Unit)) :
    Sequencer × Except BusError ℕ :=
  if 2 ^ 64 ≤ s.last + 1 then (s, .error (.sequenceReservation "sequences exhausted"))
  else if s.reserved < s.last + 1 then
    match reserve with
    | some (.error e) => (s, .error e)
    | _ => (⟨s.last + 1, min (s.reserved + reservationBlock) (2 ^ 64 - 1)⟩, .ok (s.last + 1))
  else (⟨s.last + 1, s.reserved⟩, .ok (s.last + 1))

theorem next_cases (s : Sequencer) (reserve : Option (Except BusError Unit)) :
    (∃ e, s.next reserve = (s, .error e)) ∨
      ∃ s' : Sequencer, s'.last = s.last + 1 ∧ s.last + 1 < 2 ^ 64 ∧
        s.next reserve = (s', .ok (s.last + 1)) := by
  unfold next
  split
  · exact .inl ⟨_, rfl⟩
  · rename_i hroom
    split
    · split
      · exact .inl ⟨_, rfl⟩
      · exact .inr ⟨_, rfl, Nat.lt_of_not_le hroom, rfl⟩
    · exact .inr ⟨_, rfl, Nat.lt_of_not_le hroom, rfl⟩

end Sequencer

/-- One send: how a reservation goes, the nonce drawn, and the message. -/
structure Send where
  reserve : Option (Except BusError Unit)
  nonce : BitVec 192
  msg : BusMessage

variable {W : MessageWire}

/-- Number and sign a message for a peer. -/
def makeEnvelope (agent : AgentKey W.toCrypto) (s : Sequencer) (peerFp : Fingerprint)
    (send : Send) :
    Sequencer × Except BusError SignedEnvelope :=
  match s.next send.reserve with
  | (s, .error e) => (s, .error e)
  | (s, .ok seq) =>
    (s, .ok (.new (W := W.toWire) agent send.nonce (.direct peerFp) seq (W.messageJson send.msg)))

/-- The envelopes of the sends that were numbered, in that order. -/
def sent (agent : AgentKey W.toCrypto) (peerFp : Fingerprint) :
    Sequencer → List Send → List SignedEnvelope
  | _, [] => []
  | s, send :: sends =>
    match makeEnvelope agent s peerFp send with
    | (s, .ok env) => env :: sent agent peerFp s sends
    | (s, .error _) => sent agent peerFp s sends

theorem sent_cons (agent : AgentKey W.toCrypto) (peerFp : Fingerprint) (s : Sequencer) (send : Send)
    (sends : List Send) :
    sent agent peerFp s (send :: sends) = sent agent peerFp s sends ∨
      ∃ s' : Sequencer, s'.last = s.last + 1 ∧ s.last + 1 < 2 ^ 64 ∧
        sent agent peerFp s (send :: sends) =
          .new (W := W.toWire) agent send.nonce (.direct peerFp) (s.last + 1)
            (W.messageJson send.msg) :: sent agent peerFp s' sends := by
  rcases s.next_cases send.reserve with ⟨e, he⟩ | ⟨s', hlast, hroom, hs'⟩
  · refine .inl ?_
    simp only [sent, makeEnvelope, he]
  · refine .inr ⟨s', hlast, hroom, ?_⟩
    simp only [sent, makeEnvelope, hs']

section Sent

variable {agent : AgentKey W.toCrypto} {peerFp : Fingerprint} {sends : List Send} {s : Sequencer}

/-- **What was sent**: each envelope is a send's, with a number not issued
before. -/
theorem mem_sent {env : SignedEnvelope} (h : env ∈ sent agent peerFp s sends) :
    ∃ send ∈ sends, ∃ seq, (s.last < seq ∧ seq < 2 ^ 64) ∧ env =
      .new (W := W.toWire) agent send.nonce (.direct peerFp) seq (W.messageJson send.msg) := by
  induction sends generalizing s with
  | nil => simp [sent] at h
  | cons send sends ih =>
    rcases sent_cons agent peerFp s send sends with heq | ⟨s', hlast, hroom, heq⟩
    · rw [heq] at h
      obtain ⟨send', hmem, hsend⟩ := ih h
      exact ⟨send', List.mem_cons_of_mem _ hmem, hsend⟩
    · rw [heq] at h
      rcases List.mem_cons.mp h with rfl | h
      · exact ⟨send, List.mem_cons_self, s.last + 1, ⟨Nat.lt_succ_self _, hroom⟩, rfl⟩
      · obtain ⟨send', hmem, seq, hseq, henv⟩ := ih h
        exact ⟨send', List.mem_cons_of_mem _ hmem, seq, by omega, henv⟩

theorem sent_nonces (h : (sends.map (·.nonce)).Nodup) :
    ((sent agent peerFp s sends).map (·.nonce)).Nodup := by
  have hsub : ((sent agent peerFp s sends).map (·.nonce)).Sublist (sends.map (·.nonce)) := by
    clear h
    induction sends generalizing s with
    | nil => exact .slnil
    | cons send sends ih =>
      rcases sent_cons agent peerFp s send sends with heq | ⟨s', -, -, heq⟩
      · rw [heq]
        exact ih.cons _
      · rw [heq]
        exact ih.cons_cons _
  exact h.sublist hsub

end Sent

/-! ### Which envelopes pass -/

/-- The sequence of the call has been checked. -/
def Phase.Post : Phase → Prop
  | .dispatch _ | .refused _ | .mismatched | .mismatchedLate | .panicked _ | .done _ => True
  | _ => False

section Counted

variable {b b' : Inbox} {c : Call} {p p' : Phase} {d : Option Dispatch}

/-- What a sequence check does, by the lock, the build and the mark. -/
structure Inbox.Check (W : MessageWire) (b : Inbox) (c : Call) (p : Phase) (b' : Inbox)
    (p' : Phase) : Prop where
  checks : Intake.checks p = true
  before : ¬p.Post
  after : p'.Post
  passes : Intake.passes p p' = true ↔
    b.poisoned = false ∧ b.sequence.high (c.signer W) < c.env.sequence
  lock : b'.poisoned = true ↔ b.poisoned = true ∨ b.build = .checked ∧
    c.env.sequence ≤ b.sequence.high (c.signer W) ∧ 2 ^ 64 ≤ b.sequence.high (c.signer W) + 1
  sequence : b'.poisoned = false →
    b'.sequence = (b.sequence.checkAndAdvance (c.signer W) c.env.sequence).1

/-- An access checks no sequence and leaves the tracker alone, or is a check. -/
theorem Inbox.Advances.check (h : Advances W b c p b' p' d) (hs : c.Stands W p) :
    (Intake.checks p = false ∧ Intake.passes p p' = false ∧ b'.sequence = b.sequence ∧
      b'.poisoned = b.poisoned ∧ (p.Post → p'.Post)) ∨ Check W b c p b' p' := by
  cases h with
  | refuse | reply | other | mismatch | match_ | replay | fresh =>
    exact .inl ⟨rfl, rfl, rfl, rfl, fun hp => hp.elim⟩
  | locked h =>
    refine .inr ⟨rfl, id, trivial, iff_of_false Bool.false_ne_true ?_, iff_of_true h (.inl h), ?_⟩
    · rw [h]
      exact fun hsound => Bool.noConfusion hsound.1
    · rw [h]
      exact Bool.noConfusion
  | overflow hsound hbuild h hfull =>
    rw [Call.Stands.signer hs] at h hfull
    exact .inr ⟨rfl, id, trivial,
      iff_of_false Bool.false_ne_true fun hpass => absurd h (Nat.not_le.mpr hpass.2),
      iff_of_true rfl (.inr ⟨hbuild, h, hfull⟩), Bool.noConfusion⟩
  | outOfOrder hsound h hroom =>
    rw [Call.Stands.signer hs] at h hroom
    refine .inr ⟨rfl, id, trivial,
      iff_of_false Bool.false_ne_true fun hpass => absurd h (Nat.not_le.mpr hpass.2), ?_,
      fun _ => ?_⟩
    · rw [hsound]
      exact iff_of_false Bool.false_ne_true (not_or.mpr
        ⟨Bool.false_ne_true, fun hfull => hroom ⟨hfull.1, hfull.2.2⟩⟩)
    · rw [SequenceTracker.checkAndAdvance_error (Nat.not_lt.mpr h)]
  | pass hsound h =>
    have hsigner := Call.Stands.signer hs
    rw [hsigner] at h
    refine .inr ⟨rfl, id, trivial, iff_of_true rfl ⟨hsound, h⟩, ?_, fun _ => by rw [hsigner]⟩
    rw [hsound]
    exact iff_of_false Bool.false_ne_true (not_or.mpr
      ⟨Bool.false_ne_true, fun hfull => absurd hfull.2.1 (Nat.not_le.mpr h)⟩)
  | deliver | late | finish => exact .inl ⟨rfl, rfl, rfl, rfl, fun _ => trivial⟩
  | ended h =>
    refine .inl ⟨?_, ?_, rfl, rfl, id⟩
    · cases p <;> first | rfl | exact h.elim
    · cases p <;> rfl

theorem Inbox.Advances.build (h : Advances W b c p b' p' d) : b'.build = b.build := by
  cases h <;> rfl

namespace Intake

/-- What the tracker is given for the calls. -/
def numbers (W : MessageWire) (checked : List (ℕ × Call)) : List (Fingerprint × ℕ) :=
  checked.map fun x => (x.2.signer W, x.2.env.sequence)

/-- The mark that `x` meets after the calls `pre`, if none of them panicked. -/
def markAt (W : MessageWire) (b₀ : Inbox) (pre : List (ℕ × Call)) (x : ℕ × Call) : ℕ :=
  (b₀.sequence.run (numbers W pre)).high (x.2.signer W)

/-- One of the calls is rejected while the mark of its signer has no successor. -/
def Overrun (W : MessageWire) (b₀ : Inbox) (checked : List (ℕ × Call)) : Prop :=
  ∃ pre x post, checked = pre ++ x :: post ∧ x.2.env.sequence ≤ markAt W b₀ pre x ∧
    2 ^ 64 ≤ markAt W b₀ pre x + 1

/-- The lock is poisoned after the calls. -/
def Locked (W : MessageWire) (b₀ : Inbox) (checked : List (ℕ × Call)) : Prop :=
  b₀.poisoned = true ∨ b₀.build = .checked ∧ Overrun W b₀ checked

variable {w : Intake} {b₀ : Inbox} {i : ℕ} {pre l m : List (ℕ × Call)} {x : ℕ × Call}

theorem markAt_lt {v : ℕ} : markAt W b₀ pre x < v ↔ b₀.sequence.high (x.2.signer W) < v ∧
    ∀ y ∈ pre, y.2.signer W = x.2.signer W → y.2.env.sequence < v := by
  rw [markAt, SequenceTracker.high_run_lt]
  refine and_congr_right fun _ => ⟨fun h y hy hsigner => ?_, fun h s hs => ?_⟩
  · refine h _ (List.mem_map.mpr ⟨y, hy, ?_⟩)
    rw [hsigner]
  · obtain ⟨y, hy, heq⟩ := List.mem_map.mp hs
    obtain ⟨hsigner, rfl⟩ := Prod.mk.inj heq
    exact h y hy hsigner

theorem overrun_append (h : Overrun W b₀ l) : Overrun W b₀ (l ++ m) := by
  obtain ⟨pre, x, post, rfl, hfull⟩ := h
  exact ⟨pre, x, post ++ m, by simp, hfull⟩

theorem overrun_snoc : Overrun W b₀ (l ++ [x]) ↔ Overrun W b₀ l ∨
    x.2.env.sequence ≤ markAt W b₀ l x ∧ 2 ^ 64 ≤ markAt W b₀ l x + 1 := by
  constructor
  · rintro ⟨pre, y, post, hsplit, hfull⟩
    rcases List.eq_nil_or_concat post with rfl | ⟨post, z, rfl⟩
    · obtain ⟨rfl, hy⟩ := List.append_inj' hsplit rfl
      cases hy
      exact .inr hfull
    · rw [List.concat_eq_append, ← List.cons_append, ← List.append_assoc] at hsplit
      exact .inl ⟨pre, y, post, (List.append_inj' hsplit rfl).1, hfull⟩
  · rintro (h | h)
    · exact overrun_append h
    · exact ⟨l, x, [], rfl, h⟩

/-- The invariant of the sequence checks, from an inbox `b₀`: which of the calls
checked poison the lock and which pass. -/
structure Counted (W : MessageWire) (b₀ : Inbox) (w : Intake) : Prop where
  build : w.inbox.build = b₀.build
  post : ∀ x ∈ w.checked, ∃ p : Phase, w.calls[x.1]? = some (x.2, p) ∧ p.Post
  checked : ∀ x ∈ w.passed, x ∈ w.checked
  lock : w.inbox.poisoned = true ↔ Locked W b₀ w.checked
  sequence : w.inbox.poisoned = false →
    w.inbox.sequence = b₀.sequence.run (numbers W w.checked)
  verdict : ∀ pre x post, w.checked = pre ++ x :: post →
    (x ∈ w.passed ↔ ¬Locked W b₀ pre ∧ markAt W b₀ pre x < x.2.env.sequence)

theorem Counted.start (b : Inbox) : (start b).Counted W b where
  build := rfl
  post x hx := by simp [Intake.start] at hx
  checked x hx := by simp [Intake.start] at hx
  lock := by simp [Intake.start, Locked, Overrun]
  sequence _ := rfl
  verdict pre x post h := by simp [Intake.start] at h

theorem Counted.post_set (h : w.Counted W b₀) (hi : w.calls[i]? = some (c, p))
    (hp : p.Post → p'.Post) :
    ∀ x ∈ w.checked, ∃ q : Phase, (w.calls.set i (c, p'))[x.1]? = some (x.2, q) ∧ q.Post := by
  intro x hx
  obtain ⟨q, hq, hpost⟩ := h.post x hx
  have hlen : i < w.calls.length := (List.getElem?_eq_some_iff.mp hi).1
  rw [List.getElem?_set]
  by_cases hix : i = x.1
  · rw [← hix, hi, Option.some.injEq, Prod.mk.injEq] at hq
    obtain ⟨rfl, rfl⟩ := hq
    rw [if_pos hix, if_pos hlen]
    exact ⟨p', rfl, hp hpost⟩
  · rw [if_neg hix]
    exact ⟨q, hq, hpost⟩

theorem Counted.high (h : w.Counted W b₀) (hsound : w.inbox.poisoned = false) :
    w.inbox.sequence.high (x.2.signer W) = markAt W b₀ w.checked x := by
  rw [h.sequence hsound, markAt]

theorem Counted.lock_check (h : w.Counted W b₀) (hc : w.inbox.Check W c p b' p') :
    b'.poisoned = true ↔ Locked W b₀ (w.checked ++ [(i, c)]) := by
  rw [hc.lock, h.build, Locked, overrun_snoc]
  by_cases hpoisoned : w.inbox.poisoned = true
  · refine iff_of_true (.inl hpoisoned) ?_
    exact (h.lock.mp hpoisoned).imp_right fun hover => ⟨hover.1, .inl hover.2⟩
  · have hnot := mt h.lock.mpr hpoisoned
    rw [h.high (x := (i, c)) (Bool.not_eq_true _ ▸ hpoisoned)]
    constructor
    · rintro (hold | ⟨hbuild, hfull⟩)
      · exact absurd hold hpoisoned
      · exact .inr ⟨hbuild, .inr hfull⟩
    · rintro (hold | ⟨hbuild, hover | hfull⟩)
      · exact absurd (.inl hold) hnot
      · exact absurd (.inr ⟨hbuild, hover⟩) hnot
      · exact .inr ⟨hbuild, hfull⟩

theorem Counted.passes_check (h : w.Counted W b₀) (hc : w.inbox.Check W c p b' p') :
    passes p p' = true ↔
      ¬Locked W b₀ w.checked ∧ markAt W b₀ w.checked (i, c) < c.env.sequence := by
  rw [hc.passes, ← h.lock, Bool.not_eq_true]
  refine and_congr_right fun hsound => ?_
  rw [h.high (x := (i, c)) hsound]

theorem Counted.advance (h : w.Counted W b₀) (hs : c.Stands W p)
    (hi : w.calls[i]? = some (c, p)) (o : Outcome) : (w.advance W i c p o).Counted W b₀ := by
  have hadv := Inbox.advance_advances (W := W) w.inbox c o p
  have hcheck := hadv.check hs
  have hbuild := hadv.build.trans h.build
  have hlen : i < w.calls.length := (List.getElem?_eq_some_iff.mp hi).1
  rw [Intake.advance]
  generalize w.inbox.advance W c o p = r at hcheck hbuild
  obtain ⟨b', p', d⟩ := r
  rcases hcheck with ⟨hno, hpass, hseq, hlock, hpost⟩ | hc
  · simp only [hno, hpass, Bool.false_eq_true, if_false, List.append_nil]
    refine ⟨hbuild, h.post_set hi hpost, h.checked, ?_, fun hsound => ?_, h.verdict⟩
    · rw [hlock]
      exact h.lock
    · rw [hlock] at hsound
      rw [hseq]
      exact h.sequence hsound
  · -- this call was not checked before
    have hnew : (i, c) ∉ w.checked := by
      intro hmem
      obtain ⟨q, hq, hqpost⟩ := h.post _ hmem
      rw [hi] at hq
      cases hq
      exact hc.before hqpost
    have hpassed : ∀ x, x ∈ w.passed ++ (if passes p p' then [(i, c)] else []) ↔
        x ∈ w.passed ∨ passes p p' = true ∧ x = (i, c) := by
      intro x
      cases passes p p' <;> simp
    simp only [hc.checks, if_true]
    refine ⟨hbuild, fun x hx => ?_, fun x hx => ?_, h.lock_check hc, fun hsound => ?_,
      fun pre x post hsplit => ?_⟩
    · rcases List.mem_append.mp hx with hx | hx
      · exact h.post_set hi (fun _ => hc.after) x hx
      · cases List.mem_singleton.mp hx
        refine ⟨p', ?_, hc.after⟩
        rw [List.getElem?_set, if_pos rfl, if_pos hlen]
    · rcases (hpassed x).mp hx with hx | ⟨-, rfl⟩
      · exact List.mem_append_left _ (h.checked x hx)
      · exact List.mem_append_right _ (List.mem_singleton_self _)
    · have hbefore : w.inbox.poisoned = false := by
        by_contra hpoisoned
        rw [hc.lock.mpr (.inl (Bool.not_eq_false _ ▸ hpoisoned))] at hsound
        cases hsound
      rw [hc.sequence hsound, h.sequence hbefore, numbers, numbers, List.map_append,
        SequenceTracker.run, SequenceTracker.run, List.foldl_append]
      rfl
    · rw [hpassed]
      rcases List.eq_nil_or_concat post with rfl | ⟨post, y, rfl⟩
      · obtain ⟨rfl, hx⟩ := List.append_inj' hsplit rfl
        cases hx
        rw [← h.passes_check hc]
        exact ⟨fun hor => hor.elim (fun hp => absurd (h.checked _ hp) hnew) (·.1),
          fun hpass => .inr ⟨hpass, rfl⟩⟩
      · rw [List.concat_eq_append, ← List.cons_append, ← List.append_assoc] at hsplit
        obtain ⟨hsplit, -⟩ := List.append_inj' hsplit rfl
        have hx : x ∈ w.checked := by
          rw [hsplit]
          exact List.mem_append_right _ List.mem_cons_self
        rw [← h.verdict pre x post hsplit]
        exact ⟨fun hor => hor.resolve_right fun hxi => hnew (hxi.2 ▸ hx), .inl⟩

theorem Counted.step (h : w.Counted W b₀) (ht : w.Tracked W) (act : Act) :
    (w.step W act).Counted W b₀ := by
  cases act with
  | call c' =>
    refine ⟨h.build, fun x hx => ?_, h.checked, h.lock, h.sequence, h.verdict⟩
    obtain ⟨q, hq, hpost⟩ := h.post x hx
    exact ⟨q, (List.getElem?_append_left (List.getElem?_eq_some_iff.mp hq).1).trans hq, hpost⟩
  | step i o =>
    rw [Intake.step]
    split
    · rename_i c p hi
      exact h.advance (ht.stands i c p hi) hi o
    · exact h
  | register | cancel | subscribe | handle =>
    exact ⟨h.build, h.post, h.checked, h.lock, h.sequence, h.verdict⟩

/-- Among the calls of one signer, none that is above the mark comes after a
check that panicked. -/
theorem not_locked_of_above (hb : b₀.poisoned = false)
    (hsame : ∀ y ∈ pre, y.2.signer W = x.2.signer W) (hseq : x.2.env.sequence < 2 ^ 64)
    (habove : markAt W b₀ pre x < x.2.env.sequence) : ¬Locked W b₀ pre := by
  rintro (hpoisoned | ⟨-, l, y, m, rfl, -, hfull⟩)
  · rw [hb] at hpoisoned
    cases hpoisoned
  · obtain ⟨hfirst, hbefore⟩ := markAt_lt.mp habove
    have hsigner := hsame y (List.mem_append_right _ List.mem_cons_self)
    have hlow : markAt W b₀ l y < x.2.env.sequence := by
      refine markAt_lt.mpr ⟨hsigner ▸ hfirst, fun z hz hz' => ?_⟩
      exact hbefore z (List.mem_append_left _ hz) (hz'.trans hsigner)
    omega

/-- **Which envelopes pass**: those above the first mark and above every
envelope of their signer that was checked before, as long as no check panicked. -/
theorem Counted.run (h : w.Counted W b₀) (ht : w.Tracked W) (acts : List Act) :
    (w.run W acts).Counted W b₀ := by
  induction acts generalizing w with
  | nil => exact h
  | cons act acts ih => exact ih (h.step ht act) (ht.step act)

/-- If all that is checked is of one signer and above its first mark, only the
order of the checks counts. -/
theorem Counted.verdict_alone (h : w.Counted W b₀) (hb : b₀.poisoned = false) {fp : Fingerprint}
    (halone : ∀ y ∈ w.checked, y.2.signer W = fp ∧ b₀.sequence.high fp < y.2.env.sequence ∧
      y.2.env.sequence < 2 ^ 64) (hsplit : w.checked = pre ++ x :: m) :
    x ∈ w.passed ↔ ∀ y ∈ pre, y.2.env.sequence < x.2.env.sequence := by
  obtain ⟨hsigner, hlow, hhigh⟩ := halone x (by rw [hsplit]; simp)
  have hsame : ∀ y ∈ pre, y.2.signer W = x.2.signer W := by
    intro y hy
    rw [hsigner]
    exact (halone y (by rw [hsplit]; exact List.mem_append_left _ hy)).1
  rw [h.verdict pre x m hsplit]
  constructor
  · rintro ⟨-, habove⟩ y hy
    exact (markAt_lt.mp habove).2 y hy (hsame y hy)
  · intro hall
    have habove : markAt W b₀ pre x < x.2.env.sequence :=
      markAt_lt.mpr ⟨hsigner ▸ hlow, fun y hy _ => hall y hy⟩
    exact ⟨not_locked_of_above hb hsame hhigh habove, habove⟩

end Intake

end Counted

/-! ### Honest traffic -/

/-- The nonce of the call has been checked. -/
def Phase.Noted : Phase → Prop
  | .arrived | .checkPeer .. | .checkNonce _ => False
  | _ => True

/-- The call was refused before its sequence was checked, or at delivery. -/
def Phase.Lost : Phase → Prop
  | .refused _ | .mismatched | .mismatchedLate => True
  | _ => False

/-- A call that is admitted, carries a message, and answers only correlations
in `replies`. -/
def Call.Fits (W : MessageWire) (ctx : RequestContext) (replies : CorrelationId → Prop) (c : Call) :
    Prop :=
  c.admission W = .ok ctx ∧
    ∃ msg, c.parsed W = .ok msg ∧ ∀ id body, msg = .reply id body → replies id

section Honest

variable {ctx : RequestContext} {replies : CorrelationId → Prop} {b b' : Inbox} {c : Call}
  {p p' : Phase} {d : Option Dispatch}

/-- Whoever is waited for under a correlation in `replies` is the caller. -/
def Inbox.Expects (ctx : RequestContext) (replies : CorrelationId → Prop) (b : Inbox) : Prop :=
  ∀ id pending, replies id → b.waiters.waiters id = some pending →
    pending.expectedPeerFp = ctx.callerAgentFp

theorem Call.Fits.expected (hf : c.Fits W ctx replies) (hb : b.Expects ctx replies)
    {id : CorrelationId} {body : Bytes} {pending : PendingReply}
    (hmsg : c.parsed W = .ok (.reply id body)) (hid : b.waiters.waiters id = some pending)
    {ctx' : RequestContext} (hctx' : c.admission W = .ok ctx') :
    pending.expectedPeerFp = ctx'.callerAgentFp := by
  obtain ⟨hctx, msg, hparsed, hreplies⟩ := hf
  rw [hmsg, Except.ok.injEq] at hparsed
  obtain rfl : ctx' = ctx := Except.ok.inj (hctx'.symm.trans hctx)
  exact hb id pending (hreplies id body hparsed.symm) hid

/-- What an access does to a call of honest traffic whose nonce is its own. -/
structure Inbox.Goes (b : Inbox) (c : Call) (p : Phase) (b' : Inbox) (p' : Phase) : Prop where
  not_lost : ¬p'.Lost
  noted : p.Noted → p'.Noted
  seen : ∀ n ∈ b'.nonceCache.seen, n = c.env.nonce ∧ p'.Noted ∨ n ∈ b.nonceCache.seen
  post : p'.Post → p.Post ∨ Intake.checks p = true

theorem Inbox.Advances.goes (h : Advances W b c p b' p' d) (hs : c.Stands W p)
    (hf : c.Fits W ctx replies) (hb : b.Expects ctx replies) (hlost : ¬p.Lost)
    (hnonce : c.env.nonce ∈ b.nonceCache.seen → p.Noted) : Goes b c p b' p' := by
  cases h with
  | refuse h =>
    rw [hf.1] at h
    cases h
  | reply | other | match_ => exact ⟨id, id, fun n hn => .inr hn, fun hp => hp.elim⟩
  | mismatch h hne =>
    obtain ⟨hctx, body, hmsg⟩ := hs
    exact absurd (hf.expected hb hmsg h hctx) hne
  | replay h => exact (hnonce h).elim
  | fresh h =>
    refine ⟨id, fun _ => trivial, fun n hn => ?_, fun hp => hp.elim⟩
    rcases NonceCache.mem_of_mem_checkAndInsert hn with hn | hn
    · exact .inl ⟨hn, trivial⟩
    · exact .inr hn
  | locked | overflow | outOfOrder | pass =>
    exact ⟨id, id, fun n hn => .inr hn, fun _ => .inr rfl⟩
  | deliver | finish => exact ⟨id, id, fun n hn => .inr hn, fun _ => .inl trivial⟩
  | late hmsg h hne => exact absurd (hf.expected hb hmsg h hs) hne
  | ended => exact ⟨hlost, id, fun n hn => .inr hn, .inl⟩

namespace Intake

variable {w : Intake} {i : ℕ}

def arrivals (w : Intake) : List Call := w.calls.map (·.1)

def delivered (acts : List Act) : List Call :=
  acts.filterMap fun
    | .call c => some c
    | _ => none

theorem arrivals_set (hi : w.calls[i]? = some (c, p)) :
    (w.calls.set i (c, p')).map (·.1) = w.arrivals := by
  refine List.ext_getElem? fun j => ?_
  rw [arrivals, List.getElem?_map, List.getElem?_map, List.getElem?_set]
  by_cases hij : i = j
  · rw [if_pos hij, if_pos (List.getElem?_eq_some_iff.mp hi).1, ← hij, hi]
    rfl
  · rw [if_neg hij]

theorem arrivals_step (w : Intake) (act : Act) :
    (w.step W act).arrivals = w.arrivals ++ delivered [act] := by
  cases act with
  | call c => exact List.map_append
  | step i o =>
    rw [step]
    split
    · rename_i c p hi
      exact (arrivals_set hi).trans (List.append_nil _).symm
    · exact (List.append_nil _).symm
  | register | cancel | subscribe | handle => exact (List.append_nil _).symm

theorem arrivals_cons (w : Intake) (act : Act) (acts : List Act) :
    (w.step W act).arrivals ++ delivered acts = w.arrivals ++ delivered (act :: acts) := by
  rw [arrivals_step, List.append_assoc, delivered, delivered, ← List.filterMap_append]
  rfl

theorem arrivals_run (w : Intake) (acts : List Act) :
    (w.run W acts).arrivals = w.arrivals ++ delivered acts := by
  induction acts generalizing w with
  | nil => exact (List.append_nil _).symm
  | cons act acts ih => exact (ih _).trans (arrivals_cons w act acts)

/-- The invariant of honest traffic: every call fits, nonces are told apart, and
no call has been lost or has ended before its sequence was checked. -/
structure Honest (W : MessageWire) (ctx : RequestContext) (replies : CorrelationId → Prop)
    (w : Intake) : Prop where
  fits : ∀ c ∈ w.arrivals, c.Fits W ctx replies
  nonces : (w.arrivals.map (·.env.nonce)).Nodup
  expects : w.inbox.Expects ctx replies
  noted : ∀ (i : ℕ) (c : Call) (p : Phase), w.calls[i]? = some (c, p) →
    c.env.nonce ∈ w.inbox.nonceCache.seen → p.Noted
  phase : ∀ (i : ℕ) (c : Call) (p : Phase), w.calls[i]? = some (c, p) →
    ¬p.Lost ∧ (p.Post → (i, c) ∈ w.checked)

theorem mem_arrivals (hi : w.calls[i]? = some (c, p)) : c ∈ w.arrivals :=
  List.mem_map.mpr ⟨(c, p), List.mem_of_getElem? hi, rfl⟩

theorem Honest.place (h : w.Honest W ctx replies) {j : ℕ} {c' : Call} {q : Phase}
    (hi : w.calls[i]? = some (c, p)) (hj : w.calls[j]? = some (c', q))
    (heq : c'.env.nonce = c.env.nonce) : j = i := by
  have hget : ∀ {k : ℕ} {c : Call} {p : Phase}, w.calls[k]? = some (c, p) →
      (w.arrivals.map (·.env.nonce))[k]? = some c.env.nonce := by
    intro k c p hk
    rw [arrivals, List.getElem?_map, List.getElem?_map, hk]
    rfl
  have hj' := hget hj
  rw [heq, ← hget hi] at hj'
  have hlen := (List.getElem?_eq_some_iff.mp (hget hj)).1
  exact (List.getElem?_inj hlen h.nonces).mp hj'

/-- **One access keeps honest traffic going.** -/
theorem Honest.advance (h : w.Honest W ctx replies) (ht : w.Tracked W)
    (hi : w.calls[i]? = some (c, p)) (o : Outcome) :
    (w.advance W i c p o).Honest W ctx replies := by
  have hadv := Inbox.advance_advances (W := W) w.inbox c o p
  have hgoes := hadv.goes (ht.stands i c p hi) (h.fits c (mem_arrivals hi)) h.expects
    (h.phase i c p hi).1 (h.noted i c p hi)
  have hexpects : (w.inbox.advance W c o p).1.Expects ctx replies :=
    fun id pending hr hid => h.expects id pending hr (hadv.waiters hid)
  rw [Intake.advance]
  generalize w.inbox.advance W c o p = r at hgoes hexpects
  obtain ⟨b', p', d⟩ := r
  have hsame : (w.calls.set i (c, p')).map (·.1) = w.arrivals := arrivals_set hi
  refine ⟨?_, ?_, hexpects, fun j c' q hj hn => ?_, fun j c' q hj => ?_⟩
  · rw [arrivals, hsame]
    exact h.fits
  · rw [arrivals, hsame]
    exact h.nonces
  · rcases calls_set hi hj with ⟨rfl, hq⟩ | ⟨hij, hj⟩
    · cases hq
      rcases hgoes.seen _ hn with ⟨-, hnoted⟩ | hold
      · exact hnoted
      · exact hgoes.noted (h.noted i c p hi hold)
    · rcases hgoes.seen _ hn with ⟨heq, -⟩ | hold
      · exact absurd (h.place hi hj heq).symm hij
      · exact h.noted j c' q hj hold
  · rcases calls_set hi hj with ⟨rfl, hq⟩ | ⟨-, hj⟩
    · cases hq
      refine ⟨hgoes.not_lost, fun hpost => ?_⟩
      rcases hgoes.post hpost with hp | hp
      · exact List.mem_append_left _ ((h.phase i c p hi).2 hp)
      · simp only [hp, if_true]
        exact List.mem_append_right _ (List.mem_singleton_self _)
    · obtain ⟨hlost, hchecked⟩ := h.phase j c' q hj
      exact ⟨hlost, fun hpost => List.mem_append_left _ (hchecked hpost)⟩

/-- What is asked of the acts of honest traffic, from a world on. -/
structure Allows (W : MessageWire) (ctx : RequestContext) (replies : CorrelationId → Prop)
    (w : Intake) (acts : List Act) : Prop where
  fits : ∀ c ∈ delivered acts, c.Fits W ctx replies
  nonces : ((w.arrivals ++ delivered acts).map (·.env.nonce)).Nodup
  unseen : ∀ c ∈ delivered acts, c.env.nonce ∉ w.inbox.nonceCache.seen
  registers : ∀ id peer, Act.register id peer ∈ acts → replies id → peer = ctx.callerAgentFp

theorem mem_delivered_cons {act : Act} {acts : List Act} (h : c ∈ delivered acts) :
    c ∈ delivered (act :: acts) := by
  obtain ⟨a, ha, hc⟩ := List.mem_filterMap.mp h
  exact List.mem_filterMap.mpr ⟨a, List.mem_cons_of_mem _ ha, hc⟩

theorem nonceCache_step (w : Intake) (act : Act) :
    (w.step W act).inbox.nonceCache = w.inbox.nonceCache ∨
      ∃ c ∈ w.arrivals, (w.step W act).inbox.nonceCache =
        (w.inbox.nonceCache.checkAndInsert c.env.nonce).1 := by
  cases act with
  | step i o =>
    rw [step]
    split
    · rename_i c p hi
      have hadv := Inbox.advance_advances (W := W) w.inbox c o p
      rw [advance]
      generalize w.inbox.advance W c o p = r at hadv
      obtain ⟨b', p', d⟩ := r
      cases hadv with
      | fresh => exact .inr ⟨c, mem_arrivals hi, rfl⟩
      | refuse | reply | other | mismatch | match_ | replay | locked | overflow | outOfOrder | pass
      | deliver | late | finish | ended => exact .inl rfl
    · exact .inl rfl
  | call | register | cancel | subscribe | handle => exact .inl rfl

theorem seen_step {act : Act} {n : BitVec 192} (h : n ∈ (w.step W act).inbox.nonceCache.seen) :
    n ∈ w.inbox.nonceCache.seen ∨ ∃ c ∈ w.arrivals, c.env.nonce = n := by
  rcases nonceCache_step (W := W) w act with heq | ⟨c, hc, heq⟩
  · rw [heq] at h
    exact .inl h
  · rw [heq] at h
    rcases NonceCache.mem_of_mem_checkAndInsert h with hn | hn
    · exact .inr ⟨c, hc, hn.symm⟩
    · exact .inl hn

theorem Allows.step {act : Act} {acts : List Act} (h : Allows W ctx replies w (act :: acts)) :
    Allows W ctx replies (w.step W act) acts where
  fits c hc := h.fits c (mem_delivered_cons hc)
  nonces := by
    rw [arrivals_cons]
    exact h.nonces
  unseen c hc hn := by
    have hnodup := h.nonces
    rw [List.map_append, List.nodup_append] at hnodup
    rcases seen_step hn with hold | ⟨c', hc', heq⟩
    · exact h.unseen c (mem_delivered_cons hc) hold
    · exact hnodup.2.2 _ (List.mem_map_of_mem hc') _
        (List.mem_map_of_mem (mem_delivered_cons hc)) heq
  registers id peer hmem := h.registers id peer (List.mem_cons_of_mem _ hmem)

theorem Honest.step (h : w.Honest W ctx replies) (ht : w.Tracked W) {act : Act} {acts : List Act}
    (ha : Allows W ctx replies w (act :: acts)) : (w.step W act).Honest W ctx replies := by
  cases act with
  | call c =>
    have hc : c ∈ delivered (.call c :: acts) := List.mem_cons_self
    have harrivals := arrivals_step (W := W) w (.call c)
    refine ⟨fun c' hc' => ?_, ?_, h.expects, fun i c' p hi hn => ?_, fun i c' p hi => ?_⟩
    · rw [harrivals] at hc'
      rcases List.mem_append.mp hc' with hc' | hc'
      · exact h.fits c' hc'
      · cases List.mem_singleton.mp hc'
        exact ha.fits c hc
    · have hnodup := ha.step.nonces
      rw [List.map_append] at hnodup
      exact (List.nodup_append.mp hnodup).1
    · rcases calls_append hi with hi | hnew
      · exact h.noted i c' p hi hn
      · cases hnew
        exact absurd hn (ha.unseen c hc)
    · rcases calls_append hi with hi | hnew
      · exact h.phase i c' p hi
      · cases hnew
        exact ⟨id, fun hp => hp.elim⟩
  | step i o =>
    rw [Intake.step]
    split
    · rename_i c p hi
      exact h.advance ht hi o
    · exact h
  | register id peer =>
    refine ⟨h.fits, h.nonces, fun id' pending hr hid => ?_, h.noted, h.phase⟩
    have hid : Function.update w.inbox.waiters.waiters id
        (some ⟨w.inbox.waiters.nextToken, peer⟩) id' = some pending := hid
    by_cases heq : id' = id
    · rw [heq, Function.update_self, Option.some.injEq] at hid
      rw [← hid]
      exact ha.registers id peer List.mem_cons_self (heq ▸ hr)
    · rw [Function.update_of_ne heq] at hid
      exact h.expects id' pending hr hid
  | cancel id token =>
    exact ⟨h.fits, h.nonces,
      fun id' pending hr hid => h.expects id' pending hr (ReplyWaiter.cancel_waiters hid),
      h.noted, h.phase⟩
  | subscribe | handle => exact ⟨h.fits, h.nonces, h.expects, h.noted, h.phase⟩

theorem Honest.run (h : w.Honest W ctx replies) (ht : w.Tracked W) {acts : List Act}
    (ha : Allows W ctx replies w acts) : (w.run W acts).Honest W ctx replies := by
  induction acts generalizing w with
  | nil => exact h
  | cons act acts ih => exact ih (h.step ht ha) (ht.step act) ha.step

theorem Honest.start {b : Inbox} (hb : b.Expects ctx replies) :
    (start b).Honest W ctx replies where
  fits c hc := by simp [arrivals, Intake.start] at hc
  nonces := by simp [arrivals, Intake.start]
  expects := hb
  noted i c p hi := by simp [Intake.start] at hi
  phase i c p hi := by simp [Intake.start] at hi

end Intake

end Honest

/-! ### What becomes of a call that passes -/

theorem Inbox.dispatch_ended (b : Inbox) (ctx : RequestContext) (o : Outcome) (msg : BusMessage) :
    (b.dispatch ctx o msg).2.1.Ended := by
  cases msg with
  | request topic id body =>
    rw [dispatch]
    split <;> exact trivial
  | publish topic body => exact trivial
  | reply id body =>
    rw [dispatch]
    split <;> exact trivial

namespace Intake

/-- The call at place `i` made its dispatch in the run from `w₀`: `Inbox.dispatch`
of its message was one of the steps, and that step decided how the call ended and
what it dispatched. -/
def Served (W : MessageWire) (w₀ : Intake) (acts : List Act) (i : ℕ) (c : Call)
    (ctx : RequestContext) (msg : BusMessage) : Prop :=
  ∃ before o after, acts = before ++ .step i o :: after ∧
    let u := w₀.run W before
    let r := u.inbox.dispatch ctx o msg
    u.calls[i]? = some (c, .dispatch ctx) ∧ (u.step W (.step i o)).inbox = r.1 ∧
    (w₀.run W acts).calls[i]? = some (c, r.2.1) ∧
    ∀ d, (i, c, d) ∈ (w₀.run W acts).dispatched ↔ r.2.2 = some d

variable {w : Intake} {act : Act} {i : ℕ} {c : Call} {p : Phase}

/-- A step leaves a call alone that it does not advance, or that has ended. -/
theorem step_frame (hi : w.calls[i]? = some (c, p)) (h : (∀ o, act ≠ .step i o) ∨ p.Ended) :
    (w.step W act).calls[i]? = some (c, p) ∧
      ∀ d, (i, c, d) ∈ (w.step W act).dispatched ↔ (i, c, d) ∈ w.dispatched := by
  have hlen : i < w.calls.length := (List.getElem?_eq_some_iff.mp hi).1
  cases act with
  | call c' => exact ⟨(List.getElem?_append_left hlen).trans hi, fun d => Iff.rfl⟩
  | step j o =>
    rw [step]
    split
    · rename_i c' q hj
      by_cases hij : j = i
      · subst hij
        rw [hi] at hj
        cases hj
        obtain ⟨-, hsame, hnone⟩ := (Inbox.advance_advances (W := W) w.inbox c o p).of_ended
          (h.resolve_left fun hne => hne o rfl)
        refine ⟨?_, fun d => ?_⟩
        · rw [advance, hsame, List.getElem?_set, if_pos rfl, if_pos hlen]
        · rw [advance, hnone, Option.toList_none, List.map_nil, List.append_nil]
      · refine ⟨?_, fun d => ?_⟩
        · rw [advance, List.getElem?_set, if_neg hij]
          exact hi
        · rw [advance, List.mem_append, List.mem_map]
          refine or_iff_left ?_
          rintro ⟨d', -, heq⟩
          exact hij (Prod.mk.inj heq).1
    · exact ⟨hi, fun d => Iff.rfl⟩
  | register | cancel | subscribe | handle => exact ⟨hi, fun d => Iff.rfl⟩

theorem passed_step {x : ℕ × Call} (h : x ∈ (w.step W act).passed) :
    x ∈ w.passed ∨ ∃ ctx, (w.step W act).calls[x.1]? = some (x.2, .dispatch ctx) := by
  cases act with
  | step j o =>
    rw [step] at h ⊢
    split at h
    · rename_i c q hj
      have hlen : j < w.calls.length := (List.getElem?_eq_some_iff.mp hj).1
      rcases List.mem_append.mp h with h | h
      · exact .inl h
      · split at h
        · rename_i hpass
          rw [List.mem_singleton.mp h, advance]
          generalize (w.inbox.advance W c o q).2.1 = q' at hpass
          refine .inr ?_
          rw [List.getElem?_set, if_pos rfl, if_pos hlen]
          unfold passes at hpass
          split at hpass
          · exact ⟨_, rfl⟩
          · cases hpass
        · cases h
    · exact .inl h
  | call | register | cancel | subscribe | handle => exact .inl h

theorem Served.snoc {w₀ : Intake} {acts : List Act} {ctx : RequestContext} {msg : BusMessage}
    (h : Served W w₀ acts i c ctx msg) (act : Act) : Served W w₀ (acts ++ [act]) i c ctx msg := by
  obtain ⟨before, o, after, hacts, hbefore, hinbox, hcall, hdispatched⟩ := h
  have hended : (∀ o, act ≠ .step i o) ∨
      ((w₀.run W before).inbox.dispatch ctx o msg).2.1.Ended := .inr (Inbox.dispatch_ended _ _ _ _)
  obtain ⟨hcall', hdispatched'⟩ := step_frame (W := W) hcall hended
  refine ⟨before, o, after ++ [act], by rw [hacts]; simp, hbefore, hinbox, ?_, fun d => ?_⟩
  · rw [run_append]
    exact hcall'
  · rw [run_append, ← hdispatched d]
    exact hdispatched' d

/-- **A call that passed is about to be dispatched, or was.** -/
theorem served_run (b : Inbox) (acts : List Act) {x : ℕ × Call} {ctx : RequestContext}
    {msg : BusMessage} (hx : x ∈ ((start b).run W acts).passed)
    (hctx : x.2.admission W = .ok ctx) (hmsg : x.2.parsed W = .ok msg) :
    ((start b).run W acts).calls[x.1]? = some (x.2, .dispatch ctx) ∨
      Served W (start b) acts x.1 x.2 ctx msg := by
  induction acts using List.reverseRecOn with
  | nil => cases hx
  | append_singleton acts act ih =>
    have htracked : ((start b).run W acts).Tracked W := (Tracked.start b).run acts
    rw [run_append] at hx
    rcases passed_step hx with hold | ⟨ctx', hnew⟩
    · rcases ih hold with hnext | hserved
      · by_cases hact : ∃ o, act = .step x.1 o
        · -- its dispatch is this step
          obtain ⟨o, rfl⟩ := hact
          have hlen := (List.getElem?_eq_some_iff.mp hnext).1
          have hstep : ((start b).run W acts).step W (.step x.1 o) =
              ((start b).run W acts).advance W x.1 x.2 (.dispatch ctx) o := by
            rw [step, hnext]
          have hadvance : ((start b).run W acts).inbox.advance W x.2 o (.dispatch ctx) =
              ((start b).run W acts).inbox.dispatch ctx o msg := by
            rw [Inbox.advance, hmsg]
          refine .inr ⟨acts, o, [], rfl, hnext, ?_, ?_, fun d => ?_⟩
          · rw [hstep, advance, hadvance]
          · rw [run_append]
            show (((start b).run W acts).step W (.step x.1 o)).calls[x.1]? = _
            rw [hstep, advance, hadvance, List.getElem?_set, if_pos rfl, if_pos hlen]
          · have hnot : (x.1, x.2, d) ∉ ((start b).run W acts).dispatched := by
              intro hmem
              obtain ⟨c, p, hp, hended⟩ := (htracked.ended _ hmem).2
              rw [hnext] at hp
              cases hp
              exact hended
            rw [run_append]
            show _ ∈ (((start b).run W acts).step W (.step x.1 o)).dispatched ↔ _
            rw [hstep, advance, hadvance, List.mem_append, or_iff_right hnot]
            cases (((start b).run W acts).inbox.dispatch ctx o msg).2.2 <;> simp [eq_comm]
        · rw [run_append]
          exact .inl (step_frame hnext (.inl fun o ho => hact ⟨o, ho⟩)).1
      · exact .inr (hserved.snoc act)
    · have hstands := (htracked.step act).stands _ _ _ hnew
      rw [run_append]
      obtain rfl : ctx' = ctx := Except.ok.inj (hstands.symm.trans hctx)
      exact .inl hnew

end Intake

/-! ### The theorem -/

/-- The call for an envelope of `sender` that it carries itself. -/
def carriedBy (sender : AgentKey W.toCrypto) (localUserFp localAgentFp : Fingerprint)
    (env : SignedEnvelope) : Call :=
  ⟨env, .direct ⟨localUserFp, sender.fingerprint⟩, localUserFp, localAgentFp⟩

/-- The correlations a bus answers. -/
def answers (sends : List Send) (id : CorrelationId) : Prop :=
  ∃ send ∈ sends, ∃ body, send.msg = .reply id body

/-- **Concurrent sends are dispatched in the order of their numbers.**  One bus
makes any number of sends to another, each delivered once and in any order, and
nothing else reaches the receiver, whose build is any and whose tracker has not
panicked before.  However the calls interleave, none ends before its sequence is
checked; an envelope passes exactly if its sequence is above that of every
envelope checked before it; one that passed is about to be dispatched, or was: a
step applied the dispatch of its message, which decided how its call ended; and
nothing else is dispatched.  So if the checks come in the order of the sequences,
all of them pass. -/
theorem concurrent_sends_ordered (hC : W.toCrypto.Correct) (hW : W.Lawful)
    {sender : AgentKey W.toCrypto} {localUserFp localAgentFp : Fingerprint}
    (hkey : W.keyError sender.cert.agentPubkey = none)
    (hcert : sender.cert.verifyInner W.toCrypto none = .ok ())
    (huser : sender.cert.userFingerprint W.toCrypto = localUserFp) (s : Sequencer)
    {sends : List Send} (hnonces : (sends.map (·.nonce)).Nodup) {b : Inbox}
    (hsound : b.poisoned = false)
    (hfresh : ∀ send ∈ sends, send.nonce ∉ b.nonceCache.seen)
    (hmark : b.sequence.high sender.fingerprint ≤ s.last)
    (hwaiters : ∀ id pending, answers sends id → b.waiters.waiters id = some pending →
      pending.expectedPeerFp = sender.fingerprint)
    {acts : List Intake.Act}
    (hdelivered : (Intake.delivered acts).Perm
      ((sent sender localAgentFp s sends).map (carriedBy sender localUserFp localAgentFp)))
    (hregisters : ∀ id peer, Intake.Act.register id peer ∈ acts → answers sends id →
      peer = sender.fingerprint) :
    let w := (Intake.start b).run W acts
    (∀ (i : ℕ) (c : Call) (p : Phase), w.calls[i]? = some (c, p) →
      ¬p.Lost ∧ (p.Ended → (i, c) ∈ w.checked)) ∧
    (∀ pre i c post, w.checked = pre ++ (i, c) :: post →
      ((i, c) ∈ w.passed ↔ ∀ x ∈ pre, x.2.env.sequence < c.env.sequence)) ∧
    (∀ x ∈ w.passed, ∃ (ctx : RequestContext) (msg : BusMessage),
      x.2.admission W = .ok ctx ∧ x.2.parsed W = .ok msg ∧
      (w.calls[x.1]? = some (x.2, .dispatch ctx) ∨
        Intake.Served W (.start b) acts x.1 x.2 ctx msg)) ∧
    (∀ d ∈ w.dispatched, (d.1, d.2.1) ∈ w.passed) ∧
    ((w.checked.Pairwise fun x y => x.2.env.sequence < y.2.env.sequence) →
      ∀ x ∈ w.checked, x ∈ w.passed) := by
  intro w
  have hcalls : ∀ c ∈ Intake.delivered acts, ∃ send ∈ sends, ∃ seq,
      (s.last < seq ∧ seq < 2 ^ 64) ∧ c = carriedBy sender localUserFp localAgentFp
        (.new (W := W.toWire) sender send.nonce (.direct localAgentFp) seq
          (W.messageJson send.msg)) := by
    intro c hc
    obtain ⟨env, henv, rfl⟩ := List.mem_map.mp (hdelivered.mem_iff.mp hc)
    obtain ⟨send, hsend, seq, hseq, rfl⟩ := mem_sent henv
    exact ⟨send, hsend, seq, hseq, rfl⟩
  have hallows : Intake.Allows W ⟨localUserFp, sender.fingerprint⟩ (answers sends)
      (Intake.start b) acts := by
    refine ⟨fun c hc => ?_, ?_, fun c hc => ?_, hregisters⟩
    · obtain ⟨send, hsend, seq, -, rfl⟩ := hcalls c hc
      refine ⟨admit_new hC hkey hcert huser _ _ _, send.msg, hW send.msg, fun id body hmsg => ?_⟩
      exact ⟨send, hsend, body, hmsg⟩
    · have hperm := hdelivered.map fun c : Call => c.env.nonce
      refine hperm.nodup_iff.mpr ?_
      rw [List.map_map]
      exact sent_nonces hnonces
    · obtain ⟨send, hsend, seq, -, rfl⟩ := hcalls c hc
      exact hfresh send hsend
  have htracked := Intake.Tracked.start (W := W) b
  have hexpects : b.Expects ⟨localUserFp, sender.fingerprint⟩ (answers sends) := hwaiters
  have hhonest : w.Honest W _ _ := (Intake.Honest.start hexpects).run htracked hallows
  have hcounted : w.Counted W b := (Intake.Counted.start b).run htracked acts
  -- what is known of every call that was checked
  have hchecked : ∀ x ∈ w.checked, x.2.signer W = sender.fingerprint ∧
      b.sequence.high sender.fingerprint < x.2.env.sequence ∧ x.2.env.sequence < 2 ^ 64 := by
    intro x hx
    obtain ⟨p, hp, -⟩ := hcounted.post x hx
    have hmem := Intake.mem_arrivals hp
    refine ⟨(admit_signer (hhonest.fits x.2 hmem).1).symm, ?_⟩
    rw [Intake.arrivals_run] at hmem
    obtain ⟨send, -, seq, hseq, heq⟩ := hcalls x.2 hmem
    rw [heq]
    exact ⟨Nat.lt_of_le_of_lt hmark hseq.1, hseq.2⟩
  refine ⟨fun i c p hi => ?_, fun pre i c post h => hcounted.verdict_alone hsound hchecked h,
    fun x hx => ?_, fun d hd => ((htracked.run acts).ended d hd).1, fun hsorted x hx => ?_⟩
  · obtain ⟨hlost, hpost⟩ := hhonest.phase i c p hi
    refine ⟨hlost, fun hended => hpost ?_⟩
    cases p <;> first | exact trivial | exact hended.elim
  · obtain ⟨p, hp, -⟩ := hcounted.post x (hcounted.checked x hx)
    obtain ⟨hctx, msg, hmsg, -⟩ := hhonest.fits x.2 (Intake.mem_arrivals hp)
    exact ⟨_, msg, hctx, hmsg, Intake.served_run b acts hx hctx hmsg⟩
  · obtain ⟨pre, post, hsplit⟩ := List.append_of_mem hx
    refine (hcounted.verdict_alone hsound hchecked hsplit).mpr fun y hy => ?_
    rw [hsplit, List.pairwise_append] at hsorted
    exact hsorted.2.2 y hy x List.mem_cons_self

namespace Small

def sends : List Send := [⟨none, 5, .publish "t" [1]⟩, ⟨none, 6, .publish "t" [2]⟩]

noncomputable def sentCalls : List Call :=
  (sent (W := wire) (key 2) ⟨1⟩ (.after 0) sends).map (carriedBy (W := wire) (key 2) ⟨9⟩ ⟨1⟩)

theorem wire_lawful : wire.Lawful := fun msg => okOr_ok.mpr (Flock.recalled_tabled messages msg)

/-- Both envelopes arrive; the calls in `order` run to their ends one after
another. -/
noncomputable def arriving (order : List ℕ) : List Intake.Act :=
  .subscribe "t" :: sentCalls.map .call ++
    order.flatMap fun i => List.replicate 4 (.step i outcome)

end Small

set_option maxRecDepth 100000 in
theorem concurrent_sends_ordered_two :
    let w := (Intake.start (.new .checked)).run Small.wire (Small.arriving [0, 1])
    w.calls.map (·.2) = [.done (.ok none), .done (.ok none)] ∧
      w.dispatched.map (fun d => (d.1, d.2.2)) =
        [(0, .published "t" [1]), (1, .published "t" [2])] ∧
      ∀ x ∈ w.checked, x ∈ w.passed := by
  intro w
  have hdelivered : (Intake.delivered (Small.arriving [0, 1])).Perm
      ((sent (W := Small.wire) (Small.key 2) ⟨1⟩ (.after 0) Small.sends).map
        (carriedBy (W := Small.wire) (Small.key 2) ⟨9⟩ ⟨1⟩)) := .refl _
  have hall := concurrent_sends_ordered (W := Small.wire) (idealCrypto_correct _)
    Small.wire_lawful (by rfl) (by decide +kernel) (by rfl) (.after 0) (by decide)
    (b := .new .checked) rfl (fun _ _ => by simp [Inbox.new]) (Nat.le_refl 0)
    (fun _ _ _ h => by cases h) hdelivered (fun id peer hmem => by simp [Small.arriving] at hmem)
  refine ⟨by decide +kernel, by decide +kernel, hall.2.2.2.2 ?_⟩
  decide +kernel

/-! The second envelope is checked first, and the first one is lost. -/

set_option maxRecDepth 100000 in
theorem concurrent_send_lost :
    let acts := Small.arriving [1, 0]
    let w := (Intake.start (.new .checked)).run Small.wire acts
    Intake.delivered acts = Small.sentCalls ∧
      w.calls.map (·.2) = [.done (.error (.badSequence "kk" 3 1)), .done (.ok none)] ∧
      w.dispatched.map (fun d => (d.1, d.2.2)) = [(1, .published "t" [2])] := by
  refine ⟨rfl, by decide +kernel, by decide +kernel⟩

end Bus
