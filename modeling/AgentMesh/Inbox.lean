/-
The inbox: message dispatch behind replay checks.

`on_envelope` is run by one task per inbound envelope, and its accesses to the
shared tables are separate critical sections: the responder check of a reply,
the nonce check, the sequence check, the dispatch.  A call is therefore a small
machine, `Inbox.advance` being one access, and an `Intake` is an inbox with any
number of calls in flight, advanced in any order.  A rejected sequence is answered
with the next one; where that is no `u64`, a build with checked additions panics
with the lock of the tracker held, and every later check panics.

* `ReplyWaiter` — the in-flight requests, each bound to its responder;
* `Inbox.Advances` — everything one access can do, in one place;
* `Inbox.onEnvelope` — a call that runs with no other in between.
-/
import AgentMesh.Envelope
import AgentMesh.Replay

open Mesh

namespace Bus

/-! ### Request-reply correlation -/

structure CorrelationId where
  bytes : BitVec 128
  deriving DecidableEq

/-- An in-flight request: which registration it is, and who may answer. -/
structure PendingReply where
  token : ℕ
  expectedPeerFp : Fingerprint
  deriving DecidableEq

/-- The in-flight requests by correlation. -/
structure ReplyWaiter where
  waiters : CorrelationId → Option PendingReply
  nextToken : ℕ

inductive ReplyDelivery where
  | delivered (token : ℕ)
  | unknown
  | peerMismatch (expectedPeerFp actualPeerFp : Fingerprint)
  | receiverDropped
  deriving DecidableEq

/-- The result of the responder check made before replay state changes. -/
inductive ReplyPeerCheck where
  | expected
  | unknown
  | peerMismatch (expectedPeerFp actualPeerFp : Fingerprint)
  deriving DecidableEq

namespace ReplyWaiter

/-- Bind a correlation to its responder; an earlier registration is replaced. -/
def register (w : ReplyWaiter) (id : CorrelationId) (expectedPeerFp : Fingerprint) :
    ReplyWaiter where
  waiters := Function.update w.waiters id (some ⟨w.nextToken, expectedPeerFp⟩)
  nextToken := w.nextToken + 1

/-- Deliver a reply signed by `actualPeerFp`; `dropped` if its receiver goes
away while it is delivered. -/
def deliver (w : ReplyWaiter) (id : CorrelationId) (actualPeerFp : Fingerprint) (dropped : Bool) :
    ReplyWaiter × ReplyDelivery :=
  match w.waiters id with
  | none => (w, .unknown)
  | some pending =>
    if pending.expectedPeerFp ≠ actualPeerFp then
      (w, .peerMismatch pending.expectedPeerFp actualPeerFp)
    else
      ({ w with waiters := Function.update w.waiters id none },
        if dropped then .receiverDropped else .delivered pending.token)

/-- Whether `actualPeerFp` is the expected signer; nothing is consumed. -/
def checkPeer (w : ReplyWaiter) (id : CorrelationId) (actualPeerFp : Fingerprint) :
    ReplyPeerCheck :=
  match w.waiters id with
  | none => .unknown
  | some pending =>
    if pending.expectedPeerFp = actualPeerFp then .expected
    else .peerMismatch pending.expectedPeerFp actualPeerFp

/-- Remove a waiter, if it is still that registration. -/
def cancel (w : ReplyWaiter) (id : CorrelationId) (token : ℕ) : ReplyWaiter :=
  if (w.waiters id).any fun pending => decide (pending.token = token) then
    { w with waiters := Function.update w.waiters id none }
  else w

end ReplyWaiter

/-! ### Messages -/

/-- An application-level message, the payload of an envelope. -/
inductive BusMessage where
  | request (topic : String) (correlation : CorrelationId) (body : Bytes)
  | reply (correlation : CorrelationId) (body : Bytes)
  | publish (topic : String) (body : Bytes)
  deriving DecidableEq

/-- What the bus sends back for a handled request. -/
structure OutgoingReply where
  peerFp : Fingerprint
  correlation : CorrelationId
  body : Bytes
  deriving DecidableEq

/-- The wire with the JSON of messages. -/
structure MessageWire extends Wire where
  messageJson : BusMessage → Bytes
  messageOfJson : Bytes → Except String BusMessage

/-- A message is read back as it was written. -/
def MessageWire.Lawful (W : MessageWire) : Prop :=
  ∀ msg, W.messageOfJson (W.messageJson msg) = .ok msg

/-- One call of `on_envelope`. -/
structure Call where
  env : SignedEnvelope
  provenance : DeliveryProvenance
  localUserFp : Fingerprint
  localAgentFp : Fingerprint
  deriving DecidableEq

/-- What an envelope did to the application. -/
inductive Dispatch where
  /-- A handler was called. -/
  | handled (topic : String) (ctx : RequestContext) (body : Bytes)
  /-- Subscribers were sent the body. -/
  | published (topic : String) (body : Bytes)
  /-- The waiter with this token got the body. -/
  | delivered (token : ℕ) (body : Bytes)
  deriving DecidableEq

/-- Whether an addition that does not fit panics (`dev` and `test` builds) or
wraps (`release`). -/
inductive Build where
  | checked
  | wrapping
  deriving DecidableEq

/-- Why a call panics. -/
inductive Panic where
  /-- seq tracker poisoned -/
  | poisoned
  /-- attempt to add with overflow -/
  | overflow
  deriving DecidableEq

/-- Where a call stands: the access it makes next, or how it ended. -/
inductive Phase where
  | arrived
  /-- A reply: the responder check is next. -/
  | checkPeer (ctx : RequestContext) (correlation : CorrelationId)
  | checkNonce (ctx : RequestContext)
  | checkSequence (ctx : RequestContext)
  /-- The replay checks are passed. -/
  | dispatch (ctx : RequestContext)
  /-- Refused by the immutable checks. -/
  | refused (e : BusError)
  /-- A reply refused by the responder check. -/
  | mismatched
  /-- A reply refused by the comparison repeated at delivery. -/
  | mismatchedLate
  /-- The task died in the sequence check. -/
  | panicked (why : Panic)
  | done (result : Except BusError (Option OutgoingReply))
  deriving DecidableEq

/-- A call in this phase makes no more accesses. -/
def Phase.Ended : Phase → Prop
  | .refused _ | .mismatched | .mismatchedLate | .panicked _ | .done _ => True
  | _ => False

/-- What is outside the inbox in one access: the handler's answer, and whether
a reply's receiver goes away as it is delivered. -/
structure Outcome where
  answer : Except BusError Bytes
  dropped : Bool

/-- The routing tables and replay defence of one bus. -/
structure Inbox where
  build : Build
  nonceCache : NonceCache (BitVec 192)
  sequence : SequenceTracker Fingerprint
  /-- A task panicked with the lock of `sequence` held. -/
  poisoned : Bool
  waiters : ReplyWaiter
  /-- The topics with a subscription. -/
  subscriptions : String → Bool
  /-- The topics with a request handler. -/
  handlers : String → Bool

/-- A fresh, empty inbox: its nonce cache has 4096 entries. -/
def Inbox.new (build : Build) : Inbox where
  build := build
  nonceCache := ⟨4096, ∅, [], by simp, List.nodup_nil, Nat.zero_le _⟩
  sequence := .new
  poisoned := false
  waiters := ⟨fun _ => none, 0⟩
  subscriptions _ := false
  handlers _ := false

variable (W : MessageWire)

namespace Call

def signer (c : Call) : Fingerprint := c.env.senderAgentFp W.toWire

def admission (c : Call) : Except BusError RequestContext :=
  admitEnvelope W.toWire c.env c.provenance c.localUserFp c.localAgentFp

def parsed (c : Call) : Except String BusMessage := W.messageOfJson c.env.payload

/-- The first access: admission; a reply goes to the responder check. -/
def start (c : Call) : Phase :=
  match c.admission W with
  | .error e => .refused e
  | .ok ctx =>
    match c.parsed W with
    | .ok (.reply correlation _) => .checkPeer ctx correlation
    | _ => .checkNonce ctx

end Call

namespace Inbox

/-- The dispatch of a message that passed the replay checks. -/
def dispatch (b : Inbox) (ctx : RequestContext) (o : Outcome) :
    BusMessage → Inbox × Phase × Option Dispatch
  | .request topic correlation body =>
    if b.handlers topic then
      (b, .done (o.answer.map fun answer => some ⟨ctx.callerAgentFp, correlation, answer⟩),
        some (.handled topic ctx body))
    else (b, .done (.ok none), none)
  | .reply correlation body =>
    match b.waiters.deliver correlation ctx.callerAgentFp o.dropped with
    | (w, .delivered token) =>
      ({ b with waiters := w }, .done (.ok none), some (.delivered token body))
    | (w, .peerMismatch _ _) => ({ b with waiters := w }, .mismatchedLate, none)
    | (w, .unknown) => ({ b with waiters := w }, .done (.ok none), none)
    | (w, .receiverDropped) => ({ b with waiters := w }, .done (.ok none), none)
  | .publish topic body =>
    (b, .done (.ok none), if b.subscriptions topic then some (.published topic body) else none)

/-- One access of a call. -/
def advance (b : Inbox) (c : Call) (o : Outcome) : Phase → Inbox × Phase × Option Dispatch
  | .arrived => (b, c.start W, none)
  | .checkPeer ctx correlation =>
    match b.waiters.checkPeer correlation ctx.callerAgentFp with
    | .peerMismatch _ _ => (b, .mismatched, none)
    | _ => (b, .checkNonce ctx, none)
  | .checkNonce ctx =>
    if (b.nonceCache.checkAndInsert c.env.nonce).2 then
      ({ b with nonceCache := (b.nonceCache.checkAndInsert c.env.nonce).1 }, .checkSequence ctx,
        none)
    else (b, .done (.error .replay), none)
  | .checkSequence ctx =>
    if b.poisoned then (b, .panicked .poisoned, none)
    else
      match b.sequence.checkAndAdvance ctx.callerAgentFp c.env.sequence with
      | (t, .ok ()) => ({ b with sequence := t }, .dispatch ctx, none)
      | (t, .error (expected, actual)) =>
        -- a rejection adds one to the mark, with the lock held
        if b.build = .checked ∧ 2 ^ 64 ≤ b.sequence.high ctx.callerAgentFp + 1 then
          ({ b with poisoned := true }, .panicked .overflow, none)
        else
          ({ b with sequence := t },
            .done (.error (.badSequence (ctx.callerAgentFp.hex W.toCrypto) expected actual)), none)
  | .dispatch ctx =>
    match c.parsed W with
    | .error e => (b, .done (.error (.json e)), none)
    | .ok msg => b.dispatch ctx o msg
  -- a call that has ended makes no access
  | p => (b, p, none)

/-- A call run to its end with no other in between: the inbox, how it ended and
what it dispatched. -/
def onEnvelope (b : Inbox) (c : Call) (o : Outcome) : Inbox × Phase × Option Dispatch :=
  let r1 := b.advance W c o .arrived
  let r2 := r1.1.advance W c o r1.2.1
  let r3 := r2.1.advance W c o r2.2.1
  let r4 := r3.1.advance W c o r3.2.1
  let r5 := r4.1.advance W c o r4.2.1
  (r5.1, r5.2.1, r4.2.2.or r5.2.2)

end Inbox

/-! ### Calls in flight -/

/-- An inbox with calls in flight, and a record of what passed and of what was
dispatched, in order.  A call is known by its place. -/
structure Intake where
  inbox : Inbox
  calls : List (Call × Phase)
  /-- The calls whose sequence was checked. -/
  checked : List (ℕ × Call)
  /-- The calls that passed the replay checks. -/
  passed : List (ℕ × Call)
  dispatched : List (ℕ × Call × Dispatch)

namespace Intake

def start (b : Inbox) : Intake := ⟨b, [], [], [], []⟩

/-- What happens to an inbox: a call arrives, a call makes its next access, or
the application changes a table. -/
inductive Act where
  | call (c : Call)
  | step (i : ℕ) (o : Outcome)
  | register (id : CorrelationId) (peer : Fingerprint)
  | cancel (id : CorrelationId) (token : ℕ)
  | subscribe (topic : String)
  | handle (topic : String)

/-- The phases around a passed sequence check. -/
def passes : Phase → Phase → Bool
  | .checkSequence _, .dispatch _ => true
  | _, _ => false

def checks : Phase → Bool
  | .checkSequence _ => true
  | _ => false

/-- The call at place `i` makes its next access. -/
def advance (w : Intake) (i : ℕ) (c : Call) (p : Phase) (o : Outcome) : Intake :=
  let r := w.inbox.advance W c o p
  { inbox := r.1
    calls := w.calls.set i (c, r.2.1)
    checked := w.checked ++ (if checks p then [(i, c)] else [])
    passed := w.passed ++ (if passes p r.2.1 then [(i, c)] else [])
    dispatched := w.dispatched ++ r.2.2.toList.map fun d => (i, c, d) }

def step (w : Intake) : Act → Intake
  | .call c => { w with calls := w.calls ++ [(c, .arrived)] }
  | .step i o =>
    match w.calls[i]? with
    | some (c, p) => w.advance W i c p o
    | none => w
  | .register id peer =>
    { w with inbox := { w.inbox with waiters := w.inbox.waiters.register id peer } }
  | .cancel id token =>
    { w with inbox := { w.inbox with waiters := w.inbox.waiters.cancel id token } }
  | .subscribe topic =>
    { w with inbox := { w.inbox with
        subscriptions := Function.update w.inbox.subscriptions topic true } }
  | .handle topic =>
    { w with inbox := { w.inbox with handlers := Function.update w.inbox.handlers topic true } }

def run (w : Intake) (acts : List Act) : Intake := acts.foldl (step W) w

variable {W} in
theorem run_append (w : Intake) (acts acts' : List Act) :
    w.run W (acts ++ acts') = (w.run W acts).run W acts' :=
  List.foldl_append

end Intake

/-! ### What one access can do -/

variable {W}

/-- Everything one access of a call can do, by the phase it is in. -/
inductive Inbox.Advances (W : MessageWire) (b : Inbox) (c : Call) :
    Phase → Inbox → Phase → Option Dispatch → Prop where
  | refuse {e : BusError} (h : c.admission W = .error e) :
      Advances W b c .arrived b (.refused e) none
  | reply {ctx : RequestContext} {id : CorrelationId} {body : Bytes} (h : c.admission W = .ok ctx)
      (hmsg : c.parsed W = .ok (.reply id body)) :
      Advances W b c .arrived b (.checkPeer ctx id) none
  | other {ctx : RequestContext} (h : c.admission W = .ok ctx)
      (hmsg : ∀ id body, c.parsed W ≠ .ok (.reply id body)) :
      Advances W b c .arrived b (.checkNonce ctx) none
  | mismatch {ctx : RequestContext} {id : CorrelationId} {pending : PendingReply}
      (h : b.waiters.waiters id = some pending) (hne : pending.expectedPeerFp ≠ ctx.callerAgentFp) :
      Advances W b c (.checkPeer ctx id) b .mismatched none
  | match_ {ctx : RequestContext} {id : CorrelationId}
      (h : ∀ pending, b.waiters.waiters id = some pending →
        pending.expectedPeerFp = ctx.callerAgentFp) :
      Advances W b c (.checkPeer ctx id) b (.checkNonce ctx) none
  | replay {ctx : RequestContext} (h : c.env.nonce ∈ b.nonceCache.seen) :
      Advances W b c (.checkNonce ctx) b (.done (.error .replay)) none
  | fresh {ctx : RequestContext} (h : c.env.nonce ∉ b.nonceCache.seen) :
      Advances W b c (.checkNonce ctx)
        { b with nonceCache := (b.nonceCache.checkAndInsert c.env.nonce).1 } (.checkSequence ctx)
        none
  | locked {ctx : RequestContext} (h : b.poisoned = true) :
      Advances W b c (.checkSequence ctx) b (.panicked .poisoned) none
  | overflow {ctx : RequestContext} (hsound : b.poisoned = false) (hbuild : b.build = .checked)
      (h : c.env.sequence ≤ b.sequence.high ctx.callerAgentFp)
      (hfull : 2 ^ 64 ≤ b.sequence.high ctx.callerAgentFp + 1) :
      Advances W b c (.checkSequence ctx) { b with poisoned := true } (.panicked .overflow) none
  | outOfOrder {ctx : RequestContext} (hsound : b.poisoned = false)
      (h : c.env.sequence ≤ b.sequence.high ctx.callerAgentFp)
      (hroom : ¬(b.build = .checked ∧ 2 ^ 64 ≤ b.sequence.high ctx.callerAgentFp + 1)) :
      Advances W b c (.checkSequence ctx) b (.done (.error (.badSequence
        (ctx.callerAgentFp.hex W.toCrypto) ((b.sequence.high ctx.callerAgentFp + 1) % 2 ^ 64)
        c.env.sequence))) none
  | pass {ctx : RequestContext} (hsound : b.poisoned = false)
      (h : b.sequence.high ctx.callerAgentFp < c.env.sequence) :
      Advances W b c (.checkSequence ctx)
        { b with sequence := (b.sequence.checkAndAdvance ctx.callerAgentFp c.env.sequence).1 }
        (.dispatch ctx) none
  | deliver {ctx : RequestContext} {id : CorrelationId} {body : Bytes} {pending : PendingReply}
      {d : Option Dispatch} (hmsg : c.parsed W = .ok (.reply id body))
      (h : b.waiters.waiters id = some pending) (heq : pending.expectedPeerFp = ctx.callerAgentFp) :
      Advances W b c (.dispatch ctx)
        { b with waiters :=
          { b.waiters with waiters := Function.update b.waiters.waiters id none } }
        (.done (.ok none)) d
  | late {ctx : RequestContext} {id : CorrelationId} {body : Bytes} {pending : PendingReply}
      (hmsg : c.parsed W = .ok (.reply id body)) (h : b.waiters.waiters id = some pending)
      (hne : pending.expectedPeerFp ≠ ctx.callerAgentFp) :
      Advances W b c (.dispatch ctx) b .mismatchedLate none
  | finish {ctx : RequestContext} {result : Except BusError (Option OutgoingReply)}
      {d : Option Dispatch} : Advances W b c (.dispatch ctx) b (.done result) d
  | ended {p : Phase} (h : p.Ended) : Advances W b c p b p none

namespace ReplyWaiter

variable {w : ReplyWaiter} {id : CorrelationId} {peer : Fingerprint} {pending : PendingReply}

theorem of_removed {waiters : CorrelationId → Option PendingReply} {id' : CorrelationId}
    (h : Function.update waiters id none id' = some pending) : waiters id' = some pending := by
  by_cases heq : id' = id
  · rw [heq, Function.update_self] at h
    cases h
  · rwa [Function.update_of_ne heq] at h

theorem cancel_waiters {token : ℕ} {id' : CorrelationId}
    (h : (w.cancel id token).waiters id' = some pending) : w.waiters id' = some pending := by
  rw [cancel] at h
  split at h
  · exact of_removed h
  · exact h

theorem deliver_unknown (h : w.waiters id = none) (dropped : Bool) :
    w.deliver id peer dropped = (w, .unknown) := by
  simp only [deliver, h]

theorem deliver_expected (h : w.waiters id = some pending) (heq : pending.expectedPeerFp = peer)
    (dropped : Bool) :
    w.deliver id peer dropped = ({ w with waiters := Function.update w.waiters id none },
      if dropped then .receiverDropped else .delivered pending.token) := by
  simp only [deliver, h, heq, ne_eq, not_true_eq_false, if_false]

theorem deliver_mismatch (h : w.waiters id = some pending) (hne : pending.expectedPeerFp ≠ peer)
    (dropped : Bool) :
    w.deliver id peer dropped = (w, .peerMismatch pending.expectedPeerFp peer) := by
  simp only [deliver, h, hne, ne_eq, not_false_eq_true, if_true]

end ReplyWaiter

namespace Inbox

variable {b : Inbox} {c : Call}

theorem start_advances : Advances W b c .arrived b (c.start W) none := by
  rw [Call.start]
  split
  · rename_i e h
    exact .refuse h
  · rename_i ctx h
    split
    · rename_i id body hmsg
      exact .reply h hmsg
    · rename_i hmsg
      exact .other h fun id body hreply => hmsg id body hreply

theorem dispatch_advances {ctx : RequestContext} {o : Outcome} {msg : BusMessage}
    (hmsg : c.parsed W = .ok msg) :
    Advances W b c (.dispatch ctx) (b.dispatch ctx o msg).1 (b.dispatch ctx o msg).2.1
      (b.dispatch ctx o msg).2.2 := by
  cases msg with
  | request topic id body =>
    rw [dispatch]
    split <;> exact .finish
  | publish topic body => exact .finish
  | reply id body =>
    cases hw : b.waiters.waiters id with
    | none =>
      simp only [dispatch, ReplyWaiter.deliver_unknown hw]
      exact .finish
    | some pending =>
      by_cases heq : pending.expectedPeerFp = ctx.callerAgentFp
      · simp only [dispatch, ReplyWaiter.deliver_expected hw heq]
        cases o.dropped <;> exact .deliver hmsg hw heq
      · simp only [dispatch, ReplyWaiter.deliver_mismatch hw heq]
        exact .late hmsg hw heq

/-- **What one access does.** -/
theorem advance_advances (b : Inbox) (c : Call) (o : Outcome) (p : Phase) :
    Advances W b c p (b.advance W c o p).1 (b.advance W c o p).2.1 (b.advance W c o p).2.2 := by
  cases p with
  | arrived => exact start_advances
  | checkPeer ctx id =>
    rw [advance]
    cases hw : b.waiters.waiters id with
    | none =>
      simp only [ReplyWaiter.checkPeer, hw]
      exact .match_ fun pending h => by rw [hw] at h; cases h
    | some pending =>
      by_cases heq : pending.expectedPeerFp = ctx.callerAgentFp
      · simp only [ReplyWaiter.checkPeer, hw, heq, if_true]
        refine .match_ fun pending' h => ?_
        rw [hw] at h
        cases h
        exact heq
      · simp only [ReplyWaiter.checkPeer, hw, heq, if_false]
        exact .mismatch hw heq
  | checkNonce ctx =>
    rw [advance]
    split
    · rename_i h
      exact .fresh (NonceCache.checkAndInsert_true.mp h)
    · rename_i h
      exact .replay (not_not.mp fun hn => h (NonceCache.checkAndInsert_true.mpr hn))
  | checkSequence ctx =>
    rw [advance]
    split
    · rename_i hpoisoned
      exact .locked hpoisoned
    · rename_i hpoisoned
      have hsound : b.poisoned = false := Bool.not_eq_true _ ▸ hpoisoned
      by_cases h : b.sequence.high ctx.callerAgentFp < c.env.sequence
      · have hok := SequenceTracker.checkAndAdvance_ok.mpr h
        split
        · rename_i t ht
          have hb := Advances.pass (W := W) (b := b) (c := c) hsound h
          rw [ht] at hb
          exact hb
        · rename_i t expected actual ht
          rw [ht] at hok
          cases hok
      · rw [SequenceTracker.checkAndAdvance_error h]
        dsimp only
        split
        · rename_i hover
          exact .overflow hsound hover.1 (Nat.le_of_not_lt h) hover.2
        · rename_i hroom
          exact .outOfOrder hsound (Nat.le_of_not_lt h) hroom
  | dispatch ctx =>
    rw [advance]
    split
    · exact .finish
    · rename_i msg hmsg
      exact dispatch_advances hmsg
  | refused | mismatched | mismatchedLate | panicked | done => exact .ended trivial

end Inbox

end Bus
