/-
Opening a session.

The opener writes its open frame and waits for the first frame back; the
responder admits the open, spawns the keepalive task of its end, and hands the
session to the topic's handler, which accepts or refuses it when it likes.  The
stream between them delivers every byte in order.  The timer of the keepalive
task is an input: it fires whenever the schedule polls the task.

* `IncomingSession.admitOpen` — the responder's side of an open;
* `Opening` — the handshake, from the responder's admission on;
* `Opening.Sound` — the opener returns what the responder's first frame says;
* `initiate_returns_iff` — when that is the handler's verdict.
-/
import AgentMesh.Channel

open Mesh Transport

namespace Bus

variable {W : SessionWire}

/-! ### The two sides -/

/-- The verified identity at the other end of a session, from the certificate
that signed its first frame. -/
structure SessionPeer where
  userFp : Fingerprint
  agentFp : Fingerprint
  certChain : CertChain
  deriving DecidableEq

variable (W) in
def SessionPeer.of (env : SignedEnvelope) : SessionPeer where
  userFp := env.senderUserFp W.toWire
  agentFp := env.senderAgentFp W.toWire
  certChain := env.certChain

def SessionReceiver.new (link : Link W) (rxSeq idle : ℕ) : SessionReceiver W :=
  ⟨⟨[]⟩, link, rxSeq, idle, false, false⟩

variable (W) in
/-- The session id and topic of a session open frame. -/
def openRequest (env : SignedEnvelope) : Option (SessionId × String) :=
  match W.frameOfJson env.payload with
  | .ok ⟨session, .open_ topic⟩ => some (session, topic)
  | _ => none

variable (W) in
structure IncomingSession where
  out : Outgoing W
  rx : SessionReceiver W
  peer : SessionPeer
  topic : String

/-- Admit the open frame that arrived first on a stream: it must pass admission
and be its sender's frame `0`. -/
def IncomingSession.admitOpen (agent : AgentKey W.toCrypto) (env : SignedEnvelope)
    (provenance : DeliveryProvenance) (idle : ℕ) : Except BusError (IncomingSession W) := do
  let request ← okOr (openRequest W env) (.sessionProtocol "not a session open frame")
  let caller ← admitEnvelope W.toWire env provenance (agent.cert.userFingerprint W.toCrypto)
    agent.fingerprint
  ensure (env.sequence = 0)
    (.badSequence (caller.callerAgentFp.hex W.toCrypto) 0 env.sequence)
  let link : Link W := ⟨request.1, agent, ⟨caller.callerUserFp, caller.callerAgentFp⟩⟩
  return ⟨.new link, .new link 1 idle, .of W env, request.2⟩

/-- What a handler does with an incoming session. -/
inductive Verdict where
  | accept
  | refuse (reason : String)
  deriving DecidableEq

def Verdict.job : Verdict → Job
  | .accept => .accept
  | .refuse reason => .refuse reason

/-- What the opener is to get for it. -/
def Verdict.outcome (peer : SessionPeer) : Verdict → Except BusError SessionPeer
  | .accept => .ok peer
  | .refuse reason => .error (.sessionRefused reason)

/-- The verdict on an incoming session: a topic without a handler is refused. -/
def IncomingSession.dispatch (incoming : IncomingSession W) (handlers : String → Option Verdict) :
    Verdict :=
  (handlers incoming.topic).getD (.refuse "no session handler for this topic")

variable (W) in
/-- What `Session::initiate` makes of the first frame back. -/
def initiated : SignedEnvelope × Body → Except BusError SessionPeer
  | (env, .accept) => .ok (.of W env)
  | (_, .refuse reason) => .error (.sessionRefused reason)
  | (_, other) => .error (unexpected other)

/-! ### The handshake -/

variable (W) in
/-- The opener's receiver, what its `initiate` returned, the sending half of
the responder, and how many of its bytes the opener has read. -/
structure Opening where
  verdict : Verdict
  opener : SessionReceiver W
  result : Option (Except BusError SessionPeer)
  responder : Outgoing W
  delivered : ℕ

namespace Opening

inductive Act where
  /-- The handler calls `accept` or `refuse`. -/
  | decide
  /-- A task of the responder is polled: task 0 is the keepalive task, task 1
  the handler's.  The stream takes some bytes of it, or is flushed. -/
  | poll (i : ℕ) (nonce : BitVec 192) (n : Option ℕ)
  /-- The opener is polled, with at most `n + 1` more bytes on the way. -/
  | read (n : ℕ)
  deriving DecidableEq

/-- The opener's pending `next_frame` makes a pass. -/
def pass (w : Opening W) (chunk : Bytes) : Opening W :=
  let r := w.opener.nextFrame (.ready (.ok ()) (.ok chunk))
  { w with opener := r.1, result := r.2.map fun frame => frame.bind (initiated W) }

/-- The opener is polled: bytes are read only when the buffer holds no whole
envelope, and without any the read waits, or sees the end of the stream. -/
def read (w : Opening W) (n : ℕ) : Opening W :=
  let chunk := (w.responder.writer.io.drop w.delivered).take (n + 1)
  if Delimited.front maxEnvelopeBytes w.opener.reader.buf ≠ .short then w.pass []
  else if chunk ≠ [] then { w.pass chunk with delivered := w.delivered + chunk.length }
  else if w.responder.writer.shut then w.pass []
  else w

def step (w : Opening W) : Act → Opening W
  | .decide =>
    if w.responder.tasks.length = 1 then
      { w with responder := w.responder.step (.call w.verdict.job) }
    else w
  | .poll i nonce n =>
    { w with responder := w.responder.step (.poll i nonce (n.elim .flushed .wrote)) }
  | .read n => if w.result.isSome then w else w.read n

def run (w : Opening W) (acts : List Act) : Opening W := acts.foldl step w

/-- The open frame is admitted; the opener waits for the verdict. -/
def start (link : Link W) (incoming : IncomingSession W) (handlers : String → Option Verdict)
    (idle : ℕ) : Opening W :=
  ⟨incoming.dispatch handlers, .new link 0 idle, none, incoming.out, 0⟩

/-- Which task of the responder is the first to find the writer's lock, and
with which nonce: the timer, or the handler once it decided. -/
def first (decided : Bool) : List Act → Option (ℕ × BitVec 192)
  | [] => none
  | .decide :: acts => first true acts
  | .read _ :: acts => first decided acts
  | .poll i nonce _ :: acts =>
    if i = 0 ∨ decided = true ∧ i = 1 then some (i, nonce) else first decided acts

end Opening

/-! ### Who they are -/

/-- The links of both sides after an admitted open, and what makes the
responder's frames pass the opener's checks. -/
structure Joined (o r : Link W) : Prop where
  session : o.id = r.id
  peer : o.peer = identity r.agent
  to_opener : r.peer.agentFp = o.agent.fingerprint
  same_user : r.agent.cert.userFingerprint W.toCrypto = o.agent.cert.userFingerprint W.toCrypto
  key : W.keyError r.agent.cert.agentPubkey = none
  cert : r.agent.cert.verifyInner W.toCrypto none = .ok ()

variable {o r : Link W}

theorem Joined.admitted (hC : W.toCrypto.Correct) (h : Joined o r) (nonce : BitVec 192)
    (sequence : ℕ) (body : Body) :
    (r.envelope nonce sequence body).verify W.toWire = .ok () ∧
    ∃ ctx, admitEnvelope W.toWire (r.envelope nonce sequence body) (.direct o.peer)
      (o.agent.cert.userFingerprint W.toCrypto) o.agent.fingerprint = .ok ctx := by
  have hpeer : o.peer = ⟨o.agent.cert.userFingerprint W.toCrypto, r.agent.fingerprint⟩ := by
    rw [h.peer, identity, h.same_user]
  rw [hpeer, ← h.to_opener]
  have hadmitted : admitEnvelope W.toWire (r.envelope nonce sequence body)
      (.direct ⟨o.agent.cert.userFingerprint W.toCrypto, r.agent.fingerprint⟩)
      (o.agent.cert.userFingerprint W.toCrypto) r.peer.agentFp =
        .ok ⟨o.agent.cert.userFingerprint W.toCrypto, r.agent.fingerprint⟩ :=
    admit_new hC h.key h.cert h.same_user nonce sequence _
  exact ⟨(admit_ok.mp hadmitted).1, _, hadmitted⟩

/-- **The opener hears the responder's first frame.** -/
theorem Joined.heard (hC : W.toCrypto.Correct) (hW : W.Lawful) (h : Joined o r) {nonce : BitVec 192}
    {body : Body} (hfits : Fits W.toEnvelopeWire (r.envelope nonce 0 body)) (idle : ℕ)
    (rest chunk : Bytes) :
    (SessionReceiver.nextFrame
      ⟨⟨Delimited.bytes (W.envelopeJson (r.envelope nonce 0 body)) ++ rest⟩,
        o, 0, idle, false, false⟩
      (.ready (.ok ()) (.ok chunk))).2 = some (.ok (r.envelope nonce 0 body, body)) := by
  obtain ⟨hverify, ctx, hadmitted⟩ := h.admitted hC nonce 0 body
  have hnext : EnvelopeReader.next W.toEnvelopeWire
      ⟨Delimited.bytes (W.envelopeJson (r.envelope nonce 0 body)) ++ rest⟩ (.ok ()) (.ok chunk) =
        (⟨rest⟩, some (.ok (some (r.envelope nonce 0 body)))) :=
    EnvelopeReader.next_bytes (hW.envelope _) hfits hverify rest
  have hframe : W.frameOfJson (r.envelope nonce 0 body).payload = .ok ⟨o.id, body⟩ := by
    rw [h.session]
    exact hW.frame _
  have hseq : (r.envelope nonce 0 body).sequence = 0 := rfl
  have haccept : (SessionReceiver.accept ⟨⟨rest⟩, o, 0, idle, false, false⟩
      (r.envelope nonce 0 body)).2 = .ok (r.envelope nonce 0 body, body) := by
    rw [SessionReceiver.accept]
    simp only [hadmitted]
    rw [if_neg (not_not.mpr hseq)]
    simp [hframe, Except.mapError, ensure, bind, Except.bind, pure, Except.pure]
  obtain ⟨rx, hrx⟩ : ∃ rx, SessionReceiver.accept ⟨⟨rest⟩, o, 0, idle, false, false⟩
      (r.envelope nonce 0 body) = (rx, .ok (r.envelope nonce 0 body, body)) :=
    ⟨_, Prod.ext rfl haccept⟩
  simp [SessionReceiver.nextFrame, SessionReceiver.readFrame, hnext, hrx]

/-! ### What the opener returns -/

namespace Opening

variable {w : Opening W}

/-- What holds of a handshake at any time: until `initiate` returns its receiver
has just the bytes delivered, and it returns what the first frame says. -/
structure Sound (o r : Link W) (idle : ℕ) (w : Opening W) : Prop where
  sound : w.responder.Sound
  link : w.responder.writer.link = r
  within : w.delivered ≤ w.responder.writer.io.length
  waiting : w.result = none →
    w.opener = ⟨⟨w.responder.writer.io.take w.delivered⟩, o, 0, idle, false, false⟩
  answered : ∀ x, w.result = some x → ∃ body env, w.responder.taken.head? = some (body, env) ∧
    Fits W.toEnvelopeWire env ∧ x = initiated W (env, body)

variable {idle : ℕ}

theorem Sound.respond (h : w.Sound o r idle) {out : Outgoing W} (hsteps : w.responder.Steps out) :
    Sound o r idle { w with responder := out } := by
  obtain ⟨more, hmore⟩ := hsteps.taken
  obtain ⟨bytes, hbytes⟩ := hsteps.io
  refine ⟨h.sound.steps hsteps, hsteps.link.trans h.link, ?_, ?_, ?_⟩
  · exact h.within.trans hsteps.io.length_le
  · intro hresult
    show w.opener = _
    rw [h.waiting hresult, ← hbytes, List.take_append_of_le_length h.within]
  · intro x hx
    obtain ⟨body, env, hfirst, hfits, heq⟩ := h.answered x hx
    refine ⟨body, env, ?_, hfits, heq⟩
    show out.taken.head? = some (body, env)
    rw [hmore, List.head?_append, hfirst]
    rfl

/-- The first frame, once the opener has it whole, settles what it returns. -/
theorem Sound.pass_whole (hC : W.toCrypto.Correct) (hW : W.Lawful) (hj : Joined o r)
    (h : w.Sound o r idle) (hresult : w.result = none) {body : Body} {env : SignedEnvelope}
    (hfirst : w.responder.taken.head? = some (body, env)) (hfits : Fits W.toEnvelopeWire env)
    (hwhole : Delimited.bytes (W.envelopeJson env) <+: w.responder.writer.io.take w.delivered)
    (chunk : Bytes) : (w.pass chunk).result = some (initiated W (env, body)) := by
  rw [List.head?_eq_getElem?] at hfirst
  obtain ⟨nonce, rfl⟩ := h.sound.numbered hfirst
  rw [h.link] at hfits hwhole ⊢
  obtain ⟨rest, hrest⟩ := hwhole
  have hheard := hj.heard hC hW hfits idle rest chunk
  rw [hrest, ← h.waiting hresult] at hheard
  rw [pass]
  simp only [hheard]
  rfl

/-- Bytes that arrive before the first frame is whole are kept. -/
theorem Sound.pass_chunk (h : w.Sound o r idle) (hresult : w.result = none)
    (hshort : Delimited.front maxEnvelopeBytes w.opener.reader.buf = .short) {n : ℕ} {b : UInt8}
    {bytes : Bytes} (hchunk : (w.responder.writer.io.drop w.delivered).take n = b :: bytes) :
    Sound o r idle { w.pass (b :: bytes) with delivered := w.delivered + (b :: bytes).length } := by
  have hlen : (b :: bytes).length ≤ w.responder.writer.io.length - w.delivered := by
    rw [← hchunk, List.length_take, List.length_drop]
    exact Nat.min_le_right _ _
  have hnext : w.opener.reader.next W.toEnvelopeWire (.ok ()) (.ok (b :: bytes)) =
      (⟨w.opener.reader.buf ++ b :: bytes⟩, none) := by
    unfold EnvelopeReader.next
    rw [hshort]
  have hframe : w.opener.nextFrame (.ready (.ok ()) (.ok (b :: bytes))) =
      ({ w.opener with reader := ⟨w.opener.reader.buf ++ b :: bytes⟩ }, none) := by
    have hfailed : w.opener.failed = false := by rw [h.waiting hresult]
    simp [SessionReceiver.nextFrame, SessionReceiver.readFrame, hfailed, hnext]
  have hpass : w.pass (b :: bytes) =
      { w with
        opener := { w.opener with reader := ⟨w.opener.reader.buf ++ b :: bytes⟩ }
        result := none } := by
    rw [pass]
    simp only [hframe]
    rfl
  rw [hpass]
  refine ⟨h.sound, h.link, ?_, ?_, ?_⟩
  · show w.delivered + (b :: bytes).length ≤ w.responder.writer.io.length
    have := h.within
    omega
  · intro _
    have htake : (w.responder.writer.io.drop w.delivered).take (b :: bytes).length =
        b :: bytes := by
      rw [← hchunk, List.length_take, List.take_eq_take_iff]
      simp
    show ({ w.opener with reader := ⟨w.opener.reader.buf ++ b :: bytes⟩ } : SessionReceiver W) = _
    rw [h.waiting hresult]
    show (⟨⟨_ ++ b :: bytes⟩, o, 0, idle, false, false⟩ : SessionReceiver W) =
      ⟨⟨w.responder.writer.io.take (w.delivered + (b :: bytes).length)⟩, o, 0, idle, false, false⟩
    rw [List.take_add, htake]
  · intro x hx
    cases hx

/-- A buffer with an envelope at its front has the first frame there. -/
theorem Sound.whole_of_front (h : w.Sound o r idle) (hresult : w.result = none)
    (hfront : Delimited.front maxEnvelopeBytes w.opener.reader.buf ≠ .short) :
    ∃ body env, w.responder.taken.head? = some (body, env) ∧ Fits W.toEnvelopeWire env ∧
      Delimited.bytes (W.envelopeJson env) <+: w.responder.writer.io.take w.delivered := by
  rw [h.waiting hresult] at hfront
  have hio : w.responder.writer.io ≠ [] := by
    intro hnil
    rw [hnil, List.take_nil] at hfront
    exact hfront rfl
  obtain ⟨body, env, more, hfirst, hfits, hstream⟩ := h.sound.first_of_io hio
  have hbuf := (List.take_prefix w.delivered w.responder.writer.io).trans hstream
  have hbytes : Delimited.bytes (W.envelopeJson env) <+:
      Delimited.bytes (W.envelopeJson env) ++ more := List.prefix_append _ _
  refine ⟨body, env, hfirst, hfits, ?_⟩
  by_cases hlen : (w.responder.writer.io.take w.delivered).length <
      (Delimited.bytes (W.envelopeJson env)).length
  · have hpart := List.prefix_of_prefix_length_le hbuf hbytes hlen.le
    exact absurd (Delimited.front_part (by decide) hfits hpart hlen) hfront
  · exact List.prefix_of_prefix_length_le hbytes hbuf (Nat.not_lt.mp hlen)

/-- **The opener, polled, keeps it.** -/
theorem Sound.read (hC : W.toCrypto.Correct) (hW : W.Lawful) (hj : Joined o r)
    (h : w.Sound o r idle) (hresult : w.result = none) (n : ℕ) : (w.read n).Sound o r idle := by
  rw [Opening.read]
  by_cases hfront : Delimited.front maxEnvelopeBytes w.opener.reader.buf ≠ .short
  · rw [if_pos hfront]
    obtain ⟨body, env, hfirst, hfits, hwhole⟩ := h.whole_of_front hresult hfront
    have hpass := h.pass_whole hC hW hj hresult hfirst hfits hwhole []
    refine ⟨h.sound, h.link, h.within, ?_, ?_⟩
    · intro hnone
      rw [hpass] at hnone
      cases hnone
    · intro x hx
      rw [hpass] at hx
      exact ⟨body, env, hfirst, hfits, (Option.some.inj hx).symm⟩
  rw [if_neg hfront]
  have hshort := not_not.mp hfront
  cases hchunk : (w.responder.writer.io.drop w.delivered).take (n + 1) with
  | cons b bytes =>
    simp only [ne_eq, reduceCtorEq, not_false_eq_true, if_true]
    exact h.pass_chunk hresult hshort hchunk
  | nil =>
    simp only [ne_eq, not_true_eq_false, if_false]
    by_cases hshut : w.responder.writer.shut = true
    swap
    · rw [if_neg hshut]
      exact h
    -- the end of the stream comes behind a whole frame
    exfalso
    have hseq := h.sound.finishing (.inr (.inr hshut))
    obtain ⟨x, hx⟩ : ∃ x, w.responder.taken.head? = some x := by
      have hcount := h.sound.count
      cases htaken : w.responder.taken with
      | nil =>
        rw [htaken] at hcount
        simp at hcount
        omega
      | cons x taken => exact ⟨x, rfl⟩
    obtain ⟨hfits, rest, hrest⟩ := h.sound.first_whole hseq hx
    have hall : w.responder.writer.io.take w.delivered = w.responder.writer.io := by
      refine List.take_of_length_le ?_
      rcases List.take_eq_nil_iff.mp hchunk with hno | hno
      · cases hno
      · exact List.drop_eq_nil_iff.mp hno
    have hbuf : w.opener.reader.buf = Delimited.bytes (W.envelopeJson x.2) ++ rest := by
      rw [h.waiting hresult, hrest]
      exact hall
    rw [hbuf, Delimited.front_bytes (by decide) hfits rest] at hshort
    cases hshort

theorem Sound.step (hC : W.toCrypto.Correct) (hW : W.Lawful) (hj : Joined o r)
    (h : w.Sound o r idle) (a : Act) : (w.step a).Sound o r idle := by
  cases a with
  | decide =>
    rw [Opening.step]
    split_ifs
    · exact h.respond (w.responder.step_steps _)
    · exact h
  | poll i nonce n => exact h.respond (w.responder.step_steps _)
  | read n =>
    rw [Opening.step]
    cases hresult : w.result with
    | some x => exact h
    | none => exact h.read hC hW hj hresult n

theorem Sound.run (hC : W.toCrypto.Correct) (hW : W.Lawful) (hj : Joined o r)
    (h : w.Sound o r idle) (acts : List Act) : (w.run acts).Sound o r idle := by
  induction acts generalizing w with
  | nil => exact h
  | cons a acts ih => exact ih (h.step hC hW hj a)

/-! ### Whose frame is first -/

theorem step_verdict (w : Opening W) (a : Act) : (w.step a).verdict = w.verdict := by
  cases a with
  | decide =>
    rw [Opening.step]
    split_ifs <;> rfl
  | poll i nonce n => rfl
  | read n =>
    rw [Opening.step, Opening.read]
    split_ifs <;> rfl

theorem step_read (w : Opening W) (n : ℕ) : (w.step (.read n)).responder = w.responder := by
  rw [Opening.step, Opening.read]
  split_ifs <;> rfl

/-- Task `i` has the writer, or a frame is written. -/
def Underway (i : ℕ) (out : Outgoing W) : Prop :=
  0 < out.writer.nextSeq ∨ ∃ rest t, out.lock = some (i, .writing rest) ∧
    out.tasks[i]? = some t ∧ t.stage.ended = false

theorem Underway.call {i : ℕ} {out : Outgoing W} (h : Underway i out) (job : Job) :
    Underway i (out.step (.call job)) := by
  rcases h with hseq | ⟨rest, t, hlock, ht, hstage⟩
  · exact .inl hseq
  · refine .inr ⟨rest, t, hlock, ?_, hstage⟩
    show (out.tasks ++ [_])[i]? = some t
    rw [List.getElem?_append_left (List.getElem?_eq_some_iff.mp ht).1, ht]

/-- Nothing takes the writer away while the stream works. -/
theorem Underway.poll {i : ℕ} {out : Outgoing W} (h : Underway i out) (j : ℕ)
    (nonce : BitVec 192) (n : Option ℕ) :
    Underway i (out.step (.poll j nonce (n.elim .flushed .wrote))) := by
  rcases h with hseq | ⟨rest, t, hlock, ht, hstage⟩
  · exact .inl (hseq.trans_le (out.step_steps _).nextSeq)
  show Underway i (out.poll j nonce _)
  unfold Outgoing.poll
  rw [hlock]
  cases htask : out.tasks[j]? with
  | none => exact .inr ⟨rest, t, hlock, ht, hstage⟩
  | some t' =>
    by_cases hij : i = j
    swap
    · simp only [if_neg hij]
      exact .inr ⟨rest, t, hlock, ht, hstage⟩
    subst hij
    simp only [if_true]
    cases n with
    | some n => exact .inr ⟨rest.drop n, t, rfl, ht, hstage⟩
    | none =>
      cases rest with
      | nil => exact .inl (Nat.succ_pos _)
      | cons b rest => exact .inr ⟨b :: rest, t, hlock, ht, hstage⟩

/-- Task `i` took the first frame, `x`. -/
structure Begun (i : ℕ) (x : Body × SignedEnvelope) (out : Outgoing W) : Prop where
  head : out.taken.head? = some x
  underway : Fits W.toEnvelopeWire x.2 → Underway i out

/-- The first task to find the lock of a fresh writer takes the first frame. -/
theorem Begun.poll {out : Outgoing W} (hintact : out.writer.intact = true)
    (hseq : out.writer.nextSeq = 0) (hlock : out.lock = none) (htaken : out.taken = []) {i : ℕ}
    {t : Task} (ht : out.tasks[i]? = some t) (hstage : t.stage = .sleeping ∨ t.stage = .locking)
    (nonce : BitVec 192) (io : Io) :
    Begun i (t.job.body, out.writer.link.envelope nonce 0 t.job.body)
      (out.step (.poll i nonce io)) := by
  have hpoll : out.step (.poll i nonce io) = out.write i t.job nonce := by
    show out.poll i nonce io = _
    unfold Outgoing.poll
    rw [ht, hlock]
    rcases hstage with hstage | hstage <;> simp [Outgoing.enter, hstage]
  rw [hpoll, Outgoing.write, if_pos hintact, hseq, htaken]
  cases hsend : sendEnvelope W.toEnvelopeWire (out.writer.link.envelope nonce 0 t.job.body) with
  | error e =>
    simp only [hsend]
    refine ⟨rfl, fun hfits => ?_⟩
    rw [sendEnvelope_fits hfits] at hsend
    cases hsend
  | ok bytes =>
    simp only [hsend]
    refine ⟨rfl, fun _ => .inr ⟨bytes, t, rfl, ht, ?_⟩⟩
    rcases hstage with hstage | hstage <;> rw [hstage] <;> rfl

theorem Begun.run {i : ℕ} {x : Body × SignedEnvelope} (h : Begun i x w.responder)
    (acts : List Act) : Begun i x (w.run acts).responder := by
  have hhead : ∀ {out out' : Outgoing W}, out.Steps out' → out.taken.head? = some x →
      out'.taken.head? = some x := by
    intro out out' hsteps hfirst
    obtain ⟨more, hmore⟩ := hsteps.taken
    rw [hmore, List.head?_append, hfirst]
    rfl
  induction acts generalizing w with
  | nil => exact h
  | cons a acts ih =>
    refine ih ?_
    cases a with
    | decide =>
      rw [Opening.step]
      split_ifs
      · exact ⟨hhead (w.responder.step_steps (.call w.verdict.job)) h.head,
          fun hfits => (h.underway hfits).call _⟩
      · exact h
    | poll j nonce n =>
      exact ⟨hhead (w.responder.step_steps (.poll j nonce (n.elim .flushed .wrote))) h.head,
        fun hfits => (h.underway hfits).poll j nonce n⟩
    | read n =>
      rw [w.step_read n]
      exact h

def taskBody (v : Verdict) (i : ℕ) : Body := if i = 0 then .keepalive else v.job.body

/-- The responder before any frame was taken. -/
def fresh (r : Link W) (v : Verdict) (decided : Bool) : Outgoing W :=
  { Outgoing.new r with
    tasks := ⟨.keepalive, .sleeping⟩ :: if decided then [⟨v.job, .locking⟩] else [] }

/-- **The first frame is that of the first task to find the lock.** -/
theorem first_taken (r : Link W) (v : Verdict) (acts : List Act) :
    ∀ (decided : Bool) (w : Opening W), w.verdict = v → w.responder = fresh r v decided →
      match first decided acts with
      | none => (w.run acts).responder.taken = []
      | some (i, nonce) => (i = 0 ∨ i = 1) ∧
        Begun i (taskBody v i, r.envelope nonce 0 (taskBody v i)) (w.run acts).responder := by
  induction acts with
  | nil =>
    intro decided w _ hfresh
    show w.responder.taken = []
    rw [hfresh]
    rfl
  | cons a acts ih =>
    intro decided w hverdict hfresh
    have hverdict' : ∀ a, (w.step a).verdict = v := fun a => (w.step_verdict a).trans hverdict
    cases a with
    | read n =>
      refine ih decided (w.step (.read n)) (hverdict' _) ?_
      rw [w.step_read n, hfresh]
    | decide =>
      refine ih true (w.step .decide) (hverdict' _) ?_
      rw [Opening.step, hverdict]
      cases decided with
      | true =>
        rw [if_neg (by rw [hfresh]; simp [fresh])]
        exact hfresh
      | false =>
        rw [if_pos (by rw [hfresh]; rfl), hfresh]
        cases v <;> rfl
    | poll i nonce n =>
      have hstep : (w.step (.poll i nonce n)).responder =
          (fresh r v decided).step (.poll i nonce (n.elim .flushed .wrote)) := by
        rw [Opening.step, hfresh]
      rw [first]
      by_cases hfirst : i = 0 ∨ decided = true ∧ i = 1
      · rw [if_pos hfirst]
        have htask : ∃ t, (fresh r v decided).tasks[i]? = some t ∧
            (t.stage = .sleeping ∨ t.stage = .locking) ∧ t.job.body = taskBody v i := by
          rcases hfirst with rfl | ⟨rfl, rfl⟩
          · exact ⟨_, rfl, .inl rfl, rfl⟩
          · exact ⟨_, rfl, .inr rfl, rfl⟩
        obtain ⟨t, ht, hstage, hbody⟩ := htask
        have hbegun : Begun i (t.job.body, r.envelope nonce 0 t.job.body)
            ((fresh r v decided).step (.poll i nonce (n.elim .flushed .wrote))) :=
          Begun.poll rfl rfl rfl rfl ht hstage nonce _
        rw [← hstep, hbody] at hbegun
        exact ⟨hfirst.imp_right And.right, hbegun.run acts⟩
      · rw [if_neg hfirst]
        refine ih decided (w.step (.poll i nonce n)) (hverdict' _) ?_
        have hnone : (fresh r v decided).tasks[i]? = none := by
          rw [not_or] at hfirst
          rw [List.getElem?_eq_none_iff]
          cases decided with
          | true =>
            have hne : i ≠ 1 := fun h => hfirst.2 ⟨rfl, h⟩
            show 2 ≤ i
            omega
          | false =>
            show 1 ≤ i
            omega
        rw [hstep]
        show (fresh r v decided).poll i nonce _ = _
        unfold Outgoing.poll
        rw [hnone]

/-- The handler's call has returned, and every byte the responder wrote has
reached the opener. -/
def Settled (w : Opening W) : Prop :=
  (∃ t ∈ w.responder.tasks[1]?, t.stage.ended = true) ∧
    w.delivered = w.responder.writer.io.length

instance (w : Opening W) : Decidable w.Settled :=
  inferInstanceAs (Decidable ((∃ t ∈ w.responder.tasks[1]?, _) ∧ _))

theorem Sound.returns (hC : W.toCrypto.Correct) (hW : W.Lawful) (hj : Joined o r)
    (h : w.Sound o r idle) (hdelivered : w.delivered = w.responder.writer.io.length)
    (hseq : 0 < w.responder.writer.nextSeq) {body : Body} {env : SignedEnvelope}
    (hfirst : w.responder.taken.head? = some (body, env)) :
    (w.step (.read 0)).result = some (initiated W (env, body)) := by
  cases hresult : w.result with
  | some x =>
    have hsame : w.step (.read 0) = w := by
      rw [Opening.step, hresult]
      rfl
    obtain ⟨body', env', hfirst', -, rfl⟩ := h.answered x hresult
    rw [hfirst'] at hfirst
    cases hfirst
    rw [hsame, hresult]
  | none =>
    obtain ⟨hfits, hwhole⟩ := h.sound.first_whole hseq hfirst
    have hall : w.responder.writer.io.take w.delivered = w.responder.writer.io := by
      rw [hdelivered, List.take_length]
    have hfront : Delimited.front maxEnvelopeBytes w.opener.reader.buf ≠ .short := by
      obtain ⟨rest, hrest⟩ := hwhole
      have hbuf : w.opener.reader.buf = Delimited.bytes (W.envelopeJson env) ++ rest := by
        rw [h.waiting hresult, hrest]
        exact hall
      rw [hbuf, Delimited.front_bytes (by decide) hfits rest]
      simp
    have hstep : w.step (.read 0) = w.pass [] := by
      rw [Opening.step, hresult]
      show w.read 0 = _
      rw [Opening.read, if_pos hfront]
    rw [hstep]
    exact h.pass_whole hC hW hj hresult hfirst hfits (hall.symm ▸ hwhole) []

end Opening

theorem IncomingSession.admitOpen_ok (hW : W.Lawful) {opener responder : AgentKey W.toCrypto}
    {id : SessionId} {nonce : BitVec 192} {topic : String} {provenance : DeliveryProvenance}
    {idle : ℕ} {incoming : IncomingSession W}
    (h : admitOpen responder (Link.envelope ⟨id, opener, identity responder⟩ nonce 0 (.open_ topic))
      provenance idle = .ok incoming) :
    opener.cert.userFingerprint W.toCrypto = responder.cert.userFingerprint W.toCrypto ∧
      incoming.topic = topic ∧ ∃ userFp, incoming.out =
        .new ⟨id, responder, ⟨userFp, opener.fingerprint⟩⟩ := by
  simp only [admitOpen, bind_ok, okOr_ok, ensure_ok, pure, Except.pure, Except.ok.injEq] at h
  obtain ⟨request, hrequest, caller, hcaller, _, -, rfl⟩ := h
  obtain ⟨-, -, huser, -, rfl⟩ := admit_ok.mp hcaller
  have hopen : request = (id, topic) := by
    rw [openRequest, show SignedEnvelope.payload _ = W.frameJson ⟨id, .open_ topic⟩ from rfl,
      hW.frame] at hrequest
    exact (Option.some.inj hrequest).symm
  subst hopen
  exact ⟨huser, rfl, _, rfl⟩

/-- **When an admitted open returns the handler's verdict.**  In every run of
the handshake that is settled, `initiate` returns what the handler decided
exactly when the handler's call finds the writer before the keepalive timer
fires, and its frame is not too large for the stream. -/
theorem initiate_returns_iff (hC : W.toCrypto.Correct) (hW : W.Lawful)
    {opener responder : AgentKey W.toCrypto}
    (hkey : W.keyError responder.cert.agentPubkey = none)
    (hcert : responder.cert.verifyInner W.toCrypto none = .ok ())
    {id : SessionId} {nonce : BitVec 192} {topic : String} {provenance : DeliveryProvenance}
    {idle idle' : ℕ} {incoming : IncomingSession W}
    (hadmitted : IncomingSession.admitOpen responder
      (Link.envelope ⟨id, opener, identity responder⟩ nonce 0 (.open_ topic)) provenance idle =
        .ok incoming)
    (handlers : String → Option Verdict) (acts : List Opening.Act)
    (hsettled : ((Opening.start ⟨id, opener, identity responder⟩ incoming handlers idle').run
      acts).Settled) :
    (((Opening.start ⟨id, opener, identity responder⟩ incoming handlers idle').run acts).step
        (.read 0)).result =
      some ((incoming.dispatch handlers).outcome
        ⟨responder.cert.userFingerprint W.toCrypto, responder.fingerprint, responder.cert⟩) ↔
    ∃ nonce, Opening.first false acts = some (1, nonce) ∧
      Fits W.toEnvelopeWire (incoming.out.writer.link.envelope nonce 0
        (incoming.dispatch handlers).job.body) := by
  obtain ⟨huser, -, userFp, hout⟩ := IncomingSession.admitOpen_ok hW hadmitted
  generalize hv : incoming.dispatch handlers = v
  set o : Link W := ⟨id, opener, identity responder⟩
  set r : Link W := ⟨id, responder, ⟨userFp, opener.fingerprint⟩⟩
  have hj : Joined o r := ⟨rfl, rfl, rfl, huser.symm, hkey, hcert⟩
  have hstart : (Opening.start o incoming handlers idle').Sound o r idle' := by
    refine ⟨?_, ?_, ?_, ?_, ?_⟩
    · show incoming.out.Sound
      rw [hout]
      exact .new r
    · show incoming.out.writer.link = r
      rw [hout]
      rfl
    · exact Nat.zero_le _
    · intro _
      rfl
    · intro x hx
      cases hx
  have hsound := hstart.run hC hW hj acts
  have hfirst := Opening.first_taken r v acts false (Opening.start o incoming handlers idle') hv
    (by show incoming.out = _; rw [hout]; rfl)
  generalize (Opening.start o incoming handlers idle').run acts = w at hsettled hsound hfirst ⊢
  have hlink : incoming.out.writer.link = r := by
    rw [hout]
    rfl
  rw [hlink]
  constructor
  · intro hresult
    obtain ⟨body, env, hhead, hfits, heq⟩ := (hsound.step hC hW hj (.read 0)).answered _ hresult
    rw [w.step_read 0] at hhead
    cases hf : Opening.first false acts with
    | none =>
      rw [hf] at hfirst
      rw [show w.responder.taken = [] from hfirst] at hhead
      cases hhead
    | some x =>
      obtain ⟨i, nonce⟩ := x
      rw [hf] at hfirst
      obtain ⟨hi, hbegun⟩ := hfirst
      have hsame := hbegun.head.symm.trans hhead
      rw [Option.some.injEq, Prod.mk.injEq] at hsame
      obtain ⟨rfl, rfl⟩ := hsame
      rcases hi with rfl | rfl
      · -- a keepalive is not a verdict
        exfalso
        cases v <;> simp [Verdict.outcome, initiated, Opening.taskBody, unexpected] at heq
      · exact ⟨nonce, rfl, hfits⟩
  · rintro ⟨nonce, hf, hfits⟩
    rw [hf] at hfirst
    obtain ⟨-, hbegun⟩ := hfirst
    obtain ⟨⟨t, ht, hended⟩, hdelivered⟩ := hsettled
    -- the handler's call has returned, so its frame is written
    have hseq : 0 < w.responder.writer.nextSeq := by
      rcases hbegun.underway hfits with hseq | ⟨rest, t', -, ht', hstage⟩
      · exact hseq
      · rw [ht', Option.mem_some_iff] at ht
        rw [← ht, hstage] at hended
        cases hended
    rw [hsound.returns hC hW hj hdelivered hseq hbegun.head]
    cases v <;> rfl

namespace Small

def opened : List Frame :=
  [⟨⟨6⟩, .open_ "t"⟩, ⟨⟨6⟩, .accept⟩, ⟨⟨6⟩, .keepalive⟩]

/-- Agent 2 opens session 6 to agent 1, which has an accepting handler. -/
noncomputable def openWire : SessionWire :=
  sessionWire [frameEnv opened 1 2 5 0 .accept, frameEnv opened 1 2 4 0 .keepalive,
    frameEnv opened 1 2 5 1 .accept, frameEnv opened 2 1 3 0 (.open_ "t")] opened

noncomputable def opener : AgentKey openWire.toCrypto := key 2

noncomputable def responder : AgentKey openWire.toCrypto := key 1

noncomputable def openEnv : SignedEnvelope :=
  Link.envelope (W := openWire) ⟨⟨6⟩, opener, identity responder⟩ 3 0 (.open_ "t")

noncomputable def incoming : IncomingSession openWire where
  out := .new ⟨⟨6⟩, responder, ⟨⟨9⟩, ⟨2⟩⟩⟩
  rx := .new ⟨⟨6⟩, responder, ⟨⟨9⟩, ⟨2⟩⟩⟩ 1 60
  peer := .of openWire openEnv
  topic := "t"

set_option maxRecDepth 100000 in
theorem admitOpen_openEnv :
    IncomingSession.admitOpen responder openEnv (.direct ⟨⟨9⟩, ⟨2⟩⟩) 60 = .ok incoming := by
  have hrequest : openRequest openWire openEnv = some (⟨6⟩, "t") := by decide +kernel
  have hadmitted : admitEnvelope openWire.toWire openEnv (.direct ⟨⟨9⟩, ⟨2⟩⟩)
      (responder.cert.userFingerprint openWire.toCrypto) responder.fingerprint =
        .ok ⟨⟨9⟩, ⟨2⟩⟩ := by
    decide +kernel
  rw [IncomingSession.admitOpen, hrequest, hadmitted]
  rfl

def handlers (topic : String) : Option Verdict := if topic = "t" then some .accept else none

/-- The handler accepts and its frame is written and read. -/
def accepting : List Opening.Act :=
  [.decide, .poll 1 5 none, .poll 1 5 (some 99), .poll 1 5 none, .read 99]

/-- The keepalive timer fires, and its frame is written. -/
def ticking : List Opening.Act := [.poll 0 4 none, .poll 0 4 (some 99), .poll 0 4 none]

noncomputable def opening (acts : List Opening.Act) : Opening openWire :=
  (Opening.start ⟨⟨6⟩, opener, identity responder⟩ incoming handlers 60).run acts

end Small

set_option maxRecDepth 100000 in
theorem initiate_returns_iff_accepted :
    (Small.opening Small.accepting).Settled ∧
      Opening.first false Small.accepting = some (1, 5) ∧
      ((Small.opening Small.accepting).step (.read 0)).result =
        some (.ok ⟨⟨9⟩, ⟨1⟩, Small.responder.cert⟩) := by
  have hsettled : (Small.opening Small.accepting).Settled := by decide +kernel
  exact ⟨hsettled, rfl, (initiate_returns_iff (idealCrypto_correct _)
    (Small.sessionWire_lawful _ _) (by rfl) (by decide +kernel) Small.admitOpen_openEnv
    Small.handlers Small.accepting hsettled).mpr ⟨5, rfl, by decide +kernel⟩⟩

set_option maxRecDepth 100000 in
/-- A keepalive frame that comes before the handler's `accept` fails the open. -/
theorem accept_behind_keepalive :
    IncomingSession.admitOpen Small.responder Small.openEnv (.direct ⟨⟨9⟩, ⟨2⟩⟩) 60 =
        .ok Small.incoming ∧
      Small.incoming.dispatch Small.handlers = .accept ∧
      (Small.opening (Small.ticking ++ Small.accepting)).Settled ∧
      (Small.opening (Small.ticking ++ Small.accepting)).responder.frames =
        [.keepalive, .accept] ∧
      ((Small.opening (Small.ticking ++ Small.accepting)).step (.read 0)).result =
        some (.error (.sessionProtocol "unexpected keepalive frame")) := by
  refine ⟨Small.admitOpen_openEnv, by decide +kernel, by decide +kernel, by decide +kernel, ?_⟩
  decide +kernel

end Bus
