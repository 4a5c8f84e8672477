/-
A session is a reliable ordered channel, or a failure.

Two agents hold the two ends of one session.  The tasks of both ends run in any
order, every one of them may be dropped at any await, and the bytes that reach a
reader are whatever the network makes of them; only signatures cannot be made
up.  One direction is followed here, from `a` to `b`.

* `SessionReceiver.nextFrame_passes` — everything one pass of `next_frame` does;
* `Ends.Genuine` — what verifies as `a`'s, `a` signed somewhere;
* `Ends.Flows` — what `b` returned is the data of the first frames `a` took;
* `session_reliable` — the contract of a session.
-/
import AgentMesh.Dispatch
import AgentMesh.Segments
import AgentMesh.SessionWriter

open Mesh Transport

namespace Bus

variable {W : SessionWire}

/-! ### What a pass of the receiver can do -/

namespace SessionReceiver

variable {rx rx' : SessionReceiver W} {env : SignedEnvelope} {body : Body}

/-- The envelope at the front of the reader passes every check, and carries
this frame. -/
structure Accepts (rx : SessionReceiver W) (env : SignedEnvelope) (body : Body) : Prop where
  front : rx.reader.front W.toEnvelopeWire = some env
  verified : env.verify W.toWire = .ok ()
  signer : env.senderAgentFp W.toWire = rx.link.peer.agentFp
  next : env.sequence = rx.nextSeq
  parsed : W.frameOfJson env.payload = .ok ⟨rx.link.id, body⟩

inductive Passes (rx : SessionReceiver W) :
    SessionReceiver W → Option (Except BusError (SignedEnvelope × Body)) → Prop where
  | more (reader : EnvelopeReader) (hfailed : rx.failed = false) :
    Passes rx { rx with reader := reader } none
  | fail (reader : EnvelopeReader) (nextSeq : ℕ) (e : BusError) :
    Passes rx { rx with reader := reader, nextSeq := nextSeq, failed := true } (some (.error e))
  | frame (reader : EnvelopeReader) (env : SignedEnvelope) (body : Body)
    (hfailed : rx.failed = false) (h : rx.Accepts env body) :
    Passes rx { rx with reader := reader, nextSeq := rx.nextSeq + 1, failed := false }
      (some (.ok (env, body)))

theorem accept_cases (rx : SessionReceiver W) (env : SignedEnvelope) :
    (∃ body, env.verify W.toWire = .ok () ∧
      env.senderAgentFp W.toWire = rx.link.peer.agentFp ∧ env.sequence = rx.nextSeq ∧
      W.frameOfJson env.payload = .ok ⟨rx.link.id, body⟩ ∧
      rx.accept env = ({ rx with nextSeq := rx.nextSeq + 1 }, .ok (env, body))) ∨
    ∃ nextSeq e, rx.accept env = ({ rx with nextSeq := nextSeq }, .error e) := by
  rw [accept]
  cases hadmitted : admitEnvelope W.toWire env (.direct rx.link.peer)
      (rx.link.agent.cert.userFingerprint W.toCrypto) rx.link.agent.fingerprint with
  | error e => exact .inr ⟨rx.nextSeq, e, rfl⟩
  | ok ctx =>
    by_cases hseq : env.sequence = rx.nextSeq
    swap
    · exact .inr ⟨rx.nextSeq, _, if_pos hseq⟩
    simp only [if_neg (not_not.mpr hseq)]
    obtain ⟨hverify, hcarrier, -⟩ := admit_ok.mp hadmitted
    have hpeer : rx.link.peer = ⟨_, env.senderAgentFp W.toWire⟩ :=
      DeliveryProvenance.direct.inj hcarrier
    cases hparsed : W.frameOfJson env.payload with
    | error e => exact .inr ⟨rx.nextSeq + 1, _, rfl⟩
    | ok frame =>
      obtain ⟨session, body⟩ := frame
      by_cases hid : session = rx.link.id
      · subst hid
        refine .inl ⟨body, hverify, by rw [hpeer], hseq, rfl, ?_⟩
        simp [Except.mapError, ensure, bind, Except.bind, pure, Except.pure]
      · refine .inr ⟨rx.nextSeq + 1, .sessionProtocol "a frame of another session", ?_⟩
        simp [Except.mapError, ensure, bind, Except.bind, hid]

theorem nextFrame_passes (rx : SessionReceiver W) (ev : Event) :
    rx.Passes (rx.nextFrame ev).1 (rx.nextFrame ev).2 := by
  rw [nextFrame]
  by_cases hfailed : rx.failed = true
  · rw [if_pos hfailed]
    have hsame : { rx with reader := rx.reader, nextSeq := rx.nextSeq, failed := true } = rx := by
      rw [← hfailed]
    rw [← hsame]
    exact .fail rx.reader rx.nextSeq _
  rw [if_neg hfailed]
  have hfailed : rx.failed = false := Bool.eq_false_of_not_eq_true hfailed
  cases ev with
  | shutdown => exact .fail rx.reader rx.nextSeq _
  | timeout => exact .fail rx.reader rx.nextSeq _
  | ready live read =>
    rw [readFrame]
    generalize hnext : rx.reader.next W.toEnvelopeWire live read = r
    obtain ⟨reader, result⟩ := r
    cases result with
    | none => exact .more reader hfailed
    | some result =>
      cases result with
      | error e => exact .fail reader rx.nextSeq _
      | ok env? =>
        cases env? with
        | none => exact .fail reader rx.nextSeq _
        | some env =>
          have hfront := EnvelopeReader.next_env hnext
          rcases accept_cases { rx with reader := reader } env with
            ⟨body, hverify, hsigner, hseq, hparsed, haccept⟩ | ⟨nextSeq, e, haccept⟩
          · simp only [haccept]
            exact .frame reader env body hfailed ⟨hfront, hverify, hsigner, hseq, hparsed⟩
          · simp only [haccept]
            exact .fail reader nextSeq e

inductive Receives (rx : SessionReceiver W) :
    SessionReceiver W → Option (Except BusError (Option Bytes)) → Prop where
  | ended (hclosed : rx.closed = true) : Receives rx rx (some (.ok none))
  | more (reader : EnvelopeReader) (hclosed : rx.closed = false) (hfailed : rx.failed = false) :
    Receives rx { rx with reader := reader } none
  | fail (reader : EnvelopeReader) (nextSeq : ℕ) (e : BusError) (hclosed : rx.closed = false) :
    Receives rx { rx with reader := reader, nextSeq := nextSeq, failed := true } (some (.error e))
  | data (reader : EnvelopeReader) (env : SignedEnvelope) (body : Bytes)
    (hclosed : rx.closed = false) (hfailed : rx.failed = false) (h : rx.Accepts env (.data body)) :
    Receives rx { rx with reader := reader, nextSeq := rx.nextSeq + 1, failed := false }
      (some (.ok (some body)))
  | keepalive (reader : EnvelopeReader) (env : SignedEnvelope)
    (hclosed : rx.closed = false) (hfailed : rx.failed = false) (h : rx.Accepts env .keepalive) :
    Receives rx { rx with reader := reader, nextSeq := rx.nextSeq + 1, failed := false } none
  | close (reader : EnvelopeReader) (env : SignedEnvelope)
    (hclosed : rx.closed = false) (hfailed : rx.failed = false) (h : rx.Accepts env .close) :
    Receives rx
      { rx with reader := reader, nextSeq := rx.nextSeq + 1, failed := false, closed := true }
      (some (.ok none))

theorem recv_receives (rx : SessionReceiver W) (ev : Event) :
    rx.Receives (rx.recv ev).1 (rx.recv ev).2 := by
  unfold recv
  by_cases hclosed : rx.closed = true
  · rw [if_pos hclosed]
    exact .ended hclosed
  rw [if_neg hclosed]
  have hclosed : rx.closed = false := Bool.eq_false_of_not_eq_true hclosed
  have hpasses := rx.nextFrame_passes ev
  generalize rx.nextFrame ev = r at hpasses
  obtain ⟨rx', result⟩ := r
  cases hpasses with
  | more reader hfailed => exact .more reader hclosed hfailed
  | fail reader nextSeq e => exact .fail reader nextSeq e hclosed
  | frame reader env body hfailed h =>
    cases body with
    | data body => exact .data reader env body hclosed hfailed h
    | keepalive => exact .keepalive reader env hclosed hfailed h
    | close => exact .close reader env hclosed hfailed h
    | open_ topic => exact .fail reader (rx.nextSeq + 1) _ hclosed
    | accept => exact .fail reader (rx.nextSeq + 1) _ hclosed
    | refuse reason => exact .fail reader (rx.nextSeq + 1) _ hclosed

end SessionReceiver

/-! ### Two ends -/

/-- What the `recv` calls returned as messages. -/
def messages (results : List (Except BusError (Option Bytes))) : List Bytes :=
  results.filterMap fun
    | .ok (some body) => some body
    | _ => none

@[simp] theorem messages_append (xs ys : List (Except BusError (Option Bytes))) :
    messages (xs ++ ys) = messages xs ++ messages ys :=
  List.filterMap_append

variable (W) in
/-- One end: its halves, whether a `recv` is pending, and what the ended ones
returned, in order. -/
structure End where
  out : Outgoing W
  rx : SessionReceiver W
  pending : Bool
  results : List (Except BusError (Option Bytes))

namespace End

inductive Act where
  | write (act : Outgoing.Act)
  /-- `recv` is called. -/
  | recv
  /-- The pending `recv` is polled, for one pass of its loops. -/
  | poll (ev : Event)
  /-- The pending `recv` is dropped. -/
  | drop

def step (e : End W) : Act → End W
  | .write act => { e with out := e.out.step act }
  | .recv => { e with pending := true }
  | .poll ev =>
    if e.pending then
      match e.rx.recv ev with
      | (rx, none) => { e with rx := rx }
      | (rx, some result) =>
        { e with rx := rx, pending := false, results := e.results ++ [result] }
    else e
  | .drop => { e with pending := false }

/-- An end whose first frame, `opening`, is written, and which took in the
peer's; `buf` is what else was read by then. -/
def opened (link : Link W) (nonce : BitVec 192) (opening : Body) (buf : Bytes) (idle : ℕ) :
    End W where
  out :=
    { writer := ⟨link, wireBytes W.toEnvelopeWire (link.envelope nonce 0 opening), false, 1, true⟩
      lock := none
      tasks := [⟨.keepalive, .sleeping⟩]
      taken := [(opening, link.envelope nonce 0 opening)] }
  rx := ⟨⟨buf⟩, link, 1, idle, false, false⟩
  pending := false
  results := []

end End

inductive Side where
  | a
  | b
  deriving DecidableEq

variable (W) in
structure Ends where
  a : End W
  b : End W

namespace Ends

def step (w : Ends W) (act : Side × End.Act) : Ends W :=
  match act.1 with
  | .a => { w with a := w.a.step act.2 }
  | .b => { w with b := w.b.step act.2 }

def run (w : Ends W) (acts : List (Side × End.Act)) : Ends W := acts.foldl step w

theorem run_append (w : Ends W) (xs ys : List (Side × End.Act)) :
    w.run (xs ++ ys) = (w.run xs).run ys :=
  List.foldl_append

end Ends

/-- The identity a transport authenticates for a key. -/
def identity (k : AgentKey W.toCrypto) : AuthenticatedPeer :=
  ⟨k.cert.userFingerprint W.toCrypto, k.fingerprint⟩

/-- The first frame of an end. -/
def firstFrame (opener : Side) (topic : String) (s : Side) : Body :=
  if s = opener then .open_ topic else .accept

variable (W) in
/-- Two agents with different keys, each with its first frame on the stream, the
one to open a session and the other to accept it. -/
structure Meeting where
  a : AgentKey W.toCrypto
  b : AgentKey W.toCrypto
  distinct : a.fingerprint ≠ b.fingerprint
  id : SessionId
  topic : String
  opener : Side
  nonce : Side → BitVec 192
  fits_a : Fits W.toEnvelopeWire
    (Link.envelope ⟨id, a, identity b⟩ (nonce .a) 0 (firstFrame opener topic .a))
  fits_b : Fits W.toEnvelopeWire
    (Link.envelope ⟨id, b, identity a⟩ (nonce .b) 0 (firstFrame opener topic .b))
  /-- What was read behind the peer's first frame. -/
  buf : Side → Bytes
  idle : ℕ

def Meeting.ends (m : Meeting W) : Ends W where
  a := .opened ⟨m.id, m.a, identity m.b⟩ (m.nonce .a) (firstFrame m.opener m.topic .a)
    (m.buf .a) m.idle
  b := .opened ⟨m.id, m.b, identity m.a⟩ (m.nonce .b) (firstFrame m.opener m.topic .b)
    (m.buf .b) m.idle

/-! ### What an adversary cannot do -/

variable (W) in
/-- `env` carries what the signer of `e` signed. -/
structure Copies (env e : SignedEnvelope) : Prop where
  signer : env.senderAgentFp W.toWire = e.senderAgentFp W.toWire
  recipient : env.recipient = e.recipient
  nonce : env.nonce = e.nonce
  sequence : env.sequence = e.sequence
  payload : env.payload = e.payload

variable (W) in
/-- Signed for another session, or as a message of the bus. -/
def Elsewhere (id : SessionId) (e : SignedEnvelope) : Prop :=
  (∃ frame : Frame, frame.session ≠ id ∧ e.payload = W.frameJson frame) ∨
    ∃ msg, e.payload = W.messageJson msg

/-- An envelope that reached `b` and verifies as `a`'s carries what was really
signed: by an end of this session, or elsewhere. -/
def Ends.Genuine (w : Ends W) : Prop :=
  ∀ env, w.b.rx.reader.front W.toEnvelopeWire = some env → env.verify W.toWire = .ok () →
    env.senderAgentFp W.toWire = w.a.out.writer.link.agent.fingerprint →
    ∃ e, Copies W env e ∧
      (e ∈ w.a.out.taken.map (·.2) ∨ e ∈ w.b.out.taken.map (·.2) ∨
        Elsewhere W w.a.out.writer.link.id e)

/-! ### What one end has of the other's frames -/

/-- The frames before the first goodbye. -/
def ClosedAfter (frames before : List Body) : Prop :=
  .close ∉ before ∧ ∃ after, frames = before ++ .close :: after

theorem ClosedAfter.append {frames before : List Body} (h : ClosedAfter frames before)
    (more : List Body) : ClosedAfter (frames ++ more) before := by
  obtain ⟨hnot, after, rfl⟩ := h
  exact ⟨hnot, after ++ more, by simp⟩

/-- What a receiver, and the `recv` calls on it, have of the peer's frames. -/
structure Received (frames : List Body) (rx : SessionReceiver W)
    (results : List (Except BusError (Option Bytes))) : Prop where
  /-- Until the session ends for the receiver, exactly the first frames. -/
  live : rx.failed = false → rx.closed = false →
    rx.nextSeq ≤ frames.length ∧ .close ∉ frames.take rx.nextSeq ∧
      messages results = dataOf (frames.take rx.nextSeq)
  ordered : messages results <+: dataOf frames
  closed : rx.closed = true → rx.failed = false ∧
    ∃ before, ClosedAfter frames before ∧ messages results = dataOf before
  goodbye : ∀ {i : ℕ}, results[i]? = some (.ok none) → rx.closed = true ∧
    ∃ before, ClosedAfter frames before ∧ messages (results.take i) = dataOf before
  failed : ∀ {e}, .error e ∈ results → rx.failed = true
  sticky : results.Pairwise fun r r' => (∃ e, r = .error e) → ∃ e, r' = .error e

namespace Received

variable {frames : List Body} {rx rx' : SessionReceiver W}
  {results : List (Except BusError (Option Bytes))}

theorem append (h : Received frames rx results) (more : List Body) :
    Received (frames ++ more) rx results where
  live hfailed hclosed := by
    obtain ⟨hle, hnot, hmessages⟩ := h.live hfailed hclosed
    rw [List.take_append_of_le_length hle]
    exact ⟨by simp; omega, hnot, hmessages⟩
  ordered := h.ordered.trans ⟨dataOf more, (dataOf_append frames more).symm⟩
  closed hclosed := by
    obtain ⟨hfailed, before, hbefore, hmessages⟩ := h.closed hclosed
    exact ⟨hfailed, before, hbefore.append more, hmessages⟩
  goodbye hi := by
    obtain ⟨hclosed, before, hbefore, hmessages⟩ := h.goodbye hi
    exact ⟨hclosed, before, hbefore.append more, hmessages⟩
  failed := h.failed
  sticky := h.sticky

theorem frame (h : Received frames rx results) (hfailed : rx.failed = false)
    (hclosed : rx.closed = false) {body : Body} (hbody : frames[rx.nextSeq]? = some body)
    (hnot : body ≠ .close) (hlink : rx'.nextSeq = rx.nextSeq + 1) (hclosed' : rx'.closed = false)
    {new : List (Except BusError (Option Bytes))}
    (hnew : messages new = dataOf [body]) (hok : ∀ r ∈ new, ∃ body, r = .ok (some body)) :
    Received frames rx' (results ++ new) := by
  obtain ⟨hle, hbefore, hmessages⟩ := h.live hfailed hclosed
  have htake : frames.take (rx.nextSeq + 1) = frames.take rx.nextSeq ++ [body] := by
    rw [List.take_add_one, hbody]
    rfl
  have hall : messages (results ++ new) = dataOf (frames.take rx'.nextSeq) := by
    rw [hlink, htake, messages_append, dataOf_append, hmessages, hnew]
  have hnone : ∀ {i : ℕ}, (results ++ new)[i]? ≠ some (.ok none) := by
    intro i hi
    rcases List.mem_append.mp (List.mem_of_getElem? hi) with hmem | hmem
    · obtain ⟨j, hj⟩ := List.mem_iff_getElem?.mp hmem
      have hno := (h.goodbye hj).1
      simp [hclosed] at hno
    · obtain ⟨body, hbody⟩ := hok _ hmem
      simp at hbody
  have herror : ∀ {e}, .error e ∉ results := by
    intro e he
    have hno := h.failed he
    simp [hfailed] at hno
  refine ⟨fun _ _ => ⟨?_, ?_, hall⟩, ?_, ?_, fun hi => absurd hi hnone, ?_, ?_⟩
  · have hlt := (List.getElem?_eq_some_iff.mp hbody).1
    omega
  · rw [hlink, htake, List.mem_append, List.mem_singleton]
    rintro (hmem | hmem)
    · exact hbefore hmem
    · exact hnot hmem.symm
  · rw [hall]
    exact ⟨dataOf (frames.drop rx'.nextSeq), by rw [← dataOf_append, List.take_append_drop]⟩
  · intro hno
    simp [hclosed'] at hno
  · intro e he
    rcases List.mem_append.mp he with he | he
    · exact absurd he herror
    · obtain ⟨body, hbody⟩ := hok _ he
      cases hbody
  · refine List.pairwise_append.mpr ⟨h.sticky, ?_, ?_⟩
    · refine List.Pairwise.imp_of_mem ?_ (List.pairwise_of_forall fun _ _ => trivial)
      rintro r r' hr - - ⟨e, rfl⟩
      obtain ⟨body, hbody⟩ := hok _ hr
      cases hbody
    · rintro r hr r' - ⟨e, rfl⟩
      exact absurd hr herror

theorem getElem?_snoc {α : Type} {xs : List α} {x y : α} {i : ℕ}
    (h : (xs ++ [x])[i]? = some y) :
    (xs[i]? = some y ∧ (xs ++ [x]).take i = xs.take i) ∨
      x = y ∧ (xs ++ [x]).take i = xs := by
  rcases Nat.lt_trichotomy i xs.length with hlt | rfl | hgt
  · rw [List.getElem?_append_left hlt] at h
    exact .inl ⟨h, List.take_append_of_le_length hlt.le⟩
  · rw [List.getElem?_concat_length] at h
    exact .inr ⟨Option.some.inj h, List.take_left⟩
  · rw [List.getElem?_eq_none (by simp; omega)] at h
    cases h

theorem fail (h : Received frames rx results) (hclosed : rx.closed = false)
    (hfailed' : rx'.failed = true) (hclosed' : rx'.closed = false) (e : BusError) :
    Received frames rx' (results ++ [.error e]) := by
  have hsame : messages (results ++ [.error e]) = messages results := by simp [messages]
  refine ⟨?_, ?_, ?_, ?_, fun _ => hfailed', ?_⟩
  · intro hno
    simp [hfailed'] at hno
  · rw [hsame]
    exact h.ordered
  · intro hno
    simp [hclosed'] at hno
  · intro i hi
    rcases getElem?_snoc hi with ⟨hi, -⟩ | ⟨hno, -⟩
    · have hno := (h.goodbye hi).1
      simp [hclosed] at hno
    · cases hno
  · refine List.pairwise_append.mpr ⟨h.sticky, List.pairwise_singleton _ _, ?_⟩
    rintro r - r' hr' -
    exact ⟨e, List.mem_singleton.mp hr'⟩

theorem goodbye_snoc (hordered : messages results <+: dataOf frames)
    (hfailed : ∀ {e}, .error e ∉ results)
    (hsticky : results.Pairwise fun r r' => (∃ e, r = .error e) → ∃ e, r' = .error e)
    (hgoodbye : ∀ {i : ℕ}, results[i]? = some (.ok none) →
      ∃ before, ClosedAfter frames before ∧ messages (results.take i) = dataOf before)
    {before : List Body} (hbefore : ClosedAfter frames before)
    (hmessages : messages results = dataOf before) (hfailed' : rx'.failed = false)
    (hclosed' : rx'.closed = true) : Received frames rx' (results ++ [.ok none]) := by
  have hsame : messages (results ++ [.ok none]) = messages results := by simp [messages]
  refine ⟨?_, ?_, fun _ => ⟨hfailed', before, hbefore, ?_⟩, ?_, ?_, ?_⟩
  · intro _ hno
    simp [hclosed'] at hno
  · rw [hsame]
    exact hordered
  · rw [hsame, hmessages]
  · intro i hi
    refine ⟨hclosed', ?_⟩
    rcases getElem?_snoc hi with ⟨hi, htake⟩ | ⟨-, htake⟩
    · rw [htake]
      exact hgoodbye hi
    · rw [htake]
      exact ⟨before, hbefore, hmessages⟩
  · intro e he
    rcases List.mem_append.mp he with he | he
    · exact absurd he hfailed
    · simp at he
  · refine List.pairwise_append.mpr ⟨hsticky, List.pairwise_singleton _ _, ?_⟩
    rintro r hr r' - ⟨e, rfl⟩
    exact absurd hr hfailed

theorem ended (h : Received frames rx results) (hclosed : rx.closed = true) :
    Received frames rx (results ++ [.ok none]) := by
  obtain ⟨hfailed, before, hbefore, hmessages⟩ := h.closed hclosed
  refine goodbye_snoc h.ordered ?_ h.sticky (fun hi => (h.goodbye hi).2) hbefore hmessages
    hfailed hclosed
  intro e he
  have hno := h.failed he
  simp [hfailed] at hno

theorem close (h : Received frames rx results) (hfailed : rx.failed = false)
    (hclosed : rx.closed = false) (hbody : frames[rx.nextSeq]? = some .close)
    (hfailed' : rx'.failed = false) (hclosed' : rx'.closed = true) :
    Received frames rx' (results ++ [.ok none]) := by
  obtain ⟨-, hbefore, hmessages⟩ := h.live hfailed hclosed
  refine goodbye_snoc h.ordered ?_ h.sticky (fun hi => (h.goodbye hi).2)
    ⟨hbefore, _, Segments.eq_take_cons_drop hbody⟩ hmessages hfailed' hclosed'
  intro e he
  have hno := h.failed he
  simp [hfailed] at hno

/-- **One pass of `recv` keeps it**, when an accepted frame is the peer's. -/
theorem receives (h : Received frames rx results)
    (haccepts : ∀ {env body}, rx.Accepts env body → frames[rx.nextSeq]? = some body)
    {result : Option (Except BusError (Option Bytes))} (hstep : rx.Receives rx' result) :
    Received frames rx' (results ++ result.toList) := by
  cases hstep with
  | ended hclosed =>
    rw [Option.toList_some]
    exact h.ended hclosed
  | more reader hclosed hfailed =>
    rw [Option.toList_none, List.append_nil]
    exact ⟨h.live, h.ordered, h.closed, h.goodbye, h.failed, h.sticky⟩
  | fail reader nextSeq e hclosed =>
    rw [Option.toList_some]
    refine h.fail hclosed ?_ ?_ e
    · rfl
    · exact hclosed
  | data reader env body hclosed hfailed haccept =>
    rw [Option.toList_some]
    refine h.frame hfailed hclosed (haccepts haccept) (by simp) ?_ ?_ ?_ ?_
    · rfl
    · exact hclosed
    · rfl
    · intro r hr
      exact ⟨body, List.mem_singleton.mp hr⟩
  | keepalive reader env hclosed hfailed haccept =>
    rw [Option.toList_none]
    refine h.frame hfailed hclosed (haccepts haccept) (by simp) ?_ ?_ ?_ ?_
    · rfl
    · exact hclosed
    · rfl
    · intro r hr
      cases hr
  | close reader env hclosed hfailed haccept =>
    rw [Option.toList_some]
    exact h.close hfailed hclosed (haccepts haccept) rfl rfl

end Received

/-! ### Along a run -/

/-- A pending `recv` that is dropped and called again is where it was. -/
theorem End.drop_recv {e : End W} (h : e.pending = true) : (e.step .drop).step .recv = e := by
  rw [step, step, ← h]

theorem SessionReceiver.Receives.link {rx rx' : SessionReceiver W}
    {result : Option (Except BusError (Option Bytes))} (h : rx.Receives rx' result) :
    rx'.link = rx.link := by
  cases h <;> rfl

theorem End.poll_receives (e : End W) (ev : Event) :
    e.step (.poll ev) = e ∨ ∃ rx pending result, e.rx.Receives rx result ∧
      e.step (.poll ev) = ⟨e.out, rx, pending, e.results ++ result.toList⟩ := by
  unfold step
  by_cases hpending : e.pending = true
  · simp only [hpending, if_true]
    have hreceives := e.rx.recv_receives ev
    generalize e.rx.recv ev = r at hreceives
    obtain ⟨rx, result⟩ := r
    refine .inr ⟨rx, result.isNone, result, hreceives, ?_⟩
    cases result with
    | none => simp
    | some result => rfl
  · exact .inl (if_neg hpending)

namespace Ends

/-- What `b` has of `a`'s frames, and who they are. -/
structure Flows (w : Ends W) : Prop where
  sound : w.a.out.Sound
  back : w.b.out.Sound
  session : w.b.rx.link.id = w.a.out.writer.link.id
  peer : w.b.rx.link.peer.agentFp = w.a.out.writer.link.agent.fingerprint
  apart : w.a.out.writer.link.agent.fingerprint ≠ w.b.out.writer.link.agent.fingerprint
  received : Received w.a.out.frames w.b.rx w.b.results

variable {w : Ends W}

/-- **A frame `b` accepts is the one `a` took at that place.** -/
theorem Flows.accepted (hW : W.Lawful) (h : w.Flows) (hgenuine : w.Genuine)
    {env : SignedEnvelope} {body : Body} (haccepts : w.b.rx.Accepts env body) :
    w.a.out.frames[w.b.rx.nextSeq]? = some body := by
  have hsigner : env.senderAgentFp W.toWire = w.a.out.writer.link.agent.fingerprint :=
    haccepts.signer.trans h.peer
  obtain ⟨e, hcopies, hsigned⟩ := hgenuine env haccepts.front haccepts.verified hsigner
  have hparsed := haccepts.parsed
  rw [hcopies.payload, h.session] at hparsed
  rcases hsigned with hmem | hmem | ⟨frame, hother, hpayload⟩ | ⟨msg, hpayload⟩
  · -- by `a`, in this session: at the place of its sequence
    obtain ⟨k, body', nonce, hk, rfl⟩ := h.sound.signed hmem
    have hplace : w.b.rx.nextSeq = k := haccepts.next.symm.trans hcopies.sequence
    have hframe := (hW.frame ⟨w.a.out.writer.link.id, body'⟩).symm.trans hparsed
    have hbody : body' = body := by simpa using hframe
    rw [hplace, hk, hbody]
  · -- by `b`, whose key is another
    obtain ⟨k, body', nonce, -, rfl⟩ := h.back.signed hmem
    exact absurd (hsigner.symm.trans hcopies.signer) h.apart
  · rw [hpayload, hW.frame] at hparsed
    exact absurd (congrArg Frame.session (Except.ok.inj hparsed)) hother
  · obtain ⟨error, herror⟩ := hW.message msg
    rw [hpayload, herror] at hparsed
    cases hparsed

theorem Flows.step (hW : W.Lawful) (h : w.Flows) (hgenuine : w.Genuine) (act : Side × End.Act) :
    (w.step act).Flows := by
  obtain ⟨side, act⟩ := act
  cases side with
  | a =>
    cases act with
    | write act =>
      have hsteps := w.a.out.step_steps act
      have hlink := hsteps.link
      obtain ⟨more, hmore⟩ := hsteps.taken
      have hframes : (w.a.out.step act).frames = w.a.out.frames ++ more.map (·.1) := by
        rw [Outgoing.frames, hmore, List.map_append]
        rfl
      refine ⟨h.sound.step act, h.back, ?_, ?_, ?_, ?_⟩
      · exact h.session.trans (congrArg Link.id hlink.symm)
      · exact h.peer.trans (congrArg (AgentKey.fingerprint ∘ Link.agent) hlink.symm)
      · show (w.a.out.step act).writer.link.agent.fingerprint ≠ _
        rw [hlink]
        exact h.apart
      · show Received (w.a.out.step act).frames w.b.rx w.b.results
        rw [hframes]
        exact h.received.append _
    | recv | drop => exact ⟨h.sound, h.back, h.session, h.peer, h.apart, h.received⟩
    | poll ev =>
      rcases w.a.poll_receives ev with heq | ⟨rx, pending, result, -, heq⟩
      · rw [show w.step (.a, .poll ev) = w from congrArg (Ends.mk · w.b) heq]
        exact h
      · rw [show w.step (.a, .poll ev) = ⟨_, w.b⟩ from congrArg (Ends.mk · w.b) heq]
        exact ⟨h.sound, h.back, h.session, h.peer, h.apart, h.received⟩
  | b =>
    cases act with
    | write act =>
      have hlink := (w.b.out.step_steps act).link
      refine ⟨h.sound, h.back.step act, h.session, h.peer, ?_, h.received⟩
      show _ ≠ (w.b.out.step act).writer.link.agent.fingerprint
      rw [hlink]
      exact h.apart
    | recv | drop => exact ⟨h.sound, h.back, h.session, h.peer, h.apart, h.received⟩
    | poll ev =>
      rcases w.b.poll_receives ev with heq | ⟨rx, pending, result, hreceives, heq⟩
      · rw [show w.step (.b, .poll ev) = w from congrArg (Ends.mk w.a) heq]
        exact h
      · rw [show w.step (.b, .poll ev) = ⟨w.a, _⟩ from congrArg (Ends.mk w.a) heq]
        have hlink := hreceives.link
        refine ⟨h.sound, h.back, ?_, ?_, h.apart, ?_⟩
        · exact (congrArg Link.id hlink).trans h.session
        · exact (congrArg (fun l => l.peer.agentFp) hlink).trans h.peer
        · exact h.received.receives (h.accepted hW hgenuine) hreceives

theorem sound_opened {link : Link W} {nonce : BitVec 192} {opening : Body} (buf : Bytes) (idle : ℕ)
    (hfits : Fits W.toEnvelopeWire (link.envelope nonce 0 opening)) :
    (End.opened link nonce opening buf idle).out.Sound := by
  refine ⟨?_, .ready rfl rfl rfl (by simp [End.opened, Stage.Abandoned]), le_rfl,
    Nat.le_succ 1, ?_, ?_, ?_, ?_⟩
  · intro k body env hk
    cases k with
    | zero =>
      cases hk
      exact ⟨nonce, rfl⟩
    | succ k => cases hk
  · intro x hx
    rw [List.mem_singleton.mp hx]
    exact hfits
  · exact ⟨[], by simp [End.opened, Outgoing.wire]⟩
  · exact ⟨[], by simp [End.opened, Outgoing.wire]⟩
  · simp [Outgoing.Finishing, End.opened]

theorem Flows.start (m : Meeting W) : m.ends.Flows := by
  refine ⟨sound_opened _ _ m.fits_a, sound_opened _ _ m.fits_b, rfl, rfl, m.distinct, ?_⟩
  have hfirst : dataOf [firstFrame m.opener m.topic .a] = [] ∧
      firstFrame m.opener m.topic .a ≠ .close := by
    rw [firstFrame]
    split_ifs <;> exact ⟨rfl, by simp⟩
  refine ⟨fun _ _ => ⟨le_rfl, ?_, ?_⟩, List.nil_prefix, ?_, ?_, ?_, List.Pairwise.nil⟩
  · show .close ∉ [firstFrame m.opener m.topic .a]
    simpa using hfirst.2.symm
  · exact hfirst.1.symm
  · intro hno
    cases hno
  · intro i hi
    cases hi
  · intro e he
    cases he

theorem Flows.run (hW : W.Lawful) (m : Meeting W) (acts : List (Side × End.Act))
    (hgenuine : ∀ pre, pre <+: acts → (m.ends.run pre).Genuine) : (m.ends.run acts).Flows := by
  induction acts using List.reverseRecOn with
  | nil => exact .start m
  | append_singleton acts act ih =>
    have hflows := ih fun pre hpre => hgenuine pre (hpre.trans (List.prefix_append _ _))
    rw [run_append]
    exact hflows.step hW (hgenuine acts (List.prefix_append _ _)) act

theorem dead_step (h : w.a.out.Dead) (act : Side × End.Act) :
    (w.step act).a.out.Dead ∧ (w.step act).a.out.writer.io = w.a.out.writer.io ∧
      (w.step act).a.out.taken = w.a.out.taken := by
  obtain ⟨side, act⟩ := act
  cases side with
  | b => exact ⟨h, rfl, rfl⟩
  | a =>
    cases act with
    | write act => exact h.step (w.a.out.step_steps act)
    | recv | drop => exact ⟨h, rfl, rfl⟩
    | poll ev =>
      have hout : (w.step (.a, .poll ev)).a.out = w.a.out := by
        rcases w.a.poll_receives ev with heq | ⟨rx, pending, result, -, heq⟩
        · rw [step, heq]
        · rw [step, heq]
      rw [hout]
      exact ⟨h, rfl, rfl⟩

/-- A dead writer's stream does not change, whatever both ends do. -/
theorem dead_run (h : w.a.out.Dead) (acts : List (Side × End.Act)) :
    (w.run acts).a.out.writer.io = w.a.out.writer.io ∧
      (w.run acts).a.out.taken = w.a.out.taken := by
  induction acts generalizing w with
  | nil => exact ⟨rfl, rfl⟩
  | cons act acts ih =>
    obtain ⟨hdead, hio, htaken⟩ := dead_step h act
    obtain ⟨hio', htaken'⟩ := ih hdead
    exact ⟨hio'.trans hio, htaken'.trans htaken⟩

end Ends

/-- **A session is a reliable ordered channel, or a failure.**  Whatever the
tasks of both ends do, wherever any of them is dropped and whatever bytes reach
`b`, as long as signatures of `a` are not made up: the messages `b`'s `recv`
calls return are the first of those `a`'s writer took; `recv` says goodbye only
behind every message before `a`'s; after an error there are only errors; a
`recv` that is dropped and called again makes no difference; and once a frame
write of `a` was cancelled or failed, nothing follows on its stream. -/
theorem session_reliable (hW : W.Lawful) (m : Meeting W) (acts : List (Side × End.Act))
    (hgenuine : ∀ pre, pre <+: acts → (m.ends.run pre).Genuine) :
    messages (m.ends.run acts).b.results <+: dataOf (m.ends.run acts).a.out.frames ∧
    (∀ i, (m.ends.run acts).b.results[i]? = some (.ok none) →
      ∃ before, ClosedAfter (m.ends.run acts).a.out.frames before ∧
        messages ((m.ends.run acts).b.results.take i) = dataOf before) ∧
    ((m.ends.run acts).b.results.Pairwise fun r r' =>
      (∃ e, r = .error e) → ∃ e, r' = .error e) ∧
    (∀ pre post, acts = pre ++ post → (m.ends.run pre).b.pending = true →
      m.ends.run (pre ++ (.b, .drop) :: (.b, .recv) :: post) = m.ends.run acts) ∧
    ∀ pre post, acts = pre ++ post →
      (∃ t ∈ (m.ends.run pre).a.out.tasks, t.stage.Abandoned) →
      (m.ends.run acts).a.out.writer.io = (m.ends.run pre).a.out.writer.io ∧
        (m.ends.run acts).a.out.taken = (m.ends.run pre).a.out.taken := by
  have hflows := Ends.Flows.run hW m acts hgenuine
  refine ⟨hflows.received.ordered, fun i hi => (hflows.received.goodbye hi).2,
    hflows.received.sticky, ?_, ?_⟩
  · rintro pre post rfl hpending
    rw [Ends.run_append, Ends.run_append]
    have hsame : ((m.ends.run pre).step (.b, .drop)).step (.b, .recv) = m.ends.run pre :=
      congrArg (Ends.mk _) (End.drop_recv hpending)
    show Ends.run (((m.ends.run pre).step (.b, .drop)).step (.b, .recv)) post = _
    rw [hsame]
  · rintro pre post rfl ⟨t, ht, habandoned⟩
    have hpre := Ends.Flows.run hW m pre fun p hp => hgenuine p (hp.trans (List.prefix_append _ _))
    rw [Ends.run_append]
    exact Ends.dead_run (hpre.sound.dead ht habandoned) post

deriving instance Countable for SessionId
deriving instance Countable for Body
deriving instance Countable for Frame

namespace Small

open Flock

noncomputable def frameJson (frames : List Frame) (f : Frame) : Bytes := 0 :: tabled frames f

def sessionFrame : Bytes → Option Bytes
  | 0 :: bytes => some bytes
  | _ => none

noncomputable def peerWire : Wire :=
  { wire.toWire with recipientJson := tabled [.direct ⟨1⟩, .direct ⟨2⟩] }

noncomputable def sessionWire (envelopes : List SignedEnvelope) (frames : List Frame) :
    SessionWire where
  toWire := peerWire
  envelopeJson := tabled envelopes
  envelopeOfJson b := okOr (recalled envelopes b) "eof"
  messageJson msg := 1 :: tabled messages msg
  messageOfJson b := okOr (recalled messages b.tail) "eof"
  frameJson := frameJson frames
  frameOfJson b := okOr ((sessionFrame b).bind (recalled frames)) "missing field"

theorem sessionWire_lawful (envelopes : List SignedEnvelope) (frames : List Frame) :
    (sessionWire envelopes frames).Lawful where
  envelope env := okOr_ok.mpr (recalled_tabled envelopes env)
  frame f := okOr_ok.mpr (recalled_tabled frames f)
  message _ := ⟨_, rfl⟩

/-- The envelope of a frame of agent `n` to agent `peer`. -/
noncomputable def frameEnv (frames : List Frame) (n : Seed) (peer : BitVec 256)
    (nonce : BitVec 192) (sequence : ℕ) (body : Body) : SignedEnvelope :=
  .new (W := peerWire) (key n) nonce (.direct ⟨peer⟩) sequence (frameJson frames ⟨⟨6⟩, body⟩)

def spoken : List Frame :=
  [⟨⟨6⟩, .data [7]⟩, ⟨⟨6⟩, .close⟩, ⟨⟨6⟩, .open_ "t"⟩, ⟨⟨6⟩, .accept⟩]

noncomputable def spokenWire : SessionWire :=
  sessionWire [frameEnv spoken 2 1 4 1 (.data [7]), frameEnv spoken 2 1 5 2 .close,
    frameEnv spoken 2 1 3 0 (.open_ "t"), frameEnv spoken 1 2 3 0 .accept] spoken

/-- Agent 2 opened session 6 to agent 1. -/
noncomputable def meeting : Meeting spokenWire where
  a := key 2
  b := key 1
  distinct := by decide +kernel
  id := ⟨6⟩
  topic := "t"
  opener := .a
  nonce _ := 3
  fits_a := by decide +kernel
  fits_b := by decide +kernel
  buf _ := []
  idle := 60

/-- Agent 2 sends a message, writing it in two pieces, and closes. -/
def closing : List (Side × End.Act) :=
  [.call (.send [7]), .poll 1 4 .flushed, .poll 1 4 (.wrote 3), .poll 1 4 (.wrote 9),
    .poll 1 4 .flushed, .call .close, .poll 2 5 .flushed, .poll 2 5 (.wrote 9),
    .poll 2 5 .flushed].map fun act => (.a, .write act)

/-- Agent 1 reads the bytes in pieces, giving up on its first `recv` between
two of them. -/
def reading : List (Side × End.Act) :=
  let ready (bytes : Bytes) : End.Act := .poll (.ready (.ok ()) (.ok bytes))
  [.recv, ready [0, 0, 0], .drop, .recv, ready [1, 0, 0, 0], ready [], .recv, ready [0, 2, 0, 0],
    ready []].map fun act => (.b, act)

end Small

set_option maxRecDepth 100000 in
theorem session_reliable_closed :
    let w := Small.meeting.ends.run (Small.closing ++ Small.reading)
    w.b.results = [.ok (some [7]), .ok none] ∧
    messages w.b.results <+: dataOf w.a.out.frames := by
  intro w
  have hgenuine : ∀ pre ∈ (Small.closing ++ Small.reading).inits,
      ∀ env ∈ (Small.meeting.ends.run pre).b.rx.reader.front Small.spokenWire.toEnvelopeWire,
        env ∈ (Small.meeting.ends.run pre).a.out.taken.map (·.2) := by
    decide +kernel
  refine ⟨by decide +kernel, (session_reliable (Small.sessionWire_lawful _ _) Small.meeting _ ?_).1⟩
  intro pre hpre env henv _ _
  exact ⟨env, ⟨rfl, rfl, rfl, rfl, rfl⟩,
    .inl (hgenuine pre (List.mem_inits _ _ |>.mpr hpre) env henv)⟩

end Bus
