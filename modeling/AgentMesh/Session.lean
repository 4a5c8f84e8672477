/-
Session streams: the two halves of one end.

A session is one stream carrying signed envelopes both ways; the payload of
each is a `Frame`, and its sequence is the frame's place in its own direction.
The sending half is one `Writer` behind a lock that every `send`, the `close`
and the keepalive task share: each of them is a task, advanced from one await
to the next in any order and droppable at any of them.  The receiving half is a
reader of envelopes with the expected sequence.

* `Outgoing.step` — what the tasks of the sending half do;
* `SessionReceiver.recv` — one pass of the receiving loop.
-/
import AgentMesh.EnvelopeStream
import AgentMesh.Inbox

open Mesh Transport

namespace Bus

/-! ### Frames -/

/-- A 16-byte session identifier, drawn by the opener. -/
structure SessionId where
  bytes : BitVec 128
  deriving DecidableEq

inductive Body where
  /-- First frame of the opener: which topic's handler to reach. -/
  | open_ (topic : String)
  /-- First frame of the responder when its handler accepts. -/
  | accept
  /-- First frame of the responder when the open is refused. -/
  | refuse (reason : String)
  | data (body : Bytes)
  | keepalive
  | close
  deriving DecidableEq

/-- One session frame, the payload of an envelope. -/
structure Frame where
  session : SessionId
  body : Body
  deriving DecidableEq

/-- The wire with the JSON of session frames. -/
structure SessionWire extends EnvelopeWire, MessageWire where
  frameJson : Frame → Bytes
  frameOfJson : Bytes → Except String Frame

/-- What is written is read back, and a message is never read as a frame. -/
structure SessionWire.Lawful (W : SessionWire) : Prop where
  envelope : ∀ env, W.envelopeOfJson (W.envelopeJson env) = .ok env
  frame : ∀ f, W.frameOfJson (W.frameJson f) = .ok f
  message : ∀ msg, ∃ e, W.frameOfJson (W.messageJson msg) = .error e

/-- The bodies of the data frames. -/
def dataOf (frames : List Body) : List Bytes :=
  frames.filterMap fun
    | .data body => some body
    | _ => none

@[simp] theorem dataOf_append (xs ys : List Body) : dataOf (xs ++ ys) = dataOf xs ++ dataOf ys :=
  List.filterMap_append

variable (W : SessionWire)

/-- Who a session's frames are between; shared by both halves. -/
structure Link where
  id : SessionId
  agent : AgentKey W.toCrypto
  peer : AuthenticatedPeer

variable {W} in
/-- The envelope of a frame (the nonce is fresh randomness). -/
def Link.envelope (l : Link W) (nonce : BitVec 192) (sequence : ℕ) (body : Body) :
    SignedEnvelope :=
  .new l.agent nonce (.direct l.peer.agentFp) sequence (W.frameJson ⟨l.id, body⟩)

/-! ### The sending half -/

structure Writer where
  link : Link W
  /-- The bytes the stream has taken. -/
  io : Bytes
  /-- The stream is finished. -/
  shut : Bool
  nextSeq : ℕ
  /-- False once the session is closed, or while (and after) a frame write
  was abandoned partway. -/
  intact : Bool

/-- What a task that writes is for. -/
inductive Job where
  | open_ (topic : String)
  | accept
  | refuse (reason : String)
  | send (body : Bytes)
  | close
  | keepalive
  deriving DecidableEq

def Job.body : Job → Body
  | .open_ topic => .open_ topic
  | .accept => .accept
  | .refuse reason => .refuse reason
  | .send body => .data body
  | .close => .close
  | .keepalive => .keepalive

inductive Stage where
  /-- The keepalive task between two frames. -/
  | sleeping
  /-- Before or inside `Writer::write`. -/
  | locking
  /-- Before or inside `close_stream`. -/
  | finishing
  | done
  /-- `Writer::write` failed. -/
  | failed (e : BusError)
  /-- Given up inside `Writer::write`, by its caller or because the bus is
  going. -/
  | torn (result : Option BusError)
  /-- Given up anywhere else. -/
  | gone (result : Option BusError)
  /-- The stream did not shut down. -/
  | unshut (e : BusError)
  deriving DecidableEq

def Stage.ended : Stage → Bool
  | .sleeping | .locking | .finishing => false
  | _ => true

/-- A frame write was cancelled or failed. -/
def Stage.Abandoned : Stage → Prop
  | .failed _ | .torn _ => True
  | _ => False

instance (s : Stage) : Decidable s.Abandoned := by
  cases s <;> unfold Stage.Abandoned <;> infer_instance

structure Task where
  job : Job
  stage : Stage
  deriving DecidableEq

/-- What follows a frame that was written. -/
def Job.next : Job → Stage
  | .keepalive => .sleeping
  | .close | .refuse _ => .finishing
  | _ => .done

/-- What the holder of the writer's lock is doing. -/
inductive Section where
  /-- Handing the rest of a frame to the stream, then flushing it. -/
  | writing (rest : Bytes)
  /-- Shutting the stream down. -/
  | shutting
  deriving DecidableEq

/-- The sending half: the writer, who holds its lock, the tasks that write,
and the frames the writer took, with the envelopes signed for them. -/
structure Outgoing where
  writer : Writer W
  lock : Option (ℕ × Section)
  tasks : List Task
  taken : List (Body × SignedEnvelope)

/-- What the stream does for the holder of the lock. -/
inductive Io where
  /-- It takes that many bytes. -/
  | wrote (n : ℕ)
  /-- It is flushed, or shut down. -/
  | flushed
  | failed (e : TransportError)
  deriving DecidableEq

namespace Outgoing

variable {W}

/-- A fresh sending half: its keepalive task has been spawned. -/
def new (link : Link W) : Outgoing W where
  writer := ⟨link, [], false, 0, true⟩
  lock := none
  tasks := [⟨.keepalive, .sleeping⟩]
  taken := []

def setStage (o : Outgoing W) (i : ℕ) (s : Stage) : Outgoing W :=
  { o with tasks := o.tasks.modify i fun t => { t with stage := s } }

/-- `Writer::write` of task `i`, which got the lock, up to its first await. -/
def write (o : Outgoing W) (i : ℕ) (job : Job) (nonce : BitVec 192) : Outgoing W :=
  if o.writer.intact then
    let env := o.writer.link.envelope nonce o.writer.nextSeq job.body
    let o := { o with writer.intact := false, taken := o.taken ++ [(job.body, env)] }
    match sendEnvelope W.toEnvelopeWire env with
    | .ok bytes => { o with lock := some (i, .writing bytes) }
    | .error e => o.setStage i (.failed (.transport e))
  else
    o.setStage i (.failed (.sessionProtocol
      "the session is closed, or a send was cancelled mid-frame"))

/-- Task `i` finds the lock free. -/
def enter (o : Outgoing W) (i : ℕ) (t : Task) (nonce : BitVec 192) : Outgoing W :=
  match t.stage with
  | .sleeping | .locking => o.write i t.job nonce
  | .finishing => { o with writer.intact := false, lock := some (i, .shutting) }
  | _ => o

/-- Task `i` goes on under the lock. -/
def inside (o : Outgoing W) (i : ℕ) (job : Job) : Section → Io → Outgoing W
  | .writing rest, .wrote n =>
    { o with
      writer.io := o.writer.io ++ rest.take n
      lock := some (i, .writing (rest.drop n)) }
  | .writing [], .flushed =>
    setStage
      { o with
        writer.intact := true
        writer.nextSeq := o.writer.nextSeq + 1
        lock := none } i job.next
  | .writing (_ :: _), .flushed => o
  | .writing _, .failed e => setStage { o with lock := none } i (.failed (.transport e))
  | .shutting, .wrote _ => o
  | .shutting, .flushed => setStage { o with writer.shut := true, lock := none } i .done
  | .shutting, .failed e => setStage { o with lock := none } i (.unshut (.transport e))

/-- Task `i` is polled.  One that waits for the lock goes on waiting while it
is held, and the keepalive task then skips its frame. -/
def poll (o : Outgoing W) (i : ℕ) (nonce : BitVec 192) (io : Io) : Outgoing W :=
  match o.tasks[i]?, o.lock with
  | some t, none => o.enter i t nonce
  | some t, some (j, s) => if j = i then o.inside i t.job s io else o
  | none, _ => o

/-- Task `i`, outside the lock, is given up. -/
def leave (o : Outgoing W) (i : ℕ) (t : Task) (result : Option BusError) : Outgoing W :=
  if t.stage.ended then o else o.setStage i (.gone result)

/-- Task `i` is given up, returning `result` if it returns at all.  The lock it
holds is released, the writer left as it is. -/
def abandon (o : Outgoing W) (i : ℕ) (t : Task) (result : Option BusError) : Outgoing W :=
  match o.lock with
  | some (j, .writing _) =>
    if j = i then setStage { o with lock := none } i (.torn result) else o.leave i t result
  | some (j, .shutting) =>
    if j = i then setStage { o with lock := none } i (.gone result) else o.leave i t result
  | none => o.leave i t result

inductive Act where
  /-- A call of `send`, `close`, `accept`, … begins. -/
  | call (job : Job)
  | poll (i : ℕ) (nonce : BitVec 192) (io : Io)
  /-- The future of task `i` is dropped. -/
  | cancel (i : ℕ)
  /-- `SessionSender::write` of task `i` sees that the bus is going. -/
  | shutdown (i : ℕ)
  deriving DecidableEq

def step (o : Outgoing W) : Act → Outgoing W
  | .call job =>
    { o with tasks := o.tasks ++ [⟨job, if job = .keepalive then .sleeping else .locking⟩] }
  | .poll i nonce io => o.poll i nonce io
  | .cancel i =>
    match o.tasks[i]? with
    | some t => o.abandon i t none
    | none => o
  | .shutdown i =>
    match o.tasks[i]? with
    | some t => if t.stage = .locking then o.abandon i t (some .notRunning) else o
    | none => o

def frames (o : Outgoing W) : List Body := o.taken.map (·.1)

end Outgoing

/-! ### The receiving half -/

structure SessionReceiver where
  reader : EnvelopeReader
  link : Link W
  nextSeq : ℕ
  idle : ℕ
  closed : Bool
  failed : Bool

/-- What a pending read comes to: the bus is going, nothing arrived in time, or
the reader makes a pass. -/
inductive Event where
  | shutdown
  | timeout
  | ready (live : Except TransportError Unit) (read : Except String Bytes)

/-- The error for a frame out of place. -/
def unexpected (body : Body) : BusError :=
  let kind := match body with
    | .open_ _ => "open"
    | .accept => "accept"
    | .refuse _ => "refuse"
    | .data _ => "data"
    | .keepalive => "keepalive"
    | .close => "close"
  .sessionProtocol s!"unexpected {kind} frame"

namespace SessionReceiver

variable {W}

/-- The checks on an envelope that was read. -/
def accept (rx : SessionReceiver W) (env : SignedEnvelope) :
    SessionReceiver W × Except BusError (SignedEnvelope × Body) :=
  match admitEnvelope W.toWire env (.direct rx.link.peer)
      (rx.link.agent.cert.userFingerprint W.toCrypto) rx.link.agent.fingerprint with
  | .error e => (rx, .error e)
  | .ok _ =>
    if env.sequence ≠ rx.nextSeq then
      (rx, .error (.badSequence (rx.link.peer.agentFp.hex W.toCrypto) rx.nextSeq env.sequence))
    else
      ({ rx with nextSeq := rx.nextSeq + 1 }, do
        let frame ← (W.frameOfJson env.payload).mapError .json
        ensure (frame.session = rx.link.id) (.sessionProtocol "a frame of another session")
        return (env, frame.body))

/-- One pass of `read_frame`; `none` is another pass. -/
def readFrame (rx : SessionReceiver W) :
    Event → SessionReceiver W × Option (Except BusError (SignedEnvelope × Body))
  | .shutdown => (rx, some (.error .notRunning))
  | .timeout => (rx, some (.error (.timeout rx.idle)))
  | .ready live read =>
    match rx.reader.next W.toEnvelopeWire live read with
    | (reader, none) => ({ rx with reader := reader }, none)
    | (reader, some (.error e)) => ({ rx with reader := reader }, some (.error (.transport e)))
    | (reader, some (.ok none)) => ({ rx with reader := reader }, some (.error .peerDisconnected))
    | (reader, some (.ok (some env))) => (accept { rx with reader := reader } env).map id some

def nextFrame (rx : SessionReceiver W) (ev : Event) :
    SessionReceiver W × Option (Except BusError (SignedEnvelope × Body)) :=
  if rx.failed then (rx, some (.error (.sessionProtocol "the session already failed")))
  else
    match rx.readFrame ev with
    | (rx, none) => (rx, none)
    | (rx, some (.error e)) => ({ rx with failed := true }, some (.error e))
    | (rx, some (.ok frame)) => ({ rx with failed := false }, some (.ok frame))

def recv (rx : SessionReceiver W) (ev : Event) :
    SessionReceiver W × Option (Except BusError (Option Bytes)) :=
  if rx.closed then (rx, some (.ok none))
  else
    match rx.nextFrame ev with
    | (rx, none) => (rx, none)
    | (rx, some (.error e)) => (rx, some (.error e))
    | (rx, some (.ok (_, .data body))) => (rx, some (.ok (some body)))
    | (rx, some (.ok (_, .keepalive))) => (rx, none)
    | (rx, some (.ok (_, .close))) => ({ rx with closed := true }, some (.ok none))
    | (rx, some (.ok (_, other))) => ({ rx with failed := true }, some (.error (unexpected other)))

end SessionReceiver

end Bus
