/-
Connections to the server.

The process that owns the log serves it on two sockets: the owner's, and the
attach socket, where a remote host's bridge connects.  Every connection has a
thread that reads a request, answers it and goes on.  The threads share the
server under one lock, which each takes for one access at a time; whatever the
others do may happen between two accesses.  A connection carries at most one
session, and its end is that session's end.

* `handle` — an ordinary request, under the lock;
* `Service.request` — a request, up to the end of its access;
* `Service.step` — the next access of any thread, and `Service.run` any
  interleaving of them.
-/
import AgentMesh.Delivery
import AgentMesh.Failures

open Std Mesh Framing

namespace Flock

/-! ### Requests and answers -/

/-- Which surface a connection came in on. -/
inductive Class where
  /-- The owner's socket: everything. -/
  | owner
  /-- The attach socket: what a remote host's session needs, nothing more. -/
  | remote
  deriving DecidableEq

/-- What a session signs to open a stream. -/
structure StreamChallenge where
  flock : ContentId
  nonce : BitVec 256
  deriving DecidableEq

/-- The id the session signs: that of a node with no parents.  `contentId` is how
such a node is hashed, if it can be encoded. -/
def StreamChallenge.id (c : StreamChallenge)
    (contentId : MerkleNode StreamChallenge → Except String ContentId) :
    Except ServerError ContentId :=
  (contentId ⟨∅, c⟩).mapError .encoding

/-- A session (or the operator) to the server. -/
inductive Req where
  | hello
  | genesis
  | invite (member : String)
  | registerDevice (cert : CertChain)
  | enrollBegin (token member : String) (pubkey : PubKey)
  | enrollFinish (challenge : PossessionChallenge) (proof : Signature)
  | renew (last : CertChain)
  | renewFinish (challenge : PossessionChallenge) (proof : Signature)
  | head (session : String)
  | admitNode (node : MerkleNode Event) (sig : Assertion)
  | end_
  | watchBegin
  | watch (from_ : Option Head) (proof : Assertion)
  | prove (proof : Assertion)
  | fileStat (root path : String)
  | file (root path : String) (id : RawContentId)

/-- The server's answer.  What a stream sends is a `Resp`. -/
inductive Answer where
  | hello (flock : ContentId) (epoch : ℕ)
  | genesis (genesis : SignedGenesis)
  | invited (token : String)
  | challenge (challenge : PossessionChallenge)
  | enrolled (session : String) (cert : CertChain) (pending : Bool)
  | cert (cert : CertChain)
  | current
  | head (prev : Option ContentId)
  | admitted (index : ℕ) (duplicate : Bool)
  | streamChallenge (challenge : StreamChallenge)
  | streamed (resp : Resp)
  | proved
  | fileId (id : RawContentId)
  | file (bytes : Bytes)
  | changedSinceCited (current : RawContentId)
  | unavailable (reason : String)
  | ok
  | err (why : String)
  deriving DecidableEq

/-- What the attach socket answers to a request it does not offer. -/
def notOffered : String := "not offered on the attach socket"

/-- Whether `class_` may make `req`: minting invites and registering devices
are the owner's alone. -/
def offered : Class → Req → Bool
  | .owner, _ => true
  | .remote, .invite _ => false
  | .remote, .registerDevice _ => false
  | .remote, .hello => true
  | .remote, .genesis => true
  | .remote, .enrollBegin .. => true
  | .remote, .enrollFinish .. => true
  | .remote, .renew _ => true
  | .remote, .renewFinish .. => true
  | .remote, .head _ => true
  | .remote, .admitNode .. => true
  | .remote, .end_ => true
  | .remote, .watchBegin => true
  | .remote, .watch .. => true
  | .remote, .prove _ => true
  | .remote, .fileStat .. => true
  | .remote, .file .. => true

/-- An error after which the server no longer reflects what was promised. -/
def ServerError.isFatal : ServerError → Bool
  | .io _ => true
  | .poisoned => true
  | _ => false

variable {P : Primitives}

/-! ### Reading the server -/

namespace Server

/-- Where `root` is on this host: only a root the roster declares, that this
host maps. -/
def rootDir (s : Server P) (rootPaths : BTreeMap String String) (root : String) : Option String :=
  if s.st.board.roots.any fun r => decide (r = root) then rootPaths[root]? else none

/-- Whether `session` is still an active session of a current member. -/
def sessionMayRead (s : Server P) (session : String) : Bool :=
  match s.st.sessions.get session with
  | some i => decide (i.status = .active) &&
      s.st.board.members.any fun m => decide (m.name = i.member)
  | none => false

/-- Ask to renew if the certificate is behind the epoch. -/
def renewOrCurrent (s : Server P) (last : CertChain) (io : Io) :
    Server P × Except ServerError Answer :=
  match s.st.sessions.get ((last.agentFingerprint P.toCrypto).hex P.toCrypto) with
  | some i =>
    if s.st.chain.epoch ≤ i.epoch then (s, .ok .current)
    else returning .challenge (s.renewBegin last io)
  | none => returning .challenge (s.renewBegin last io)

end Server

/-- What a request under the lock leaves: the server, the session the
connection carries, and the answer. -/
structure Handled (P : Primitives) where
  server : Server P
  bound : Option String
  result : Except ServerError Answer

/-- A request that leaves what the connection carries as it was. -/
def Handled.keeping (bound : Option String) (r : Server P × Except ServerError Answer) :
    Handled P := ⟨r.1, bound, r.2⟩

/-- What a second enrollment on a connection is told. -/
def alreadyCarries : ServerError := .session "this connection already carries a session"

def handle (s : Server P) (req : Req) (bound : Option String) (io : Io) : Handled P :=
  match req with
  | .hello => .keeping bound (s, .ok (.hello s.st.board.flock s.st.chain.epoch))
  | .genesis => .keeping bound (s, .ok (.genesis s.genesis))
  | .invite member =>
    .keeping bound (Server.returning (fun i => .invited i.token) (s.invite member io))
  | .registerDevice cert =>
    .keeping bound (Server.returning (fun _ => .ok) (s.registerDevice cert io))
  | .enrollBegin token member pubkey =>
    match bound with
    | some _ => .keeping bound (s, .error alreadyCarries)
    | none => .keeping bound (Server.returning .challenge (s.enrollBegin token member pubkey io))
  | .enrollFinish challenge proof =>
    match bound with
    | some _ => .keeping bound (s, .error alreadyCarries)
    | none =>
      match s.enrollFinish challenge proof io with
      | (s, .ok e) => ⟨s, some e.session, .ok (.enrolled e.session e.cert e.pending)⟩
      | (s, .error e) => ⟨s, none, .error e⟩
  | .renew last => .keeping bound (s.renewOrCurrent last io)
  | .renewFinish challenge proof =>
    .keeping bound (Server.returning .cert (s.renewFinish challenge proof io))
  | .head session => .keeping bound (s, .ok (.head (s.st.sessions.chainHead s.st.board session)))
  | .admitNode node sig =>
    .keeping bound (Server.returning (fun r => .admitted r.index r.duplicate)
      (s.admitNode node sig io))
  | .end_ => .keeping bound (s, .ok .ok)
  | .watchBegin | .watch .. | .prove _ | .fileStat .. | .file .. =>
    .keeping bound (s, .error (.session "a stream is opened by the connection"))

/-! ### The service -/

/-- The epoch after the last operation and the first failure to persist. -/
structure Gate where
  epoch : ℕ
  failure : Option String
  /-- How often who waits for the gate was to be notified. -/
  moved : ℕ
  deriving DecidableEq

def Gate.setEpoch (g : Gate) (epoch : ℕ) : Gate := { g with epoch, moved := g.moved + 1 }

/-- Record the first failure. -/
def Gate.fail (g : Gate) (why : String) : Gate :=
  { g with failure := some (g.failure.getD why), moved := g.moved + 1 }

/-- Where a connection's thread is. -/
inductive Stage where
  /-- It waits for a request. -/
  | reading
  /-- It knows where the root is and has yet to read the file. -/
  | locating (dir path : String) (cited : Option RawContentId)
  /-- The stream is authorized and has no cursor yet. -/
  | opening (session : String) (from_ : Option Head)
  | streaming (worker : Worker)
  /-- A fatal error is to be recorded before the answer, if there is one. -/
  | failing (why : ServerError) (answer : Option (Answer × Bool))
  /-- An answer is to be written; `more` says whether the connection goes on. -/
  | answering (answer : Answer) (more : Bool)
  /-- Out of the loop, with the session it carries still to be ended. -/
  | leaving
  | gone
  deriving DecidableEq

/-- One connection and the variables of its thread. -/
structure Conn where
  class_ : Class
  stage : Stage
  bound : Option String
  challenge : Option StreamChallenge
  proven : Option String
  /-- What the peer got so far. -/
  sent : List Answer
  deriving DecidableEq

def Conn.new (class_ : Class) : Conn := ⟨class_, .reading, none, none, none, []⟩

inductive Accepting where
  | waiting
  /-- It took a connection after looking at the flag and the failure. -/
  | taken
  | ended
  deriving DecidableEq

/-- How far the stop of the service got. -/
inductive Stopping where
  | no
  /-- Every accept loop has ended, and the journal is stopped. -/
  | draining
  /-- Every connection's thread was waited for. -/
  | stopped
  deriving DecidableEq

/-- What the threads share, and where each is. -/
structure Service (P : Primitives) where
  server : Server P
  /-- Where each declared root is on this host. -/
  rootPaths : BTreeMap String String
  /-- `content_id` of a stream challenge's node. -/
  contentId : MerkleNode StreamChallenge → Except String ContentId
  gate : Gate
  /-- How often the cursors of the journal were to be notified. -/
  more : ℕ
  /-- The flag that stops the accept loops. -/
  flag : Bool
  stopping : Stopping
  loops : List (Class × Accepting)
  /-- Every connection accepted, in order. -/
  conns : List Conn

namespace Service

/-- Serve `server` on the sockets of the classes given. -/
def start (server : Server P) (rootPaths : BTreeMap String String)
    (contentId : MerkleNode StreamChallenge → Except String ContentId) (classes : List Class) :
    Service P where
  server := server
  rootPaths := rootPaths
  contentId := contentId
  gate := ⟨server.st.chain.epoch, none, 0⟩
  more := 0
  flag := false
  stopping := .no
  loops := classes.map fun c => (c, .waiting)
  conns := []

/-- Run `f` on the server, then publish the epoch it left.  The journal notifies
its cursors at every frame that `f` publishes. -/
def with_ {α : Type} (x : Service P) (f : Server P → Server P × α) : Service P × α :=
  let (s, a) := f x.server
  ({ x with
    server := s
    gate := x.gate.setEpoch s.st.chain.epoch
    more := x.more + (s.journal.length - x.server.journal.length) }, a)

/-- The answer to an ordinary request, and whether the connection goes on: a
fatal error is recorded first. -/
def answered (result : Except ServerError Answer) (more : Bool) : Stage :=
  match result with
  | .ok a => .answering a more
  | .error e =>
    if e.isFatal then .failing e (some (.err e.text, more)) else .answering (.err e.text) more

/-- End the session the connection carries, if it carries one. -/
def goodbye (x : Service P) (c : Conn) (io : Io) : Service P × Conn :=
  match c.bound with
  | none => (x, { c with stage := answered (.ok .ok) false })
  | some session =>
    let (x, r) := x.with_ fun s => s.endSession session .closed io
    (x, { c with bound := none, stage := answered (r.map fun _ => .ok) false })

def ordinary (x : Service P) (c : Conn) (req : Req) (io : Io) : Service P × Conn :=
  let (x, r) := x.with_ fun s =>
    let h := handle s req c.bound io
    (h.server, h.bound, h.result)
  (x, { c with bound := r.1, stage := answered r.2 true })

/-- Who a proof shows the peer to be, by the challenge the connection holds. -/
def authorize (x : Service P) (c : Conn) (proof : Assertion) :
    Service P × Except ServerError String :=
  match c.challenge with
  | none => (x, .error (.session "ask for a stream challenge first"))
  | some ch =>
    match ch.id x.contentId with
    | .error e => (x, .error e)
    | .ok id => x.with_ fun s => (s, s.authorizeStream proof id)

/-- Answer a file request from a connection that proved membership: look up
where the root is.  The file is read outside the lock. -/
def fileResp (x : Service P) (c : Conn) (root path : String) (cited : Option RawContentId) :
    Service P × Conn :=
  match c.proven with
  | none => (x, { c with stage := .answering (.err "prove membership first") true })
  | some session =>
    let (y, dir) := x.with_ fun s =>
      (s, if s.sessionMayRead session then some (s.rootDir x.rootPaths root) else none)
    (y, { c with stage := match dir with
      | none => .answering (.err "this session may no longer read files") true
      | some none => .answering (.unavailable "unknown root") true
      | some (some dir) => .locating dir path cited })

/-- A request was read: answer it, up to the end of its access to the server. -/
def request (x : Service P) (c : Conn) (req : Req) (io : Io) : Service P × Conn :=
  if offered c.class_ req then
    match req with
    | .watchBegin =>
      let (x, flock) := x.with_ fun s => (s, s.st.board.flock)
      let ch : StreamChallenge := ⟨flock, io.rand 0⟩
      (x, { c with challenge := some ch, stage := .answering (.streamChallenge ch) true })
    | .watch from_ proof =>
      let (x, opened) := x.authorize c proof
      -- the challenge is spent whatever happens
      (x, { c with
        challenge := none
        stage := match opened with
          | .ok session => .opening session from_
          | .error e => .answering (.err e.text) false })
    | .prove proof =>
      match x.authorize c proof with
      | (x, .ok session) =>
        (x, { c with
          challenge := none
          proven := some session
          stage := .answering .proved true })
      | (x, .error e) =>
        (x, { c with challenge := none, stage := .answering (.err e.text) true })
    | .fileStat root path => x.fileResp c root path none
    | .file root path id => x.fileResp c root path (some id)
    | .end_ => x.goodbye c io
    | req => x.ordinary c req io
  else (x, { c with stage := .answering (.err notOffered) true })

end Service

/-- The answer to a file request, by what reading the file gave. -/
def fileAnswer (P : Primitives) (cited : Option RawContentId) :
    Except String Bytes → Answer
  | .error reason => .unavailable reason
  | .ok bytes =>
    match cited with
    | none => .fileId (P.rawId bytes)
    | some id =>
      if id = P.rawId bytes then .file bytes else .changedSinceCited (P.rawId bytes)

inductive ThreadAct where
  /-- It reads a request and makes its access to the server. -/
  | request (req : Req) (io : Io)
  /-- There is nothing more to read. -/
  | hangUp
  /-- It reads the file; `read` is what the host's files are then. -/
  | readFile (read : String → String → Except String Bytes)
  /-- It places the stream's cursor. -/
  | place (w : Sock)
  /-- The stream's worker makes its next access. -/
  | work (w w' : Sock)
  /-- The peer of a stream went away. -/
  | cancel
  /-- It records the failure. -/
  | record
  /-- It writes its answer. -/
  | write (w : Sock)
  /-- It ends the session it carries. -/
  | leave (io : Io)

/-- The connection with its stream where `k` is: one that ended leaves the loop. -/
def Conn.follow (c : Conn) (k : Worker) : Conn :=
  if k.phase = .ended then
    { c with stage := .leaving, sent := c.sent ++ k.sent.map .streamed }
  else { c with stage := .streaming k }

namespace Service

/-- Whether the journal is stopped. -/
def journalStopped (x : Service P) : Bool := decide (x.stopping ≠ .no)

/-- Place the cursor of an authorized stream.  A lookup that panics unwinds the
thread, and nothing ends its session. -/
def place (x : Service P) (c : Conn) (session : String) (from_ : Option Head) (w : Sock) : Conn :=
  if Journal.cursorFrom P x.server.journal from_ = .panicked then { c with stage := .gone }
  else c.follow (stream P x.server.journal session from_ w)

/-- The worker's next access; the one that looks up the session's start takes
the server's lock. -/
def work (x : Service P) (c : Conn) (k : Worker) (w w' : Sock) : Service P × Conn :=
  let next := c.follow (k.step x.server x.journalStopped w w')
  match k.phase with
  | .measured .. => ((x.with_ fun s => (s, ())).1, next)
  | _ => (x, next)

/-- Record the failure and go on to the answer, if there is one. -/
def record (x : Service P) (c : Conn) (why : ServerError) (answer : Option (Answer × Bool)) :
    Service P × Conn :=
  ({ x with gate := x.gate.fail why.text },
    { c with stage := match answer with
      | some (a, more) => .answering a more
      | none => .gone })

/-- End the session the connection carries: the stream or the process is gone. -/
def leave (x : Service P) (c : Conn) (io : Io) : Service P × Conn :=
  match c.bound with
  | none => (x, { c with stage := .gone })
  | some session =>
    let (x, r) := x.with_ fun s => s.endSession session .lost io
    (x, { c with stage := match r with
      | .ok () => .gone
      | .error e => if e.isFatal then .failing e none else .gone })

/-- The next access of one connection's thread.  What does not fit where the
thread is does nothing. -/
def thread (x : Service P) (c : Conn) (a : ThreadAct) : Service P × Conn :=
  match c.stage, a with
  | .reading, .request req io => x.request c req io
  | .reading, .hangUp => (x, { c with stage := .leaving })
  | .locating dir path cited, .readFile read =>
    (x, { c with stage := .answering (fileAnswer P cited (read dir path)) true })
  | .opening session from_, .place w => (x, x.place c session from_ w)
  | .streaming k, .work w w' => x.work c k w w'
  | .streaming k, .cancel =>
    ({ x with more := x.more + 1 }, { c with stage := .streaming { k with cancelled := true } })
  | .failing why answer, .record => x.record c why answer
  | .answering a more, .write w =>
    (x, { c with
      sent := c.sent ++ (if w = .lost then [] else [a])
      stage := if w = .done ∧ more = true then .reading else .leaving })
  | .leaving, .leave io => x.leave c io
  | _, _ => (x, c)

end Service

inductive Service.Act where
  /-- An accept loop takes a connection, or ends. -/
  | incoming (k : ℕ)
  /-- It gives the connection a thread; one whose peer is not `good` it drops. -/
  | spawn (k : ℕ) (good : Bool)
  | thread (id : ℕ) (a : ThreadAct)
  /-- The flag is set. -/
  | stop
  | joinLoops
  | joinConns

namespace Service

/-- The next access of any thread. -/
def step (x : Service P) : Service.Act → Service P
  | .incoming k =>
    match x.loops[k]? with
    | some (c, .waiting) =>
      let next := if x.flag = true ∨ x.gate.failure.isSome then .ended else .taken
      { x with loops := x.loops.set k (c, next) }
    | _ => x
  | .spawn k good =>
    match x.loops[k]? with
    | some (c, .taken) =>
      { x with
        loops := x.loops.set k (c, .waiting)
        conns := if good then x.conns ++ [Conn.new c] else x.conns }
    | _ => x
  | .thread id a =>
    match x.conns[id]? with
    | some c =>
      let (y, c) := x.thread c a
      { y with conns := y.conns.set id c }
    | none => x
  | .stop => { x with flag := true }
  | .joinLoops =>
    if x.stopping = .no ∧ x.loops.all fun l => decide (l.2 = .ended) then
      -- the journal stops, and says so
      { x with stopping := .draining, more := x.more + 1 }
    else x
  | .joinConns =>
    if x.stopping = .draining ∧ x.conns.all fun c => decide (c.stage = .gone) then
      { x with stopping := .stopped }
    else x

/-- Any interleaving of the threads. -/
def run (x : Service P) (acts : List Service.Act) : Service P := acts.foldl step x

@[simp] theorem run_nil (x : Service P) : x.run [] = x := rfl

@[simp] theorem run_cons (x : Service P) (a : Service.Act) (acts : List Service.Act) :
    x.run (a :: acts) = (x.step a).run acts := rfl

theorem run_append (x : Service P) (acts acts' : List Service.Act) :
    x.run (acts ++ acts') = (x.run acts).run acts' := List.foldl_append

/-- **Induction over an interleaving.** -/
theorem run_invariant (Inv : Service P → Prop) (hstep : ∀ {x a}, Inv x → Inv (x.step a))
    {x : Service P} (h : Inv x) (acts : List Service.Act) : Inv (x.run acts) := by
  induction acts generalizing x with
  | nil => exact h
  | cons a acts ih => exact ih (hstep h)

end Service

end Flock
