/-
What one access of a connection's thread does.

Every result about interleavings of connections rests on one inversion:
`Service.thread` case by case, with what each case found and what it left.

* `Access` and `Service.thread_access` — the cases;
* `Moves` and `Service.step_moves` — what any step does: nothing to the connections,
  a new connection, or one access;
* `handle_calls`, `Access.server_calls` — the server moves only by its own calls;
* `Service.run_world` — so a run of the service is a run of its server, and what
  holds of the server over every run holds under every interleaving.
-/
import AgentMesh.Bookkeeping
import AgentMesh.Connections

open Std Mesh Framing

namespace Flock

variable {P : Primitives}

/-! ### Requests under the lock -/

/-- The requests that `Service.ordinary` handles. -/
def Req.ordinary : Req → Bool
  | .watchBegin | .watch .. | .prove _ | .fileStat .. | .file .. | .end_ => false
  | _ => true

/-- **A request is at most one call on the server.** -/
theorem handle_calls (s : Server P) (req : Req) (bound : Option String) (io : Io) :
    (handle s req bound io).server = s ∨
      ∃ c, (handle s req bound io).server = (s.call c io).1 := by
  cases req with
  | hello | genesis | head | end_ | watchBegin | watch | prove | fileStat | file => exact .inl rfl
  | invite member => exact .inr ⟨.invite member, rfl⟩
  | registerDevice cert => exact .inr ⟨.registerDevice cert, rfl⟩
  | enrollBegin token member pubkey =>
    cases bound with
    | some a => exact .inl rfl
    | none => exact .inr ⟨.enrollBegin token member pubkey, rfl⟩
  | enrollFinish challenge proof =>
    cases bound with
    | some a => exact .inl rfl
    | none =>
      refine .inr ⟨.enrollFinish challenge proof, ?_⟩
      rw [handle, Server.call, Server.returning_fst]
      generalize s.enrollFinish challenge proof io = r
      obtain ⟨s', r⟩ := r
      cases r <;> rfl
  | renew last =>
    show (s.renewOrCurrent last io).1 = s ∨ ∃ c, (s.renewOrCurrent last io).1 = (s.call c io).1
    rw [Server.renewOrCurrent]
    split
    · split
      · exact .inl rfl
      · exact .inr ⟨.renewBegin last, rfl⟩
    · exact .inr ⟨.renewBegin last, rfl⟩
  | renewFinish challenge proof => exact .inr ⟨.renewFinish challenge proof, rfl⟩
  | admitNode node sig => exact .inr ⟨.admitNode node sig, rfl⟩

/-- A request leaves what the connection carries as it was, unless it finishes
an enrollment on a connection that carries nothing. -/
theorem handle_bound (s : Server P) (req : Req) (bound : Option String) (io : Io) :
    (handle s req bound io).bound = bound ∨
      ∃ challenge proof e, req = .enrollFinish challenge proof ∧ bound = none ∧
        (s.enrollFinish challenge proof io).2 = .ok e ∧
        (handle s req bound io).server = (s.enrollFinish challenge proof io).1 ∧
        (handle s req bound io).bound = some e.session := by
  cases req with
  | enrollBegin token member pubkey => cases bound <;> exact .inl rfl
  | enrollFinish challenge proof =>
    cases bound with
    | some a => exact .inl rfl
    | none =>
      rw [handle]
      generalize hr : s.enrollFinish challenge proof io = r
      obtain ⟨s', r⟩ := r
      cases r with
      | error e => exact .inl rfl
      | ok e => exact .inr ⟨challenge, proof, e, rfl, rfl, by rw [hr], by rw [hr], rfl⟩
  | hello | genesis | head | end_ | watchBegin | watch | prove | fileStat | file | invite
  | registerDevice | renew | renewFinish | admitNode => exact .inl rfl

/-! ### The cases of an access -/

/-- The service with the server as an access leaves it, its epoch published and its
frames announced. -/
def Service.leaves (x : Service P) (s : Server P) : Service P :=
  { x with
    server := s
    gate := x.gate.setEpoch s.st.chain.epoch
    more := x.more + (s.journal.length - x.server.journal.length) }

/-- A request for a file, or for its id. -/
def fileReq (root path : String) : Option RawContentId → Req
  | none => .fileStat root path
  | some id => .file root path id

/-- Whether a thread at this stage may do this next. -/
def ThreadAct.fits : ThreadAct → Stage → Bool
  | .request .., .reading | .hangUp, .reading | .readFile _, .locating .. | .place _, .opening ..
  | .work .., .streaming _ | .cancel, .streaming _ | .record, .failing .. | .write _, .answering ..
  | .leave _, .leaving => true
  | _, _ => false

/-- What an access of a connection's thread does. -/
inductive Access (x : Service P) (c : Conn) : ThreadAct → Service P → Conn → Prop where
  /-- It does not fit where the thread is. -/
  | still {a : ThreadAct} (unfit : a.fits c.stage = false) : Access x c a x c
  | declined (reading : c.stage = .reading) (req : Req) (closed : offered c.class_ req = false)
      {io : Io} :
      Access x c (.request req io) x { c with stage := .answering (.err notOffered) true }
  | challenged (reading : c.stage = .reading) (io : Io) :
      Access x c (.request .watchBegin io) (x.leaves x.server)
        { c with
          challenge := some ⟨x.server.st.board.flock, io.rand 0⟩
          stage := .answering (.streamChallenge ⟨x.server.st.board.flock, io.rand 0⟩) true }
  | watched (reading : c.stage = .reading) (from_ : Option Head) (proof : Assertion)
      (ch : StreamChallenge) (id : ContentId) (session : String) (held : c.challenge = some ch)
      (named : ch.id x.contentId = .ok id) (shown : x.server.authorizeStream proof id = .ok session)
      {io : Io} :
      Access x c (.request (.watch from_ proof) io) (x.leaves x.server)
        { c with challenge := none, stage := .opening session from_ }
  | proved (reading : c.stage = .reading) (proof : Assertion) (ch : StreamChallenge)
      (id : ContentId) (session : String) (held : c.challenge = some ch)
      (named : ch.id x.contentId = .ok id) (shown : x.server.authorizeStream proof id = .ok session)
      {io : Io} :
      Access x c (.request (.prove proof) io) (x.leaves x.server)
        { c with challenge := none, proven := some session, stage := .answering .proved true }
  /-- A watch or a proof that is not accepted. -/
  | unproved (reading : c.stage = .reading) (why : ServerError) (more : Bool) {y : Service P}
      (same : y = x ∨ y = x.leaves x.server) {req : Req} {proof : Assertion}
      (asked : req = .prove proof ∨ ∃ from_, req = .watch from_ proof)
      (refused : (x.authorize c proof).2 = .error why) {io : Io} :
      Access x c (.request req io) y
        { c with challenge := none, stage := .answering (.err why.text) more }
  /-- A file request that is answered without a look at the file. -/
  | unread (reading : c.stage = .reading) (answer : Answer) (empty : ∀ bytes, answer ≠ .file bytes)
      {y : Service P} (same : y = x ∨ y = x.leaves x.server) {root path : String}
      {cited : Option RawContentId} {io : Io} :
      Access x c (.request (fileReq root path cited) io) y
        { c with stage := .answering answer true }
  | located (reading : c.stage = .reading) (session root dir path : String)
      (cited : Option RawContentId) (proven : c.proven = some session)
      (may : x.server.sessionMayRead session = true)
      (mapped : x.server.rootDir x.rootPaths root = some dir) {io : Io} :
      Access x c (.request (fileReq root path cited) io) (x.leaves x.server)
        { c with stage := .locating dir path cited }
  /-- A goodbye from a connection that carries nothing. -/
  | farewell (reading : c.stage = .reading) (unbound : c.bound = none) {io : Io} :
      Access x c (.request .end_ io) x { c with stage := .answering .ok false }
  | closed (reading : c.stage = .reading) (session : String) (bound : c.bound = some session)
      (io : Io) :
      Access x c (.request .end_ io) (x.leaves (x.server.endSession session .closed io).1)
        { c with
          bound := none
          stage := Service.answered ((x.server.endSession session .closed io).2.map fun _ => .ok)
            false }
  | handled (reading : c.stage = .reading) (req : Req) (io : Io)
      (allowed : offered c.class_ req = true) (ordinary : req.ordinary = true) :
      Access x c (.request req io) (x.leaves (handle x.server req c.bound io).server)
        { c with
          bound := (handle x.server req c.bound io).bound
          stage := Service.answered (handle x.server req c.bound io).result true }
  | hungUp (reading : c.stage = .reading) : Access x c .hangUp x { c with stage := .leaving }
  | read (dir path : String) (cited : Option RawContentId)
      (locating : c.stage = .locating dir path cited)
      (file : String → String → Except String Bytes) :
      Access x c (.readFile file) x
        { c with stage := .answering (fileAnswer P cited (file dir path)) true }
  | panicked (session : String) (from_ : Option Head) (opening : c.stage = .opening session from_)
      (lost : Journal.cursorFrom P x.server.journal from_ = .panicked) {w : Sock} :
      Access x c (.place w) x { c with stage := .gone }
  | placed (session : String) (from_ : Option Head) (opening : c.stage = .opening session from_)
      (w : Sock) :
      Access x c (.place w) x (c.follow (stream P x.server.journal session from_ w))
  | worked (k : Worker) (streaming : c.stage = .streaming k) (w w' : Sock) {y : Service P}
      (same : y = x ∨ y = x.leaves x.server) :
      Access x c (.work w w') y (c.follow (k.step x.server x.journalStopped w w'))
  | cancelled (k : Worker) (streaming : c.stage = .streaming k) :
      Access x c .cancel { x with more := x.more + 1 }
        { c with stage := .streaming { k with cancelled := true } }
  /-- The failure is recorded and the answer comes next. -/
  | recorded (why : ServerError) (answer : Answer) (more : Bool)
      (failing : c.stage = .failing why (some (answer, more))) :
      Access x c .record { x with gate := x.gate.fail why.text }
        { c with stage := .answering answer more }
  /-- The failure of the last access is recorded. -/
  | recordedLast (why : ServerError) (failing : c.stage = .failing why none) :
      Access x c .record { x with gate := x.gate.fail why.text } { c with stage := .gone }
  | wrote (answer : Answer) (more : Bool) (answering : c.stage = .answering answer more)
      (w : Sock) :
      Access x c (.write w) x
        { c with
          sent := c.sent ++ (if w = .lost then [] else [answer])
          stage := if w = .done ∧ more = true then .reading else .leaving }
  | left (leaving : c.stage = .leaving) (unbound : c.bound = none) {io : Io} :
      Access x c (.leave io) x { c with stage := .gone }
  /-- The session the connection carries is ended as lost. -/
  | lost (leaving : c.stage = .leaving) (session : String) (bound : c.bound = some session)
      (io : Io) {stage : Stage}
      (ends : stage = .gone ∨ ∃ e, e.isFatal = true ∧ stage = .failing e none ∧
        (x.server.endSession session .lost io).2 = .error e) :
      Access x c (.leave io) (x.leaves (x.server.endSession session .lost io).1)
        { c with stage := stage }

namespace Service

variable {x : Service P} {c : Conn}

/-- What the server makes of a proof, by the challenge the connection holds. -/
theorem authorize_cases (x : Service P) (c : Conn) (proof : Assertion) :
    (∃ y e, (y = x ∨ y = x.leaves x.server) ∧ x.authorize c proof = (y, .error e)) ∨
    ∃ ch id session, c.challenge = some ch ∧ ch.id x.contentId = .ok id ∧
      x.server.authorizeStream proof id = .ok session ∧
      x.authorize c proof = (x.leaves x.server, .ok session) := by
  unfold authorize
  split
  · exact .inl ⟨_, _, .inl rfl, rfl⟩
  · rename_i ch hch
    split
    · exact .inl ⟨_, _, .inl rfl, rfl⟩
    · rename_i id hid
      cases hshown : x.server.authorizeStream proof id with
      | error e => exact .inl ⟨_, e, .inr rfl, by rw [with_, hshown]; rfl⟩
      | ok session => exact .inr ⟨ch, id, session, hch, hid, hshown, by rw [with_, hshown]; rfl⟩

theorem fileResp_access (hreading : c.stage = .reading) (root path : String)
    (cited : Option RawContentId) (io : Io) :
    Access x c (.request (fileReq root path cited) io) (x.fileResp c root path cited).1
      (x.fileResp c root path cited).2 := by
  unfold fileResp
  split
  · exact .unread hreading _ (by intro bytes h; cases h) (.inl rfl)
  · rename_i session hproven
    by_cases hmay : x.server.sessionMayRead session = true
    · simp only [with_, hmay, if_true]
      cases hdir : x.server.rootDir x.rootPaths root with
      | none => exact .unread hreading _ (by intro bytes h; cases h) (.inr rfl)
      | some dir => exact .located hreading session root dir path cited hproven hmay hdir
    · simp only [with_, hmay]
      exact .unread hreading _ (by intro bytes h; cases h) (.inr rfl)

theorem goodbye_access (hreading : c.stage = .reading) (io : Io) :
    Access x c (.request .end_ io) (x.goodbye c io).1 (x.goodbye c io).2 := by
  unfold goodbye
  split
  · rename_i hbound
    exact .farewell hreading hbound
  · rename_i session hbound
    exact .closed hreading session hbound io

theorem request_access (hreading : c.stage = .reading) (req : Req) (io : Io) :
    Access x c (.request req io) (x.request c req io).1 (x.request c req io).2 := by
  unfold request
  split
  · rename_i hallowed
    cases req with
    | watchBegin => exact .challenged hreading io
    | watch from_ proof =>
      rcases authorize_cases x c proof with
        ⟨y, e, hy, hauth⟩ | ⟨ch, id, session, hch, hid, hs, hauth⟩
      · simp only [hauth]
        exact .unproved hreading e false hy (.inr ⟨from_, rfl⟩) (by rw [hauth])
      · simp only [hauth]
        exact .watched hreading from_ proof ch id session hch hid hs
    | prove proof =>
      rcases authorize_cases x c proof with
        ⟨y, e, hy, hauth⟩ | ⟨ch, id, session, hch, hid, hs, hauth⟩
      · simp only [hauth]
        exact .unproved hreading e true hy (.inl rfl) (by rw [hauth])
      · simp only [hauth]
        exact .proved hreading proof ch id session hch hid hs
    | fileStat root path => exact fileResp_access hreading root path none io
    | file root path id => exact fileResp_access hreading root path (some id) io
    | end_ => exact goodbye_access hreading io
    | hello | genesis | invite | registerDevice | enrollBegin | enrollFinish | renew | renewFinish
    | head | admitNode => exact .handled hreading _ io hallowed rfl
  · rename_i hclosed
    exact .declined hreading req (by simpa using hclosed)

theorem leave_access (hleaving : c.stage = .leaving) (io : Io) :
    Access x c (.leave io) (x.leave c io).1 (x.leave c io).2 := by
  unfold leave
  split
  · rename_i hbound
    exact .left hleaving hbound
  · rename_i session hbound
    simp only [with_]
    refine .lost hleaving session hbound io ?_
    cases hr : (x.server.endSession session .lost io).2 with
    | ok u => exact .inl rfl
    | error e =>
      by_cases hfatal : e.isFatal = true
      · exact .inr ⟨e, hfatal, if_pos hfatal, rfl⟩
      · exact .inl (if_neg hfatal)

/-- **What a thread does next is one of the cases.** -/
theorem thread_access (x : Service P) (c : Conn) (a : ThreadAct) :
    Access x c a (x.thread c a).1 (x.thread c a).2 := by
  unfold thread
  split
  · rename_i req io hreading
    exact request_access hreading req io
  · rename_i hreading
    exact .hungUp hreading
  · rename_i dir path cited file hlocating
    exact .read dir path cited hlocating file
  · rename_i session from_ w hopening
    unfold place
    split
    · rename_i hlost
      exact .panicked session from_ hopening hlost
    · exact .placed session from_ hopening w
  · rename_i k w w' hstreaming
    unfold work
    split
    · exact .worked k hstreaming w w' (.inr rfl)
    · exact .worked k hstreaming w w' (.inl rfl)
  · rename_i k hstreaming
    exact .cancelled k hstreaming
  · rename_i why answer hfailing
    cases answer with
    | none => exact .recordedLast why hfailing
    | some a => exact .recorded why a.1 a.2 hfailing
  · rename_i answer more w hanswering
    exact .wrote answer more hanswering w
  · rename_i io hleaving
    exact leave_access hleaving io
  · refine .still ?_
    unfold ThreadAct.fits
    split <;> grind

end Service

structure Service.Framed (x y : Service P) : Prop where
  conns : y.conns = x.conns
  loops : y.loops = x.loops
  flag : y.flag = x.flag
  stopping : y.stopping = x.stopping
  rootPaths : y.rootPaths = x.rootPaths
  contentId : y.contentId = x.contentId

theorem Access.framed {x y : Service P} {c c' : Conn} {a : ThreadAct} (h : Access x c a y c') :
    x.Framed y := by
  cases h with
  | unproved _ _ _ same | unread _ _ _ same | worked _ _ _ _ same =>
    rcases same with rfl | rfl <;> exact ⟨rfl, rfl, rfl, rfl, rfl, rfl⟩
  | still | declined | challenged | watched | proved | located | farewell | closed | handled
  | hungUp | read | panicked | placed | cancelled | recorded | recordedLast | wrote | left | lost =>
    exact ⟨rfl, rfl, rfl, rfl, rfl, rfl⟩

/-! ### Steps -/

inductive Moves (x : Service P) : Service.Act → Service P → Prop where
  | idle (a : Service.Act) : Moves x a x
  | takes (k : ℕ) (class_ : Class) (waiting : x.loops[k]? = some (class_, .waiting))
      (running : x.flag = false ∧ x.gate.failure = none) :
      Moves x (.incoming k) { x with loops := x.loops.set k (class_, .taken) }
  | ends (k : ℕ) (class_ : Class) (waiting : x.loops[k]? = some (class_, .waiting)) :
      Moves x (.incoming k) { x with loops := x.loops.set k (class_, .ended) }
  | drops (k : ℕ) (class_ : Class) (taken : x.loops[k]? = some (class_, .taken)) :
      Moves x (.spawn k false) { x with loops := x.loops.set k (class_, .waiting) }
  | accepts (k : ℕ) (class_ : Class) (taken : x.loops[k]? = some (class_, .taken)) :
      Moves x (.spawn k true)
        { x with
          loops := x.loops.set k (class_, .waiting)
          conns := x.conns ++ [Conn.new class_] }
  | accesses (id : ℕ) (act : ThreadAct) {c c' : Conn} {y : Service P}
      (known : x.conns[id]? = some c) (access : Access x c act y c') :
      Moves x (.thread id act) { y with conns := x.conns.set id c' }
  | flagged : Moves x .stop { x with flag := true }
  | drained (running : x.stopping = .no) (ended : ∀ l ∈ x.loops, l.2 = .ended) :
      Moves x .joinLoops { x with stopping := .draining, more := x.more + 1 }
  | stopped (draining : x.stopping = .draining) (gone : ∀ c ∈ x.conns, c.stage = .gone) :
      Moves x .joinConns { x with stopping := .stopped }

theorem Service.step_thread {x : Service P} {id : ℕ} {c : Conn} (hc : x.conns[id]? = some c)
    (act : ThreadAct) : ∃ y c', Access x c act y c' ∧
      x.step (.thread id act) = { y with conns := x.conns.set id c' } := by
  have haccess := thread_access x c act
  refine ⟨_, _, haccess, ?_⟩
  rw [step, hc, ← haccess.framed.conns]

/-- **What a step does is one of the moves.** -/
theorem Service.step_moves (x : Service P) (a : Service.Act) : Moves x a (x.step a) := by
  cases a with
  | incoming k =>
    rw [step]
    split
    · rename_i class_ hwaiting
      by_cases hover : x.flag = true ∨ x.gate.failure.isSome
      · rw [if_pos hover]
        exact .ends k class_ hwaiting
      · rw [if_neg hover]
        exact .takes k class_ hwaiting (by simpa using hover)
    · exact .idle _
  | spawn k good =>
    rw [step]
    split
    · rename_i class_ htaken
      cases good with
      | true => exact .accepts k class_ htaken
      | false => exact .drops k class_ htaken
    · exact .idle _
  | thread id act =>
    cases hc : x.conns[id]? with
    | none =>
      rw [step, hc]
      exact .idle _
    | some c =>
      obtain ⟨y, c', haccess, hstep⟩ := step_thread hc act
      rw [hstep]
      exact .accesses id act hc haccess
  | stop => exact .flagged
  | joinLoops =>
    rw [step]
    split
    · rename_i h
      exact .drained h.1 (by simpa using h.2)
    · exact .idle _
  | joinConns =>
    rw [step]
    split
    · rename_i h
      exact .stopped h.1 (by simpa using h.2)
    · exact .idle _

/-- Roots and the names of challenges are fixed when the service starts. -/
theorem Service.run_fixed (x : Service P) (acts : List Service.Act) :
    (x.run acts).rootPaths = x.rootPaths ∧ (x.run acts).contentId = x.contentId := by
  refine run_invariant (fun y => y.rootPaths = x.rootPaths ∧ y.contentId = x.contentId) ?_
    ⟨rfl, rfl⟩
    acts
  intro y a hy
  have hmove := y.step_moves a
  generalize y.step a = z at hmove
  cases hmove with
  | accesses id act known access =>
    exact ⟨access.framed.rootPaths.trans hy.1, access.framed.contentId.trans hy.2⟩
  | idle | takes | ends | drops | accepts | flagged | drained | stopped => exact hy

/-! ### The server under the service -/

theorem Access.server_calls {x y : Service P} {c c' : Conn} {a : ThreadAct}
    (h : Access x c a y c') :
    y.server = x.server ∨ ∃ call io, y.server = (x.server.call call io).1 := by
  cases h with
  | unproved _ _ _ same | unread _ _ _ same | worked _ _ _ _ same =>
    rcases same with rfl | rfl <;> exact .inl rfl
  | closed _ session bound io => exact .inr ⟨.endSession session .closed, io, rfl⟩
  | lost _ session bound io => exact .inr ⟨.endSession session .lost, io, rfl⟩
  | handled _ req io =>
    rcases handle_calls x.server req c.bound io with hsame | ⟨call, hcall⟩
    · exact .inl hsame
    · exact .inr ⟨call, io, hcall⟩
  | still | declined | challenged | watched | proved | located | farewell | hungUp | read
  | panicked | placed | cancelled | recorded | recordedLast | wrote | left => exact .inl rfl

theorem Moves.server_calls {x y : Service P} {a : Service.Act} (h : Moves x a y) :
    y.server = x.server ∨ ∃ call io, y.server = (x.server.call call io).1 := by
  cases h with
  | accesses id act known access => exact access.server_calls
  | idle | takes | ends | drops | accepts | flagged | drained | stopped => exact .inl rfl

/-- **A run of the service is a run of its server.** -/
theorem Service.run_world {key : AgentKey P.toCrypto} {genesis : SignedGenesis} (x : Service P)
    (acts : List Service.Act) :
    World.Run key genesis (.up x.server) (.up (x.run acts).server) := by
  induction acts generalizing x with
  | nil => exact .refl
  | cons a acts ih =>
    rw [run_cons]
    refine .trans ?_ (ih (x.step a))
    rcases (x.step_moves a).server_calls with hsame | ⟨call, io, hcall⟩
    · rw [hsame]
    · rw [hcall]
      exact .single (.call x.server call io)

theorem Service.run_does (x : Service P) (acts : List Service.Act) :
    x.server.Does (x.run acts).server := by
  induction acts generalizing x with
  | nil => exact .refl
  | cons a acts ih =>
    rw [run_cons]
    refine .trans ?_ (ih (x.step a))
    rcases (x.step_moves a).server_calls with hsame | ⟨call, io, hcall⟩
    · rw [hsame]
    · rw [hcall]
      exact (x.server.call_outcome call io).does

end Flock
