/-
Streams to watchers.

A session that proves its key may watch: its worker places a cursor after the
resume point and writes the frames from there on, replay first and then live.
At frames with an epoch event it looks up whether its session was still
eligible after the frame, and closes when it was not.  The worker takes locks
only one access at a time, so anything may happen between two of its steps.

* `Worker.step` — one access of the worker to what it shares with the server;
* `Watch.run` — any interleaving of the worker with calls on the server;
* `Server.authorizeStream_eligible` — only an eligible session gets a stream;
* `Server.startIndex_kept` — the index it started at is fixed by then.
-/
import AgentMesh.Journal

open Std Mesh Framing Segments

namespace Flock

variable {P : Primitives} {g : MerkleNode Genesis}

/-! ### Opening a stream -/

namespace Server

/-- Whether `proof` is an active session of a current member signing
`challenge`: what opens a stream. -/
def authorizeStream (s : Server P) (proof : Assertion) (challenge : ContentId) :
    Except ServerError String := do
  let signer ← (s.st.sessions.resolve P proof challenge s.st.chain.serverPub s.st.chain.user
    s.st.chain.epoch).mapError .signer
  match signer.class_ with
  | .session member false =>
    if s.st.board.members.any fun m => decide (m.name = member) then
      .ok (signer.fingerprint.hex P.toCrypto)
    else .error (.session "a stream needs an active session of a current member")
  | _ => .error (.session "a stream needs an active session of a current member")

theorem authorizeStream_signed {s : Server P} {proof : Assertion} {challenge : ContentId}
    {session : String} (h : s.authorizeStream proof challenge = .ok session) :
    P.verifyStrict proof.author.agentPubkey (message challenge) proof.sig = true := by
  simp only [authorizeStream, bind_ok, mapError_ok] at h
  obtain ⟨signer, hsigner, h⟩ := h
  cases resolve_ok hsigner with
  | server | device => cases h
  | session x key issued known live recorded signed => exact (Assertion.verify_ok.mp signed).2.2

/-- The admission index of `session`'s `session-start`, if it has one. -/
def sessionStartIndex (s : Server P) (session : String) : Option ℕ := do
  let info ← s.st.sessions.get session
  let e ← s.st.board.get info.start
  return e.index

theorem authorizeStream_eligible {s : Server P} {proof : Assertion} {challenge : ContentId}
    {session : String} (h : s.authorizeStream proof challenge = .ok session) :
    session ∈ s.st.eligible := by
  simp only [authorizeStream, bind_ok, mapError_ok] at h
  obtain ⟨signer, hsigner, h⟩ := h
  cases resolve_ok hsigner with
  | server | device => cases h
  | session x key issued known live recorded signed =>
    split at h
    · rename_i member hclass
      split at h
      · rename_i hlisted
        cases h
        obtain ⟨hmember, -⟩ := SignerClass.session.inj hclass
        exact State.mem_eligible.mpr ⟨x, known, live, by simpa [hmember] using hlisted⟩
      · cases h
    · cases h

end Server

/-! ### The worker -/

inductive Resp where
  | frame (sealed : List Sealed)
  | caught (index : ℕ)
  | closed (reason : String)
  | behind (have_ : ℕ)
  | diverged
  deriving DecidableEq

/-- How an operation on the socket went: done, failed, or failed although the
peer got all of it. -/
inductive Sock where
  | done
  | lost
  | broke
  deriving DecidableEq

/-- What the peer gets of a message. -/
def Sock.sent (w : Sock) (r : Resp) : List Resp :=
  match w with
  | .lost => []
  | .done | .broke => [r]

structure Loop where
  /-- The cursor. -/
  next : ℕ
  replayEnd : ℕ
  fromIndex : ℕ
  caught : Bool
  at_ : ℕ
  deriving DecidableEq

inductive Phase where
  /-- It has a cursor. -/
  | placed (next : ℕ)
  /-- It knows where replay ends. -/
  | measured (next replayEnd : ℕ)
  /-- It knows when its session started. -/
  | dated (next replayEnd fromIndex : ℕ)
  | looping (l : Loop)
  | ended
  deriving DecidableEq

/-- A worker that serves one stream. -/
structure Worker where
  session : String
  phase : Phase
  cancelled : Bool
  /-- What the peer got so far. -/
  sent : List Resp
  deriving DecidableEq

/-- Serve the frames after `from_`: place the cursor, or say why not. -/
def stream (P : Primitives) (frames : List Published) (session : String) (from_ : Option Head)
    (w : Sock) : Worker :=
  match Journal.cursorFrom P frames from_ with
  | .next next => ⟨session, .placed next, false, []⟩
  | .refused (.behind have_) => ⟨session, .ended, false, w.sent (.behind have_)⟩
  | .refused _ => ⟨session, .ended, false, w.sent .diverged⟩
  | .panicked => ⟨session, .ended, false, []⟩

/-- The next access of the delivery loop: say that replay is complete, or take
the next frame and write it.  `w` is how the write went and `w'` how the write
of the closing message did. -/
def Loop.step (l : Loop) (frames : List Published) (stopped cancelled : Bool) (session : String)
    (w w' : Sock) : Phase × List Resp :=
  if l.caught = false ∧ l.replayEnd ≤ l.at_ then
    (if w = .done then .looping { l with caught := true } else .ended, w.sent (.caught l.at_))
  else
    match Journal.nextFrame frames stopped cancelled l.next with
    | .waits => (.looping l, [])
    | .ended => (.ended, w.sent (.closed "the server stopped"))
    | .frame (f, eligible) =>
      let at_ := (f.getLast?.map fun s => s.record.payload.index).getD l.at_
      let lost := bumps f = true ∧ l.fromIndex ≤ at_ ∧ session ∉ eligible
      if w ≠ .done then (.ended, w.sent (.frame f))
      else if lost then
        (.ended, .frame f :: w'.sent (.closed "your session ended or its member left the roster"))
      else (.looping { l with next := l.next + 1, at_ := at_ }, [.frame f])

/-- The worker's next access to what it shares. -/
def Worker.step (k : Worker) (s : Server P) (stopped : Bool) (w w' : Sock) : Worker :=
  match k.phase with
  | .placed next =>
    -- the connection is duplicated first, to watch for the peer's end
    { k with phase := if w = .done then .measured next (Journal.len s.journal) else .ended }
  | .measured next replayEnd =>
    { k with phase := .dated next replayEnd ((s.sessionStartIndex k.session).getD 0) }
  | .dated next replayEnd fromIndex =>
    let at_ := Journal.delivered s.journal next
    { k with phase := .looping ⟨next, replayEnd, fromIndex, false, at_⟩ }
  | .looping l =>
    let r := l.step s.journal stopped k.cancelled k.session w w'
    { k with phase := r.1, sent := k.sent ++ r.2 }
  | .ended => k

/-! ### Interleavings -/

/-- A server, whether its journal is stopped, and one worker. -/
structure Watch (P : Primitives) where
  server : Server P
  stopped : Bool
  worker : Worker

inductive Act where
  | call (c : Call) (io : Io)
  | stop
  /-- The peer went away. -/
  | cancel
  | work (w w' : Sock)

namespace Watch

def step (x : Watch P) : Act → Watch P
  | .call c io => { x with server := (x.server.call c io).1 }
  | .stop => { x with stopped := true }
  | .cancel => { x with worker := { x.worker with cancelled := true } }
  | .work w w' => { x with worker := x.worker.step x.server x.stopped w w' }

def run (x : Watch P) (acts : List Act) : Watch P := acts.foldl step x

@[simp] theorem run_nil (x : Watch P) : x.run [] = x := rfl

@[simp] theorem run_cons (x : Watch P) (a : Act) (acts : List Act) :
    x.run (a :: acts) = (x.step a).run acts := rfl

theorem run_append (x : Watch P) (acts acts' : List Act) :
    x.run (acts ++ acts') = (x.run acts).run acts' := List.foldl_append

theorem run_invariant (Inv : Watch P → Prop) (hstep : ∀ {x a}, Inv x → Inv (x.step a))
    {x : Watch P} (h : Inv x) (acts : List Act) : Inv (x.run acts) := by
  induction acts generalizing x with
  | nil => exact h
  | cons a acts ih => exact ih (hstep h)

end Watch

/-! ### When a session started -/

/-- A session of the table after a step was there before, with the same start,
or starts with the event. -/
theorem TableStep.born {st : State} {id : ContentId} {ev : Event} {epoch : ℕ} {s' : Sessions}
    (h : TableStep P st id ev epoch s') {a : String} {y' : Session}
    (hy : s'.sessions[a]? = some y') :
    (∃ y, st.sessions.sessions[a]? = some y ∧ y'.start = y.start) ∨ y'.start = id := by
  have hsession := h.session a
  rw [hy] at hsession
  generalize st.sessions.sessions[a]? = before at hsession
  cases hsession with
  | same => exact .inl ⟨y', rfl, rfl⟩
  | started => exact .inr rfl
  | ended z | renewed z | handedOff z | activated z => exact .inl ⟨z, rfl, rfl⟩

/-- The board counts the events, and has the start of every session. -/
structure State.Dated (st : State) : Prop where
  count : st.chain.nextIndex = st.board.order.length + 1
  starts : ∀ (a : String) (x : Session), st.sessions.sessions[a]? = some x →
    ∃ e, st.board.get x.start = some e ∧ e.index < st.chain.nextIndex

theorem State.Takes.nextIndex {st st' : State} {node : MerkleNode Event}
    (h : st.Takes P node st') : st'.chain.nextIndex = st.chain.nextIndex + 1 := by
  cases h with
  | replayed h => exact (State.replay_nextIndex h).2
  | committed h =>
    obtain ⟨signer, conflict, hv, -, rfl⟩ := State.prepare_ok.mp h
    rw [State.commit_of hv]
    rfl

theorem State.Takes.get_kept {st st' : State} {node : MerkleNode Event}
    (h : st.Takes P node st') {id : ContentId} {e : Entry} (he : st.board.get id = some e) :
    st'.board.get id = some e := by
  obtain ⟨_, _, _, _, -, hboard, -⟩ := h.vetted
  have hne : P.eventId node ≠ id := by
    rintro rfl
    rw [h.fresh] at he
    cases he
  rw [hboard, Board.get_record, if_neg hne]
  exact he

theorem State.Takes.dated {st st' : State} {node : MerkleNode Event} (h : st.Takes P node st')
    (hd : st.Dated) : st'.Dated := by
  have hnext := h.nextIndex
  obtain ⟨_, _, _, _, -, hboard, -⟩ := h.vetted
  obtain ⟨epoch, hstep⟩ := h.tableStep
  have hcount := hd.count
  have horder : st'.board.order = st.board.order ++ [P.eventId node] := by
    rw [hboard]
    rfl
  constructor
  · rw [hnext, hcount, horder, List.length_append]
    rfl
  · intro a x hx
    rcases hstep.born hx with ⟨y, hy, hstart⟩ | hstart
    · obtain ⟨e, he, hlt⟩ := hd.starts a y hy
      rw [hstart]
      exact ⟨e, h.get_kept he, by omega⟩
    · rw [hstart, hboard, Board.get_record, if_pos rfl]
      refine ⟨_, rfl, ?_⟩
      show st.board.order.length + 1 < st'.chain.nextIndex
      omega

/-- **A session's start keeps its index.** -/
theorem State.Later.start_kept {st st' : State} (h : State.Later P st st') (hd : st.Dated) :
    st'.Dated ∧ ∀ (a : String) (x : Session) (e : Entry),
      st.sessions.sessions[a]? = some x → st.board.get x.start = some e →
        ∃ x', st'.sessions.sessions[a]? = some x' ∧ st'.board.get x'.start = some e := by
  refine h.rel (R := fun s t => s.Dated → t.Dated ∧ ∀ (a : String) (x : Session) (e : Entry),
    s.sessions.sessions[a]? = some x → s.board.get x.start = some e →
      ∃ x', t.sessions.sessions[a]? = some x' ∧ t.board.get x'.start = some e) ?_ ?_ ?_ hd
  · exact fun s hd => ⟨hd, fun a x e hx he => ⟨x, hx, he⟩⟩
  · intro s t u hst htu hd
    obtain ⟨hdt, hkt⟩ := hst hd
    obtain ⟨hdu, hku⟩ := htu hdt
    refine ⟨hdu, fun a x e hx he => ?_⟩
    obtain ⟨y, hy, hye⟩ := hkt a x e hx he
    exact hku a y e hy hye
  · intro s node t htakes hd
    refine ⟨htakes.dated hd, fun a x e hx he => ?_⟩
    obtain ⟨epoch, hstep⟩ := htakes.tableStep
    obtain ⟨x', hx', hstart, -, -⟩ := hstep.kept hx
    exact ⟨x', hx', by rw [hstart]; exact htakes.get_kept he⟩

theorem Journaled.dated {frames : List Published} {st : State} (h : Journaled P g frames st) :
    st.Dated := by
  induction h with
  | nil hstart =>
    obtain ⟨user, -, rfl⟩ := startState_ok.mp hstart
    refine ⟨rfl, fun a x hx => ?_⟩
    simp [State.genesis, Sessions.empty] at hx
  | snoc _ hx ih => exact (hx.1.later.start_kept ih).1

namespace Server

theorem sessionStartIndex_of {s : Server P} {session : String} {x : Session} {e : Entry}
    (hx : s.st.sessions.sessions[session]? = some x) (he : s.st.board.get x.start = some e) :
    s.sessionStartIndex session = some e.index := by
  rw [sessionStartIndex, Sessions.get, hx]
  show (s.st.board.get x.start).bind (fun e => some e.index) = _
  rw [he]
  rfl

/-- An eligible session started with a published event, and no later run of the
server dates it otherwise. -/
theorem startIndex_kept {s : Server P} (h : Journaled P g s.journal s.st) {session : String}
    (hsession : session ∈ s.st.eligible) :
    ∃ i ≤ Journal.len s.journal, ∀ {s' : Server P}, s.Does s' →
      s'.sessionStartIndex session = some i := by
  obtain ⟨x, hx, -⟩ := State.mem_eligible.mp hsession
  obtain ⟨e, he, hlt⟩ := h.dated.starts session x hx
  have hnext := h.nextIndex
  refine ⟨e.index, by omega, fun hdoes => ?_⟩
  obtain ⟨-, hkept⟩ := hdoes.later.start_kept h.dated
  obtain ⟨x', hx', he'⟩ := hkept session x e hx he
  exact sessionStartIndex_of hx' he'

end Server

end Flock
