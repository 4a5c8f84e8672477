/-
What the server knows, all derived from the log.

`State` is the board, the admission chain's head and the session table.  The
live path checks and seals an event (`State.prepare`) and takes it in once it
is durable (`State.commit`); the replay path verifies a retained entry
(`State.replay`).  Both go through the same `State.vet`.

* `replay_ok` — what an accepted entry establishes, and the state it leads to;
* `replayFrame_run` — an accepted frame is an accepted run of its entries;
* `prepare_ok` — what the live path established before it sealed an event.
-/
import AgentMesh.Sessions
import AgentMesh.Runs

open Std Mesh

namespace Flock

structure State where
  board : Board
  chain : Chain
  sessions : Sessions
  deriving DecidableEq

/-- A server-authored event to be built, signed and admitted. -/
structure Spec where
  kind : Kind
  refs : List (String × ContentId)
  body : Body

/-- An event that passed every check, sealed and ready to append. -/
structure Prepared where
  sealed : Sealed
  signer : Signer
  conflict : Option ConflictKind
  id : ContentId
  recordId : ContentId

def Sealed.kind (s : Sealed) : Kind := s.event.payload.kind

/-- A `session-end` or `handoff` is followed at once by the `epoch` event. -/
def checkFrameShape : List Sealed → Except String Unit
  | [] => .ok ()
  | s :: rest => do
    ensure (¬((s.kind = .sessionEnd ∨ s.kind = .handoff) ∧
        rest.head?.map Sealed.kind ≠ some .epoch))
      "session-end or handoff is not followed by its epoch bump in the same frame"
    checkFrameShape rest

/-- Whether `after` lacks a name that `before` has. -/
def dropsMember (before after : List Member) : Bool :=
  before.any fun b => !after.any fun a => decide (a.name = b.name)

theorem dropsMember_eq_false {before after : List Member} :
    dropsMember before after = false ↔ ∀ b ∈ before, ∃ a ∈ after, a.name = b.name := by
  simp [dropsMember]

/-- The conflict an admitted event is recorded with; anything else is an error. -/
def admission : Verdict → Except ServerError (Option ConflictKind)
  | .admitted => .ok none
  | .conflict c => .ok (some c)
  | .duplicate _ => .error (.session "already admitted")
  | .refuse r => .error (.refused r)

theorem admission_ok {v : Verdict} {c : Option ConflictKind} :
    admission v = .ok c ↔ v.recorded = some c := by
  cases v <;> simp [admission, Verdict.recorded]

variable (P : Primitives)

namespace State

/-- The state of a flock with an empty log. -/
def genesis (g : MerkleNode Genesis) (user : UserPublic) : State where
  board := .new P g
  chain := .new (P.genesisId g) g.payload.serverCert user
  sessions := .empty

/-- The live sessions whose member is on the current roster. -/
def eligible (st : State) : Finset String :=
  ((st.sessions.live.filter fun p =>
    match st.sessions.get p.1 with
    | some i => st.board.members.any fun m => decide (m.name = i.member)
    | none => false).map (·.1)).toFinset

/-- Signer, then the model's table, then the session rules. -/
def vet (st : State) (node : MerkleNode Event) (id : ContentId) (sig : Assertion) (epoch : ℕ) :
    Except ServerError (Signer × Option ConflictKind) := do
  let signer ← (st.sessions.resolve P sig id st.chain.serverPub st.chain.user epoch).mapError
    .signer
  let conflict ← admission (admitEvent P st.board node signer)
  (st.sessions.check P st.board node.payload epoch st.chain).mapError .session
  (st.sessions.firstLink st.board node.payload).mapError .session
  return (signer, conflict)

/-- The certificate a record's citation names, from what the log holds. -/
def citedCert (st : State) (cid : ContentId) : Except ServerError CertChain :=
  if cid = P.certCid st.chain.serverCert then .ok st.chain.serverCert
  else okOr (st.sessions.cert cid) (.signer "record cites a certificate the log does not hold")

/-- Take a vetted admission into the state. -/
def apply (st : State) (node : MerkleNode Event) (signer : Signer) (id recordId : ContentId)
    (r : AdmissionRecord) : State where
  sessions := st.sessions.observe P id node.payload r.epoch
  board := (st.board.apply P node signer).1
  chain := st.chain.advance recordId r

/-- Verify one retained entry against the state so far, then take it in. -/
def replay (st : State) (s : Sealed) : Except ServerError State := do
  let (id, recordId) ← verifyRecord P st.chain s
  let r := s.record.payload
  -- the record cites the certificate the event was signed under
  let cert ← st.citedCert P r.cert
  let (signer, _) ← st.vet P s.event id ⟨cert, s.eventSig⟩ r.epoch
  return st.apply P s.event signer id recordId r

/-- Replay one frame: a roster that drops a member is followed at once by the
epoch bump, in the same frame. -/
def replayFrame (st : State) : List Sealed → Except ServerError State
  | [] => .ok st
  | s :: rest => do
    let next ← st.replay P s
    ensure (¬(s.kind = .roster ∧ dropsMember st.board.members next.board.members ∧
        rest.head?.map Sealed.kind ≠ some .epoch))
      (.session
        "a roster that drops a member is not followed by its epoch bump in the same frame")
    next.replayFrame rest

/-- Take a prepared admission (after it is durable) into the state. -/
def commit (st : State) (p : Prepared) : State :=
  st.apply P p.sealed.event p.signer p.id p.recordId p.sealed.record.payload

variable {P}

/-- The next admission of `node`, sealed under this state's chain. -/
def sealing (st : State) (key : AgentKey P.toCrypto) (node : MerkleNode Event) (sig : Assertion) :
    Sealed :=
  sealEvent key st.chain.prev st.chain.nextIndex (st.chain.epochFor node.payload.kind) node sig

/-- Check and seal `node` as the next admission, changing nothing. -/
def prepare (st : State) (key : AgentKey P.toCrypto) (node : MerkleNode Event) (sig : Assertion) :
    Except ServerError Prepared := do
  let id := P.eventId node
  let epoch := st.chain.epochFor node.payload.kind
  let (signer, conflict) ← st.vet P node id sig epoch
  -- the citation the record will carry must resolve the way replay does
  let _ ← st.citedCert P (P.certCid sig.author)
  let sealed := st.sealing key node sig
  return ⟨sealed, signer, conflict, id, P.recordId sealed.record⟩

/-- A server event chained after the server's previous one. -/
def serverEvent (st : State) (key : AgentKey P.toCrypto) (spec : Spec) :
    MerkleNode Event × Assertion :=
  let author := key.fingerprint.hex P.toCrypto
  let node := Event.node
    { flock := st.board.flock
      kind := spec.kind
      author := author
      prev := st.board.headOf author
      refs := spec.refs.foldl (fun m p => m.insert p.1 p.2) ∅
      files := []
      at_ := st.chain.nextIndex
      body := spec.body }
  (node, Assertion.sign key (P.eventId node))

end State

def startState (g : MerkleNode Genesis) : Except ServerError State :=
  match g.payload.serverCert.issuer with
  | .user user => .ok (.genesis P g user)
  | .agent .. => .error (.signer "genesis server certificate is not issued by a user key")

/-- Replay the frames one by one, calling `after` with the state after each. -/
def rebuildFrames {α : Type} (after : α → State → α) :
    State → α → List (ℕ × Frame) → Except ServerError (State × α)
  | st, a, [] => .ok (st, a)
  | st, a, (offset, frame) :: rest => do
    ensure (frame.sealed ≠ []) (.corrupt offset "empty frame")
    (checkFrameShape frame.sealed).mapError (.corrupt offset)
    let next ← (st.replayFrame P frame.sealed).mapError fun e => .corrupt offset e.text
    rebuildFrames after next (after a next) rest

/-- Replay the retained frames from genesis, verifying each admission. -/
def rebuildWith {α : Type} (g : MerkleNode Genesis) (frames : List (ℕ × Frame))
    (after : α → State → α) (a : α) : Except ServerError (State × α) := do
  let st ← startState P g
  rebuildFrames P after st a frames

/-! ### Inversion of the two paths -/

variable {P}

/-- What `vet` establishes about an event and its signature. -/
structure State.Vetted (P : Primitives) (st : State) (node : MerkleNode Event) (sig : Assertion)
    (epoch : ℕ) (signer : Signer) (conflict : Option ConflictKind) : Prop where
  resolved : st.sessions.resolve P sig (P.eventId node) st.chain.serverPub st.chain.user epoch =
    .ok signer
  admissible : Admissible P st.board node signer conflict
  checked : st.sessions.check P st.board node.payload epoch st.chain = .ok ()
  linked : st.sessions.firstLink st.board node.payload = .ok ()

theorem State.vet_ok {st : State} {node : MerkleNode Event} {sig : Assertion} {epoch : ℕ}
    {r : Signer × Option ConflictKind} :
    st.vet P node (P.eventId node) sig epoch = .ok r ↔ st.Vetted P node sig epoch r.1 r.2 := by
  simp only [State.vet, bind_ok, mapError_ok, admission_ok, admitEvent_recorded, pure,
    Except.pure, Except.ok.injEq]
  constructor
  · rintro ⟨signer, h1, c, h2, _, h3, _, h4, rfl⟩
    exact ⟨h1, h2, h3, h4⟩
  · rintro ⟨h1, h2, h3, h4⟩
    exact ⟨r.1, h1, r.2, h2, (), h3, (), h4, rfl⟩

/-- An entry is accepted: its record extends the chain, the certificate it
cites is one the log holds, and the event passes `vet` under it. -/
structure State.Accepts (P : Primitives) (st : State) (s : Sealed) (cert : CertChain)
    (signer : Signer) (conflict : Option ConflictKind) : Prop where
  extend : st.chain.Extends P s
  cited : st.citedCert P s.record.payload.cert = .ok cert
  vetted : st.Vetted P s.event ⟨cert, s.eventSig⟩ s.record.payload.epoch signer conflict

/-- The state an accepted entry leads to. -/
def State.after (P : Primitives) (st : State) (s : Sealed) (signer : Signer)
    (conflict : Option ConflictKind) : State where
  board := st.board.record (P.eventId s.event) s.event.payload signer conflict
  chain := st.chain.advance (P.recordId s.record) s.record.payload
  sessions := st.sessions.observe P (P.eventId s.event) s.event.payload s.record.payload.epoch

/-- **Inversion of replay.** -/
theorem State.replay_ok {st st' : State} {s : Sealed} :
    st.replay P s = .ok st' ↔
      ∃ cert signer conflict, st.Accepts P s cert signer conflict ∧
        st' = st.after P s signer conflict := by
  have happly : ∀ {cert signer conflict}, st.Accepts P s cert signer conflict →
      st.apply P s.event signer (P.eventId s.event) (P.recordId s.record) s.record.payload =
        st.after P s signer conflict := by
    intro cert signer conflict h
    rw [State.apply, State.after, Board.apply_of_admissible h.vetted.admissible]
  simp only [State.replay, bind_ok, verifyRecord_ok, pure, Except.pure, Except.ok.injEq]
  constructor
  · rintro ⟨ids, ⟨hext, rfl⟩, cert, hcert, r, hr, rfl⟩
    have hacc : st.Accepts P s cert r.1 r.2 := ⟨hext, hcert, State.vet_ok.mp hr⟩
    exact ⟨cert, r.1, r.2, hacc, happly hacc⟩
  · rintro ⟨cert, signer, conflict, h, rfl⟩
    exact ⟨_, ⟨h.extend, rfl⟩, cert, h.cited, (signer, conflict), State.vet_ok.mpr h.vetted,
      happly h⟩

/-- The prepared form of a vetted event. -/
def Prepared.of (key : AgentKey P.toCrypto) (st : State) (node : MerkleNode Event)
    (sig : Assertion) (signer : Signer) (conflict : Option ConflictKind) : Prepared where
  sealed := st.sealing key node sig
  signer := signer
  conflict := conflict
  id := P.eventId node
  recordId := P.recordId (st.sealing key node sig).record

/-- **Inversion of the live path.** -/
theorem State.prepare_ok {st : State} {key : AgentKey P.toCrypto} {node : MerkleNode Event}
    {sig : Assertion} {p : Prepared} :
    st.prepare key node sig = .ok p ↔
      ∃ signer conflict,
        st.Vetted P node sig (st.chain.epochFor node.payload.kind) signer conflict ∧
        (∃ cert, st.citedCert P (P.certCid sig.author) = .ok cert) ∧
        p = .of key st node sig signer conflict := by
  simp only [State.prepare, bind_ok, pure, Except.pure, Except.ok.injEq]
  constructor
  · rintro ⟨r, hr, cert, hcert, rfl⟩
    exact ⟨r.1, r.2, State.vet_ok.mp hr, ⟨cert, hcert⟩, rfl⟩
  · rintro ⟨signer, conflict, hv, ⟨cert, hcert⟩, rfl⟩
    exact ⟨(signer, conflict), State.vet_ok.mpr hv, cert, hcert, rfl⟩

theorem State.commit_of {st : State} {key : AgentKey P.toCrypto} {node : MerkleNode Event}
    {sig : Assertion} {epoch : ℕ} {signer : Signer} {conflict : Option ConflictKind}
    (h : st.Vetted P node sig epoch signer conflict) :
    st.commit P (.of key st node sig signer conflict) =
      st.after P (st.sealing key node sig) signer conflict := by
  have hboard : (st.board.apply P (st.sealing key node sig).event signer).1 =
      st.board.record (P.eventId (st.sealing key node sig).event)
        (st.sealing key node sig).event.payload signer conflict :=
    Board.apply_of_admissible h.admissible
  rw [State.after, ← hboard]
  rfl

theorem State.replayFrame_run {st' : State} {frame : List Sealed} :
    ∀ {st : State}, st.replayFrame P frame = .ok st' →
      Steps.run (State.replay P) st frame = .ok st' := by
  induction frame with
  | nil => exact fun h => h
  | cons s rest ih =>
    intro st h
    simp only [State.replayFrame, bind_ok, ensure_ok] at h
    obtain ⟨next, hnext, _, -, h⟩ := h
    exact Steps.run_cons.mpr ⟨next, hnext, ih h⟩

end Flock
