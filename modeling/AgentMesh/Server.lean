/-
The server: one process, one log, one admission transaction at a time.

Every change goes through one of two appends: a frame of admitted events to
the log, or a signed refusal to the refusal log.  The state moves, and the
frame is published, only after the append returned; an append that fails stops
the server until it is opened again.

A call returns the server it leaves and its result; `Io` says where its
appends die, if they do, and what randomness it draws.
-/
import AgentMesh.Log
import AgentMesh.Follower

open Std Mesh Framing

namespace Flock

/-- What an admission returned. -/
structure Receipt where
  index : ℕ
  /-- It was already admitted; nothing was written. -/
  duplicate : Bool
  conflict : Option ConflictKind
  deriving DecidableEq

/-- What a challenge was issued for, and so what answering it may do. -/
inductive Purpose where
  | enroll (invite : InviteInfo)
  | renew (session : String) (epoch : ℕ)
  deriving DecidableEq

/-- A challenge the server issued and has not yet consumed. -/
structure Held where
  challenge : PossessionChallenge
  purpose : Purpose
  deriving DecidableEq

/-- Challenges are held in the order of their nonces. -/
instance nonceOrder : TransOrd (BitVec 256) := inferInstance

/-- An open flock server. -/
structure Server (P : Primitives) where
  key : AgentKey P.toCrypto
  genesis : SignedGenesis
  st : State
  log : Log
  refusalLog : Log
  refusals : List RefusalEntry
  refusalPrev : ContentId
  /-- Challenges issued and not yet consumed, by nonce. -/
  challenges : BTreeMap (BitVec 256) Held
  poisoned : Bool
  /-- The published frames, each with the sessions eligible after it. -/
  journal : List (List Sealed × Finset String)

/-- The environment of one call: where its appends die, and its randomness. -/
structure Io where
  logFault : Option Fault
  refusalFault : Option Fault
  rand : ℕ → BitVec 256

variable {P : Primitives}

/-! ### The refusal chain -/

namespace RefusalEntry

/-- Record a refusal after `prev` (the previous refusal id, or genesis). -/
def sign (server : AgentKey P.toCrypto) (prev : ContentId) (record : RefusalRecord) :
    RefusalEntry :=
  let node : MerkleNode RefusalRecord := ⟨{prev}, record⟩
  ⟨node, Assertion.sign server (P.refusalId node)⟩

variable (P)

/-- The entry extends `prev`, is signed by the server key itself, and does not
claim more admissions than exist or fewer than the last. -/
def verify (e : RefusalEntry) (prev : ContentId) (serverPub : PubKey)
    (epoch lastAdmitted totalAdmitted : ℕ) : Except ServerError ContentId := do
  let id := P.refusalId e.record
  ensure (e.sig.author.agentPubkey = serverPub)
    (.signer "refusal chain: not signed by the server key")
  (e.sig.verify P.toCrypto id serverPub epoch).mapError fun m =>
    .signer ("refusal chain: " ++ m.text)
  ensure (e.record.parents = {prev}) (.signer "refusal chain: does not extend the previous refusal")
  ensure (lastAdmitted ≤ e.record.payload.admitted ∧ e.record.payload.admitted ≤ totalAdmitted)
    (.signer "refusal chain: admission count out of order")
  return id

/-- Verify the next retained refusal, after `acc.1`, the previous id, and
`acc.2`, the admissions it counted. -/
def verifyNext (serverPub : PubKey) (epoch totalAdmitted : ℕ) (acc : ContentId × ℕ)
    (entry : ℕ × RefusalEntry) : Except ServerError (ContentId × ℕ) := do
  let id ← (entry.2.verify P acc.1 serverPub epoch acc.2 totalAdmitted).mapError fun e =>
    .corrupt entry.1 e.text
  return (id, entry.2.record.payload.admitted)

end RefusalEntry

/-! ### Opening -/

/-- The checks every genesis passes: it is a genesis node, signed by the very
certificate it names, with a well-formed roster, and the signature covers its
id. -/
def verifySignedGenesis (P : Primitives) (g : SignedGenesis) : Except ServerError Unit := do
  let cert := g.node.payload.serverCert
  ensure (g.node.payload.kind = "genesis" ∧ g.node.parents = ∅)
    (.badFiles "genesis: not a genesis node")
  ensure (g.sig.author = cert)
    (.badFiles "genesis: signed by a key that is not the server certificate")
  ensure (rosterWellFormed g.node.payload.roster)
    (.badFiles ("genesis: duplicate member names, or devices under a member that is not an " ++
      "operator"))
  (g.sig.verify P.toCrypto (P.genesisId g.node) cert.agentPubkey 0).mapError fun e =>
    .badFiles ("genesis: " ++ e.text)

/-- Publish the next retained frame with who is eligible after it. -/
def publishNext (acc : List (List Sealed) × List (List Sealed × Finset String)) (st : State) :
    List (List Sealed) × List (List Sealed × Finset String) :=
  match acc with
  | (f :: rest, published) => (rest, published ++ [(f, st.eligible)])
  | ([], published) => ([], published)

theorem rebuildFrames_published {frames : List (ℕ × Frame)} :
    ∀ {st st' : State} {rest : List (List Sealed)} {pub pub' : List (List Sealed × Finset String)},
      rebuildFrames P publishNext st (frames.map fun f => f.2.sealed, pub) frames =
        .ok (st', rest, pub') →
      pub'.map (·.1) = pub.map (·.1) ++ frames.map fun f => f.2.sealed := by
  induction frames with
  | nil =>
    intro st st' rest pub pub' h
    cases h
    simp
  | cons frame frames ih =>
    intro st st' rest pub pub' h
    simp only [rebuildFrames, bind_ok] at h
    obtain ⟨_, -, _, -, next, -, h⟩ := h
    rw [ih h]
    simp

namespace Server

/-- Open the flock on the bytes of its two files: re-verify genesis, rebuild
the state from the retained frames, verify the refusal chain, and only then
cut torn tails. -/
def open_ (key : AgentKey P.toCrypto) (genesis : SignedGenesis) (logFile refusalFile : File) :
    Except ServerError (Server P) := do
  verifySignedGenesis P genesis
  ensure (key.cert = genesis.node.payload.serverCert)
    (.badFiles "the key file is not the genesis server key")
  let (log, frames) ← Log.open_ P.frameCodec logFile
  let (refusalLog, entries) ← Log.open_ P.refusalCodec refusalFile
  let (st, _, published) ← rebuildWith P genesis.node frames publishNext
    (frames.map fun f => f.2.sealed, [])
  let (refusalPrev, _) ← Steps.run (RefusalEntry.verifyNext P
    genesis.node.payload.serverCert.agentPubkey st.chain.epoch (st.chain.nextIndex - 1))
    (st.board.flock, 0) entries
  return {
    key := key
    genesis := genesis
    st := st
    log := log.commitRecovery
    refusalLog := refusalLog.commitRecovery
    refusals := entries.map (·.2)
    refusalPrev := refusalPrev
    challenges := ∅
    poisoned := false
    journal := published }

theorem open_ok {key : AgentKey P.toCrypto} {genesis : SignedGenesis} {logFile refusalFile : File}
    {s : Server P} :
    Server.open_ key genesis logFile refusalFile = .ok s ↔
      verifySignedGenesis P genesis = .ok () ∧ key.cert = genesis.node.payload.serverCert ∧
      ∃ log frames refusalLog entries st rest published refusalPrev last,
        Log.open_ P.frameCodec logFile = .ok (log, frames) ∧
        Log.open_ P.refusalCodec refusalFile = .ok (refusalLog, entries) ∧
        rebuildWith P genesis.node frames publishNext (frames.map fun f => f.2.sealed, []) =
          .ok (st, rest, published) ∧
        Steps.run (RefusalEntry.verifyNext P genesis.node.payload.serverCert.agentPubkey
          st.chain.epoch (st.chain.nextIndex - 1)) (st.board.flock, 0) entries =
            .ok (refusalPrev, last) ∧
        s = ⟨key, genesis, st, log.commitRecovery, refusalLog.commitRecovery, entries.map (·.2),
          refusalPrev, ∅, false, published⟩ := by
  simp only [open_, bind_ok, ensure_ok, pure, Except.pure, Except.ok.injEq]
  constructor
  · rintro ⟨_, h1, _, h2, ⟨log, frames⟩, h3, ⟨rlog, entries⟩, h4, ⟨st, rest, published⟩, h5,
      ⟨prev, last⟩, h6, rfl⟩
    exact ⟨h1, h2, log, frames, rlog, entries, st, rest, published, prev, last, h3, h4, h5, h6, rfl⟩
  · rintro ⟨h1, h2, log, frames, rlog, entries, st, rest, published,
      prev, last, h3, h4, h5, h6, rfl⟩
    exact ⟨(), h1, (), h2, (log, frames), h3, (rlog, entries), h4, (st, rest, published), h5,
      (prev, last), h6, rfl⟩

/-- The server of a flock with empty files. -/
def initial (key : AgentKey P.toCrypto) (genesis : SignedGenesis) (st : State) : Server P where
  key := key
  genesis := genesis
  st := st
  log := ⟨⟨[], []⟩, 0, none⟩
  refusalLog := ⟨⟨[], []⟩, 0, none⟩
  refusals := []
  refusalPrev := st.board.flock
  challenges := ∅
  poisoned := false
  journal := []

theorem open_empty {key : AgentKey P.toCrypto} {genesis : SignedGenesis} {s : Server P} :
    Server.open_ key genesis ⟨[], []⟩ ⟨[], []⟩ = .ok s ↔
      verifySignedGenesis P genesis = .ok () ∧ key.cert = genesis.node.payload.serverCert ∧
      ∃ st, startState P genesis.node = .ok st ∧ s = initial key genesis st := by
  have hlog : ∀ {α : Type} {c : Codec α}, Log.open_ c ⟨[], []⟩ =
      .ok (⟨⟨[], []⟩, 0, none⟩, []) := by
    intro α c
    rw [Log.open_, show (⟨[], []⟩ : File).contents = [] from rfl, parse_end rfl]
  rw [open_ok]
  refine and_congr_right fun _ => and_congr_right fun _ => ?_
  constructor
  · rintro ⟨log, frames, rlog, entries, st, rest, published, prev, last, h1, h2, h3, h4, rfl⟩
    rw [hlog] at h1 h2
    cases h1
    cases h2
    cases h4
    simp only [rebuildWith, bind_ok] at h3
    obtain ⟨st₀, hst, h3⟩ := h3
    cases h3
    exact ⟨st, hst, rfl⟩
  · rintro ⟨st, hst, rfl⟩
    exact ⟨_, _, _, _, st, [], [], st.board.flock, 0, hlog, hlog,
      by rw [rebuildWith, hst]; rfl, rfl,
      rfl⟩

def admitted (s : Server P) : ℕ := s.st.chain.nextIndex - 1

def frames (s : Server P) : List (List Sealed) := s.journal.map (·.1)

/-! ### Writing -/

/-- Append a frame to the log; a failure poisons the server. -/
def append (s : Server P) (sealed : List Sealed) (fault : Option Fault) :
    Server P × Except ServerError Unit :=
  match s.log.append P.frameCodec ⟨sealed⟩ fault with
  | (log, .ok ()) => ({ s with log := log }, .ok ())
  | (log, .error e) => ({ s with log := log, poisoned := true }, .error e)

/-- The result of an inner call, turned into the outer call's own. -/
def returning {α β : Type} (f : α → β) (r : Server P × Except ServerError α) :
    Server P × Except ServerError β :=
  (r.1, r.2.map f)

@[simp] theorem returning_fst {α β : Type} (f : α → β) (r : Server P × Except ServerError α) :
    (returning f r).1 = r.1 := rfl

theorem returning_ok {α β : Type} {f : α → β} {r : Server P × Except ServerError α} {b : β} :
    (returning f r).2 = .ok b ↔ ∃ a, r.2 = .ok a ∧ f a = b := by
  obtain ⟨s, r⟩ := r
  cases r <;> simp [returning, Except.map]

/-- Take in the state a durable frame leads to, and publish the frame. -/
def publish (s : Server P) (sealed : List Sealed) (next : State) : Server P :=
  { s with st := next, journal := s.journal ++ [(sealed, next.eligible)] }

/-- Append, then take in and publish. -/
def commitFrame (s : Server P) (sealed : List Sealed) (next : State) (fault : Option Fault) :
    Server P × Except ServerError Unit :=
  match s.append sealed fault with
  | (s, .ok ()) => (s.publish sealed next, .ok ())
  | (s, .error e) => (s, .error e)

/-- Sign a refused event into the refusal chain with one frame and one fsync. -/
def recordRefusal (s : Server P) (node : MerkleNode Event) (why : Refusal)
    (fault : Option Fault) : Server P × Except ServerError Unit :=
  let entry := RefusalEntry.sign s.key s.refusalPrev
    ⟨P.eventId node, node.payload.author, why, s.admitted⟩
  match s.refusalLog.append P.refusalCodec entry fault with
  | (log, .ok ()) =>
    ({ s with
        refusalLog := log
        refusalPrev := P.refusalId entry.record
        refusals := s.refusals ++ [entry] }, .ok ())
  | (log, .error e) => ({ s with refusalLog := log, poisoned := true }, .error e)

end Server

variable (P) in
/-- Whether the frame can be delivered to a watcher as one response message. -/
def frameFits (sealed : List Sealed) : Bool := decide (P.respFrameLen sealed ≤ 2 ^ 20)

/-- Build, check and seal server events in turn, each against the state the
previous one left. -/
def State.sealAll (key : AgentKey P.toCrypto) :
    State → List Spec → Except ServerError (State × List Sealed × List ContentId)
  | st, [] => .ok (st, [], [])
  | st, spec :: rest => do
    let (node, sig) := st.serverEvent key spec
    let p ← st.prepare key node sig
    let (next, sealed, ids) ← sealAll key (st.commit P p) rest
    return (next, p.sealed :: sealed, p.id :: ids)

/-- The epoch bump after `st`. -/
def State.bumpSpec (st : State) : Spec := ⟨.epoch, [], .epoch (st.chain.epoch + 1)⟩

namespace Server

/-- Server-authored events as one transaction: all go out in one frame with
one fsync.  A failure leaves the live state as it was. -/
def transact (s : Server P) (specs : List Spec) (fault : Option Fault) :
    Server P × Except ServerError (List ContentId) :=
  if s.poisoned then (s, .error .poisoned)
  else
    match s.st.sealAll s.key specs with
    | .error e => (s, .error e)
    | .ok (next, sealed, ids) =>
      if frameFits P sealed then returning (fun () => ids) (s.commitFrame sealed next fault)
      else (s, .error (.session "the frame would be too large to deliver to a watcher"))

/-- Journal a refusal and return it. -/
def refuseEvent (s : Server P) (node : MerkleNode Event) (why : Refusal) (io : Io) :
    Server P × Except ServerError Receipt :=
  match s.recordRefusal node why io.refusalFault with
  | (s, .ok ()) => (s, .error (.refused why))
  | (s, .error e) => (s, .error e)

/-- Write the frame of a prepared event and return its receipt. -/
def receive (s : Server P) (p : Prepared) (sealed : List Sealed) (next : State) (io : Io) :
    Server P × Except ServerError Receipt :=
  returning (fun () => ⟨p.sealed.record.payload.index, false, p.conflict⟩)
    (s.commitFrame sealed next io.logFault)

/-- The end of an admission: a roster that drops a member is sealed with its
epoch bump. -/
def admitPrepared (s : Server P) (node : MerkleNode Event) (p : Prepared) (io : Io) :
    Server P × Except ServerError Receipt :=
  let next := s.st.commit P p
  if node.payload.kind = .roster ∧ dropsMember s.st.board.members next.board.members then
    let e := next.serverEvent s.key next.bumpSpec
    match next.prepare s.key e.1 e.2 with
    | .error e => (s, .error e)
    | .ok bump =>
      let sealed := [p.sealed, bump.sealed]
      if frameFits P sealed then s.receive p sealed (next.commit P bump) io
      else s.refuseEvent node .tooLarge io
  else s.receive p [p.sealed] next io

/-- One admission transaction: duplicate lookup, signer, the model's checks,
the session rules, then one frame and one fsync. -/
def admitNode (s : Server P) (node : MerkleNode Event) (sig : Assertion) (io : Io) :
    Server P × Except ServerError Receipt :=
  if s.poisoned then (s, .error .poisoned)
  else
    match s.st.board.get (P.eventId node) with
    | some done => (s, .ok ⟨done.index, true, none⟩)
    | none =>
      if node.payload.kind = .sessionEnd ∨ node.payload.kind = .handoff then
        (s, .error (.session "session-end and handoff are admitted only with their epoch bump"))
      else
        match s.st.prepare s.key node sig with
        | .error (.refused why) => s.refuseEvent node why io
        | .error e => (s, .error e)
        | .ok p =>
          if frameFits P [p.sealed] then s.admitPrepared node p io
          else s.refuseEvent node .tooLarge io

end Server

end Flock
