/-
The signed admission chain.

A record extends the previous one, carries the next index, names its event and
the certificate the event was signed under, and moves the epoch only as an
`epoch` event does.  `verifyRecord` is the reader's check of one record,
`sealEvent` the server's construction of one.
-/
import AgentMesh.Admission

open Std Mesh

namespace Flock

/-- Why a server operation failed. -/
inductive ServerError where
  | io (why : String)
  | badFiles (why : String)
  | corrupt (offset : ℕ) (why : String)
  | signer (why : String)
  | session (why : String)
  | refused (why : Refusal)
  | poisoned
  | encoding (why : String)
  deriving DecidableEq

def Refusal.debug : Refusal → String
  | .unencodable => "Unencodable"
  | .wrongFlock => "WrongFlock"
  | .authorMismatch => "AuthorMismatch"
  | .badParents => "BadParents"
  | .bodyKindMismatch => "BodyKindMismatch"
  | .pendingSession => "PendingSession"
  | .unknownMember => "UnknownMember"
  | .notAllowed => "NotAllowed"
  | .badPrev => "BadPrev"
  | .writerFork => "WriterFork"
  | .missingRef role => "MissingRef(" ++ role.quote ++ ")"
  | .unexpectedRef role => "UnexpectedRef(" ++ role.quote ++ ")"
  | .unknownRef role => "UnknownRef(" ++ role.quote ++ ")"
  | .wrongRefKind role => "WrongRefKind(" ++ role.quote ++ ")"
  | .crossLane => "CrossLane"
  | .notAddressee => "NotAddressee"
  | .adapterCannotAck => "AdapterCannotAck"
  | .headMismatch => "HeadMismatch"
  | .staleRoster => "StaleRoster"
  | .tooLarge => "TooLarge"
  | .devicesLocked => "DevicesLocked"
  | .devicesOnNonOperator => "DevicesOnNonOperator"
  | .notAListedDevice => "NotAListedDevice"
  | .delegateLocked => "DelegateLocked"
  | .multipleDelegates => "MultipleDelegates"
  | .duplicateMember => "DuplicateMember"
  | .rootsLocked => "RootsLocked"
  | .badRoot => "BadRoot"
  | .undeclaredRoot => "UndeclaredRoot"
  | .badClaim => "BadClaim"
  | .badExit => "BadExit"

def ServerError.text : ServerError → String
  | .io why => "io: " ++ why
  | .badFiles why => "bad flock files: " ++ why
  | .corrupt offset why => "log corrupt at byte " ++ toString offset ++ ": " ++ why
  | .signer why => "signer refused: " ++ why
  | .session why => "session rule: " ++ why
  | .refused why => "refused: " ++ why.debug
  | .poisoned => "the server stopped after a failed write; reopen to recover"
  | .encoding why => "encoding: " ++ why

/-- Running state of a chain: what the next record must extend. -/
structure Chain where
  /-- The previous record id, or the genesis id. -/
  prev : ContentId
  nextIndex : ℕ
  epoch : ℕ
  /-- The server's agent public key, from genesis. -/
  serverPub : PubKey
  /-- The server's certificate, from genesis. -/
  serverCert : CertChain
  /-- The user key that certified the server. -/
  user : UserPublic
  deriving DecidableEq

namespace Chain

def new (genesis : ContentId) (serverCert : CertChain) (user : UserPublic) : Chain where
  prev := genesis
  nextIndex := 1
  epoch := 0
  serverPub := serverCert.agentPubkey
  serverCert := serverCert
  user := user

/-- The epoch a record for an event of `kind` must carry. -/
def epochFor (c : Chain) (kind : Kind) : ℕ :=
  c.epoch + if kind = .epoch then 1 else 0

def advance (c : Chain) (record : ContentId) (rec : AdmissionRecord) : Chain :=
  { c with prev := record, nextIndex := c.nextIndex + 1, epoch := rec.epoch }

@[simp] theorem advance_prev (c : Chain) (r : ContentId) (rec : AdmissionRecord) :
    (c.advance r rec).prev = r := rfl

@[simp] theorem advance_nextIndex (c : Chain) (r : ContentId) (rec : AdmissionRecord) :
    (c.advance r rec).nextIndex = c.nextIndex + 1 := rfl

@[simp] theorem advance_epoch (c : Chain) (r : ContentId) (rec : AdmissionRecord) :
    (c.advance r rec).epoch = rec.epoch := rfl

@[simp] theorem advance_serverPub (c : Chain) (r : ContentId) (rec : AdmissionRecord) :
    (c.advance r rec).serverPub = c.serverPub := rfl

@[simp] theorem advance_serverCert (c : Chain) (r : ContentId) (rec : AdmissionRecord) :
    (c.advance r rec).serverCert = c.serverCert := rfl

@[simp] theorem advance_user (c : Chain) (r : ContentId) (rec : AdmissionRecord) :
    (c.advance r rec).user = c.user := rfl

end Chain

variable (P : Primitives)

/-- `sealed` is the next record of `chain`.  Returns the event id and the
record id. -/
def verifyRecord (chain : Chain) (s : Sealed) : Except ServerError (ContentId × ContentId) := do
  let r := s.record.payload
  let recordId := P.recordId s.record
  -- always the genesis certificate: a record cites no other
  ((⟨chain.serverCert, s.recordSig⟩ : Assertion).verify P.toCrypto recordId chain.serverPub
    r.epoch).mapError fun e => .signer ("record signature: " ++ e.text)
  ensure (s.record.parents = {chain.prev}) (.signer "record does not extend the previous record")
  ensure (r.index = chain.nextIndex) (.signer "index is not the next one")
  ensure (r.event = P.eventId s.event) (.signer "record names another event")
  ensure (r.epoch = chain.epochFor s.event.payload.kind)
    (.signer "epoch does not follow the logged transitions")
  return (P.eventId s.event, recordId)

variable {P}

/-- Seal an event as the next admission, signed by the server. -/
def sealEvent (server : AgentKey P.toCrypto) (prev : ContentId) (index epoch : ℕ)
    (event : MerkleNode Event) (eventSig : Assertion) : Sealed :=
  let record : MerkleNode AdmissionRecord :=
    ⟨{prev}, ⟨index, epoch, P.eventId event, P.certCid eventSig.author⟩⟩
  { event := event
    eventSig := eventSig.sig
    record := record
    recordSig := (Assertion.sign server (P.recordId record)).sig }

/-- What `verifyRecord` establishes. -/
structure Chain.Extends (P : Primitives) (chain : Chain) (s : Sealed) : Prop where
  signed : (⟨chain.serverCert, s.recordSig⟩ : Assertion).verify P.toCrypto (P.recordId s.record)
    chain.serverPub s.record.payload.epoch = .ok ()
  parents : s.record.parents = {chain.prev}
  index : s.record.payload.index = chain.nextIndex
  event : s.record.payload.event = P.eventId s.event
  epoch : s.record.payload.epoch = chain.epochFor s.event.payload.kind

theorem verifyRecord_ok {chain : Chain} {s : Sealed} {ids : ContentId × ContentId} :
    verifyRecord P chain s = .ok ids ↔
      chain.Extends P s ∧ ids = (P.eventId s.event, P.recordId s.record) := by
  simp only [verifyRecord, bind_ok, mapError_ok, ensure_ok, pure, Except.pure, Except.ok.injEq]
  constructor
  · rintro ⟨_, h1, _, h2, _, h3, _, h4, _, h5, h6⟩
    exact ⟨⟨h1, h2, h3, h4, h5⟩, h6.symm⟩
  · rintro ⟨⟨h1, h2, h3, h4, h5⟩, h6⟩
    exact ⟨(), h1, (), h2, (), h3, (), h4, (), h5, h6.symm⟩

end Flock
