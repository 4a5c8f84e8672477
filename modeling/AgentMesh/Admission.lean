/-
The board and the admission table.

`Board` is the derived state of a flock; `admitEvent` is the admission table
as a pure function of (board, event, signer), with the checks in the order the
crate makes them: duplicate, flock, author, parents, body, signer class,
devices and roots, cited files, writer chain, references, then who may sign
what.  `Board.apply` records an admitted event.

* `admitEvent_recorded` — an admitted event passed every check;
* `Board.apply_of_admissible`, `Board.get_record`, `Board.headOf_record` — what
  recording an admitted event does to the board.
-/
import AgentMesh.Records

open Std Mesh

namespace Flock

/-- An event admitted but flagged: it never replaces the first. -/
inductive ConflictKind where
  | secondCloser (first : ContentId)
  deriving DecidableEq

/-- The class of key that signed. -/
inductive SignerClass where
  | server
  | session (member : String) (pending : Bool)
  | operator
  deriving DecidableEq

structure Signer where
  fingerprint : Fingerprint
  class_ : SignerClass
  deriving DecidableEq

structure Entry where
  id : ContentId
  index : ℕ
  event : Event
  /-- The roster member of the signing session, if any. -/
  member : Option String
  conflict : Option ConflictKind
  deriving DecidableEq

structure Board where
  flock : ContentId
  rosterId : ContentId
  members : List Member
  roots : List String
  entries : BTreeMap ContentId Entry
  order : List ContentId
  heads : BTreeMap String ContentId
  closers : BTreeMap ContentId ContentId
  deriving DecidableEq

inductive Verdict where
  | admitted
  | conflict (kind : ConflictKind)
  | duplicate (index : ℕ)
  | refuse (why : Refusal)
  deriving DecidableEq

variable (P : Primitives)

namespace Board

/-- Start from genesis; the genesis roster is the current roster. -/
def new (genesis : MerkleNode Genesis) : Board where
  flock := P.genesisId genesis
  rosterId := P.genesisId genesis
  members := genesis.payload.roster
  roots := []
  entries := ∅
  order := []
  heads := ∅
  closers := ∅

def get (b : Board) (id : ContentId) : Option Entry := b.entries[id]?

def headOf (b : Board) (author : String) : Option ContentId := b.heads[author]?

def closerOf (b : Board) (target : ContentId) : Option ContentId := b.closers[target]?

end Board

/-! ### Rosters, devices and roots -/

/-- Member names are unique, devices belong to operators only and at most one
member is the delegate. -/
def rosterWellFormed (ms : List Member) : Bool :=
  decide ((ms.filter (·.delegate)).length ≤ 1) &&
    decide ((ms.map (·.name)).Nodup) &&
    ms.all fun m => decide (m.role = .operator) || m.devices.isEmpty

def delegateOf (ms : List Member) : Option String :=
  (ms.find? (·.delegate)).map (·.name)

/-- Device bindings by member name, each list sorted. -/
def bindings (ms : List Member) : BTreeMap String (List (BitVec 256)) :=
  (ms.filter fun m => !m.devices.isEmpty).foldl
    (fun acc m => acc.insert m.name ((m.devices.map (·.hash)).insertionSort (· ≤ ·))) ∅

/-- Operator devices and the delegate change only by the server's hand. -/
def checkDevices (b : Board) (new : List Member) (signer : Signer) : Except Refusal Unit := do
  ensure ((new.map (·.name)).Nodup) .duplicateMember
  ensure ((new.filter (·.delegate)).length ≤ 1) .multipleDelegates
  ensure (signer.class_ = .server ∨ delegateOf new = delegateOf b.members) .delegateLocked
  ensure (rosterWellFormed new) .devicesOnNonOperator
  ensure (signer.class_ = .server ∨ bindings new = bindings b.members) .devicesLocked

/-- Whether the roster's operator members list `device`. -/
def listedDevice (b : Board) (device : Fingerprint) : Bool :=
  b.members.any fun m => decide (m.role = .operator) && decide (device ∈ m.devices)

def rootsWellFormed (roots : List String) : Bool :=
  decide roots.Nodup && roots.all fun r =>
    decide (1 ≤ r.utf8ByteSize) && decide (r.utf8ByteSize ≤ 64) &&
      (r.toList.all fun c => c.isAlphanum || c == '.' || c == '_' || c == '-') &&
      decide (r ≠ ".") && decide (r ≠ "..")

def checkRoots (b : Board) (new : List String) (signer : Signer) : Except Refusal Unit := do
  ensure (rootsWellFormed new) .badRoot
  ensure (signer.class_ = .server ∨ new.toFinset = b.roots.toFinset) .rootsLocked

/-- A roster body's devices, delegate and roots. -/
def checkRoster (b : Board) (body : Body) (signer : Signer) : Except Refusal Unit :=
  match body with
  | .roster members roots => do
    checkDevices b members signer
    checkRoots b roots signer
  | _ => .ok ()

/-! ### Who signs what -/

def serverSigns : Kind → Bool
  | .roster | .epoch | .renewal | .deviceCert | .sessionStart | .sessionEnd | .handoff
  | .invite => true
  | _ => false

/-- The kinds a session of a member with `role` may sign. -/
def sessionSigns (role : Role) : Kind → Bool
  | .roster | .brief | .review => decide (role = .shepherd)
  | .status | .nudged | .nudgeMisfire => decide (role = .adapter)
  | .ack | .result | .verdict | .job | .jobEnd | .ask | .pane | .relayedAnswer => true
  | .answer | .epoch | .renewal | .deviceCert | .sessionStart | .sessionEnd | .handoff
  | .invite => false

/-- The signing member for session signers, after the class gate. -/
def signerMember (b : Board) (kind : Kind) (signer : Signer) :
    Except Refusal (Option (String × Role)) :=
  match signer.class_ with
  | .server => do
    ensure (serverSigns kind) .notAllowed
    return none
  | .operator => do
    ensure (kind = .answer) .notAllowed
    ensure (listedDevice b signer.fingerprint) .notAListedDevice
    return none
  | .session member pending => do
    ensure (pending = false) .pendingSession
    let m ← okOr (b.members.find? fun m => decide (m.name = member)) .unknownMember
    ensure (¬(kind = .ack ∧ m.role = .adapter)) .adapterCannotAck
    ensure (sessionSigns m.role kind) .notAllowed
    return some (member, m.role)

/-- `prev` must be the session author's head; a second child is a fork.  A
session's first event may chain from a server hand-off. -/
def writerChain (b : Board) (ev : Event) (signer : Signer) : Except Refusal Unit :=
  match signer.class_ with
  | .server => .ok ()
  | .operator => ensure (ev.prev = none) .badPrev
  | .session .. =>
    if ev.prev = b.headOf ev.author then .ok ()
    else match b.headOf ev.author, ev.prev with
      | none, some p =>
        match b.get p with
        | some e => ensure (e.event.kind = .handoff) .badPrev
        | none => .error .badPrev
      | some _, none => .error .writerFork
      | some _, some p =>
        match b.get p with
        | some e => if e.event.author = ev.author then .error .writerFork else .error .badPrev
        | none => .error .badPrev
      | none, none => .ok ()

/-! ### References -/

/-- The references a kind takes: role, allowed target kinds, required. -/
def refSpec : Kind → List (String × List Kind × Bool)
  | .roster => [("replaces", [.roster], true)]
  | .ack => [("of", [.brief, .review], true)]
  | .result => [("brief", [.brief], true)]
  | .verdict => [("review", [.review], true)]
  | .jobEnd => [("job", [.job], true)]
  | .ask => [("about", [.brief], false)]
  | .answer | .relayedAnswer => [("ask", [.ask], true)]
  | .nudged | .nudgeMisfire => [("of", [.brief, .review], false)]
  | _ => []

def isServerKind : Kind → Bool
  | .epoch | .renewal | .deviceCert | .sessionStart | .sessionEnd | .handoff | .invite => true
  | _ => false

def declaredLane : Body → Option String
  | .brief _ lane | .review _ lane _ | .job lane _ => some lane
  | .ask lane _ => lane
  | _ => none

/-- Two events that both declare a lane declare the same one. -/
def checkLane (mine theirs : Body) : Except Refusal Unit :=
  match declaredLane mine, declaredLane theirs with
  | some m, some t => ensure (m = t) .crossLane
  | _, _ => .ok ()

/-- One reference role of a kind: absent if optional, else of the right kind
and in the event's lane.  Keeps the event the kind acts on. -/
def checkRef (b : Board) (ev : Event) (actsOn : Option ContentId)
    (spec : String × List Kind × Bool) : Except Refusal (Option ContentId) :=
  match ev.refs[spec.1]? with
  | none => if spec.2.2 then .error (.missingRef spec.1) else .ok actsOn
  | some cid =>
    if ev.kind = .roster then do
      -- `replaces` is the current roster: the genesis or a roster event
      ensure (cid = b.rosterId) .staleRoster
      return actsOn
    else do
      let entry ← okOr (b.get cid) (.unknownRef spec.1)
      ensure (entry.event.kind ∈ spec.2.1) (.wrongRefKind spec.1)
      checkLane ev.body entry.event.body
      return some cid

/-- Every reference exists, is of the right kind and stays in the event's
lane.  Returns the event the kind acts on, if any. -/
def checkRefs (b : Board) (ev : Event) : Except Refusal (Option ContentId) :=
  if isServerKind ev.kind then do
    -- server bookkeeping may cite earlier events freely, but they must exist
    ensure (∀ cid ∈ ev.refs.values, (b.get cid).isSome) (.unknownRef "server")
    return none
  else
    match ev.refs.keys.find? fun r => !(refSpec ev.kind).any fun s => s.1 == r with
    | some role => .error (.unexpectedRef role)
    | none => (refSpec ev.kind).foldlM (checkRef b ev) none

/-! ### The table -/

/-- A claimed id is short and printable. -/
def claimOk (v : String) : Bool :=
  decide (v ≠ "") && decide (v.utf8ByteSize ≤ 128) &&
    !v.toList.any fun c => decide (c.toNat < 32) || decide (127 ≤ c.toNat ∧ c.toNat < 160)

def addressee (e : Entry) : Option String :=
  match e.event.body with
  | .brief to_ _ | .review to_ _ _ => some to_
  | _ => none

/-- If a nudge cites an event, the event is addressed to the nudge's target. -/
def checkNudged (target : String) (about : Option Entry) : Except Refusal Unit :=
  match about with
  | none => .ok ()
  | some entry => do
    let to_ ← okOr (addressee entry) (.wrongRefKind "of")
    ensure (to_ = target) .notAddressee

/-- A nudge is about a roster member and, if it cites a brief or review, about
that one's addressee.  It closes nothing. -/
def nudgeOk (b : Board) (target : String) (about : Option Entry) (texts : List String) :
    Except Refusal (Option ContentId) := do
  ensure (b.members.any fun m => decide (m.name = target)) .unknownMember
  checkNudged target about
  ensure (texts.all claimOk) .badClaim
  return none

/-- The target of an event whose signer must be its addressee. -/
def addressed (b : Board) (member : Option (String × Role)) (target : Option ContentId)
    (role : String) : Except Refusal Entry := do
  let m ← okOr member .notAllowed
  let entry ← okOr (target.bind b.get) (.missingRef role)
  ensure (addressee entry = some m.1) .notAddressee
  return entry

def checkHead (review : Body) (head : String) : Except Refusal Unit :=
  match review with
  | .review _ _ h => ensure (h = head) .headMismatch
  | _ => .error .headMismatch

/-- A `job-end` says exactly one of an exit code and a signal. -/
def checkExit (body : Body) : Except Refusal Unit :=
  match body with
  | .jobEnd code signal => ensure (code.isSome ≠ signal.isSome) .badExit
  | _ => .error .badExit

/-- Who may sign what, against the referenced event.  Returns the target the
event closes, if it closes one. -/
def applyTable (b : Board) (ev : Event) (member : Option (String × Role))
    (target : Option ContentId) : Except Refusal (Option ContentId) :=
  match ev.kind, ev.body with
  | .ack, _ => do
    let _ ← addressed b member target "of"
    return none
  | .result, _ => do
    let _ ← addressed b member target "brief"
    return target
  | .verdict, .verdict head _ => do
    let entry ← addressed b member target "review"
    checkHead entry.event.body head
    return target
  | .jobEnd, body => do
    checkExit body
    let m ← okOr member .notAllowed
    let entry ← okOr (target.bind b.get) (.missingRef "job")
    ensure (entry.member = some m.1) .notAddressee
    return target
  | .pane, .pane pane tab => do
    ensure (claimOk pane && claimOk tab) .badClaim
    return none
  | .answer, _ => .ok target
  | .nudged, .nudged to_ => nudgeOk b to_ (target.bind b.get) []
  | .nudgeMisfire, .nudgeMisfire to_ expected found =>
    nudgeOk b to_ (target.bind b.get) [expected, found]
  | _, _ => .ok none

/-- The admission table, with refusals as errors. -/
def decideNode (b : Board) (node : MerkleNode Event) (signer : Signer) :
    Except Refusal Verdict :=
  match b.get (P.eventId node) with
  | some done => .ok (.duplicate done.index)
  | none => do
    let ev := node.payload
    ensure (ev.flock = b.flock) .wrongFlock
    ensure (ev.author = signer.fingerprint.hex P.toCrypto) .authorMismatch
    ensure (node.parents = ev.expectedParents) .badParents
    ensure (ev.body.fits ev.kind) .bodyKindMismatch
    let member ← signerMember b ev.kind signer
    checkRoster b ev.body signer
    ensure (∀ f ∈ ev.files, f.root ∈ b.roots) .undeclaredRoot
    writerChain b ev signer
    let target ← checkRefs b ev
    let closes ← applyTable b ev member target
    return match closes.bind b.closerOf with
      | some first => .conflict (.secondCloser first)
      | none => .admitted

/-- Decide whether `node`, signed by `signer`, is admitted to the board. -/
def admitEvent (b : Board) (node : MerkleNode Event) (signer : Signer) : Verdict :=
  match decideNode P b node signer with
  | .ok verdict => verdict
  | .error why => .refuse why

/-- The conflict an admitted event is recorded with; `none` when the verdict
does not admit. -/
def Verdict.recorded : Verdict → Option (Option ConflictKind)
  | .admitted => some none
  | .conflict kind => some (some kind)
  | .duplicate _ | .refuse _ => none

def closedBy (ev : Event) : Option ContentId :=
  match ev.kind with
  | .result => ev.refs["brief"]?
  | .verdict => ev.refs["review"]?
  | .jobEnd => ev.refs["job"]?
  | .answer => ev.refs["ask"]?
  | _ => none

def SignerClass.member : SignerClass → Option String
  | .session member _ => some member
  | _ => none

namespace Board

/-- What recording an admitted event does to the board. -/
def record (b : Board) (id : ContentId) (ev : Event) (signer : Signer)
    (conflict : Option ConflictKind) : Board where
  flock := b.flock
  rosterId :=
    match ev.kind, ev.body, conflict with
    | .roster, .roster _ _, none => id
    | _, _, _ => b.rosterId
  members :=
    match ev.kind, ev.body, conflict with
    | .roster, .roster members _, none => members
    | _, _, _ => b.members
  roots :=
    match ev.kind, ev.body, conflict with
    | .roster, .roster _ roots, none => roots
    | _, _, _ => b.roots
  entries := b.entries.insert id
    ⟨id, b.order.length + 1, ev, signer.class_.member, conflict⟩
  order := b.order ++ [id]
  heads := b.heads.insert ev.author id
  closers :=
    match conflict, closedBy ev with
    | none, some target => b.closers.insert target id
    | _, _ => b.closers

theorem get_record {b : Board} {id id' : ContentId} {ev : Event} {signer : Signer}
    {conflict : Option ConflictKind} :
    (b.record id ev signer conflict).get id' =
      if id = id' then some ⟨id, b.order.length + 1, ev, signer.class_.member, conflict⟩
      else b.get id' :=
  BTreeMap.get_insert ..

theorem headOf_record {b : Board} {id : ContentId} {ev : Event} {signer : Signer}
    {conflict : Option ConflictKind} {author : String} :
    (b.record id ev signer conflict).headOf author =
      if ev.author = author then some id else b.headOf author :=
  BTreeMap.get_insert ..

theorem record_members {b : Board} {id : ContentId} {ev : Event} {signer : Signer}
    {conflict : Option ConflictKind} (h : ev.kind ≠ .roster) :
    (b.record id ev signer conflict).members = b.members := by
  unfold record
  dsimp only
  split
  · rename_i hk _
    exact absurd hk h
  · rfl

theorem record_roster {b : Board} {id : ContentId} {ev : Event} {signer : Signer}
    {members : List Member} {roots : List String} (hk : ev.kind = .roster)
    (hb : ev.body = .roster members roots) :
    (b.record id ev signer none).members = members := by
  simp only [record, hk, hb]

/-- Admit one entry and, unless refused or a duplicate, record it. -/
def apply (b : Board) (node : MerkleNode Event) (signer : Signer) : Board × Verdict :=
  let verdict := admitEvent P b node signer
  match verdict.recorded with
  | some conflict => (b.record (P.eventId node) node.payload signer conflict, verdict)
  | none => (b, verdict)

end Board

/-! ### What an admitted event passed -/

variable {P}

/-- The checks behind an admission, with the conflict it is recorded with. -/
structure Admissible (P : Primitives) (b : Board) (node : MerkleNode Event) (signer : Signer)
    (conflict : Option ConflictKind) : Prop where
  fresh : b.get (P.eventId node) = none
  flock : node.payload.flock = b.flock
  author : node.payload.author = signer.fingerprint.hex P.toCrypto
  parents : node.parents = node.payload.expectedParents
  fits : node.payload.body.kind = node.payload.kind
  roster : ∀ members roots, node.payload.body = .roster members roots →
    checkDevices b members signer = .ok () ∧ checkRoots b roots signer = .ok ()
  files : ∀ f ∈ node.payload.files, f.root ∈ b.roots
  writer : writerChain b node.payload signer = .ok ()
  table : ∃ member target closes, signerMember b node.payload.kind signer = .ok member ∧
    checkRefs b node.payload = .ok target ∧
    applyTable b node.payload member target = .ok closes ∧
    conflict = (closes.bind b.closerOf).map .secondCloser

theorem admitEvent_recorded {b : Board} {node : MerkleNode Event} {signer : Signer}
    {conflict : Option ConflictKind} :
    (admitEvent P b node signer).recorded = some conflict ↔
      Admissible P b node signer conflict := by
  have hadm : (admitEvent P b node signer).recorded = some conflict ↔
      ∃ v, decideNode P b node signer = .ok v ∧ v.recorded = some conflict := by
    rw [admitEvent]
    cases decideNode P b node signer with
    | ok v => simp
    | error e => simp [Verdict.recorded]
  rw [hadm, decideNode]
  cases hget : b.get (P.eventId node) with
  | some done =>
    constructor
    · rintro ⟨v, hv, hr⟩
      cases hv
      cases hr
    · intro h
      rw [h.fresh] at hget
      cases hget
  | none =>
    simp only [bind_ok, ensure_ok, pure, Except.pure, Except.ok.injEq]
    constructor
    · rintro ⟨v, ⟨_, h1, _, h2, _, h3, _, h4, m, h5, _, h6, _, h7, _, h8, t, h9, c, h10, rfl⟩, hr⟩
      refine ⟨hget, h1, h2, h3, by simpa [Body.fits] using h4, ?_, h7, h8, m, t, c, h5, h9, h10, ?_⟩
      · intro members roots hb
        rw [hb, checkRoster, bind_ok] at h6
        obtain ⟨_, hd, hr⟩ := h6
        exact ⟨hd, hr⟩
      · cases hc : c.bind b.closerOf with
        | none => rw [hc] at hr; cases hr; rfl
        | some first => rw [hc] at hr; cases hr; rfl
    · rintro ⟨-, h1, h2, h3, h4, h6, h7, h8, m, t, c, h5, h9, h10, hr⟩
      refine ⟨_, ⟨(), h1, (), h2, (), h3, (), by simpa [Body.fits] using h4, m, h5, (), ?_, (), h7,
        (), h8, t, h9, c, h10, rfl⟩, ?_⟩
      · cases hb : node.payload.body with
        | roster members roots =>
          obtain ⟨hd, hr⟩ := h6 members roots hb
          exact bind_ok.mpr ⟨(), hd, hr⟩
        | _ => rfl
      · cases hc : c.bind b.closerOf with
        | none => rw [hc] at hr; rw [hr]; rfl
        | some first => rw [hc] at hr; rw [hr]; rfl

theorem Board.apply_of_admissible {b : Board} {node : MerkleNode Event} {signer : Signer}
    {conflict : Option ConflictKind} (h : Admissible P b node signer conflict) :
    (b.apply P node signer).1 = b.record (P.eventId node) node.payload signer conflict := by
  rw [Board.apply, admitEvent_recorded.mpr h]

theorem Admissible.roster_conflict {b : Board} {node : MerkleNode Event} {signer : Signer}
    {conflict : Option ConflictKind} (h : Admissible P b node signer conflict)
    (hk : node.payload.kind = .roster) : conflict = none := by
  obtain ⟨member, target, closes, -, -, htable, rfl⟩ := h.table
  rw [applyTable, hk] at htable
  cases htable
  rfl

/-- A session signer is an active session of a roster member with the role to
sign this kind. -/
theorem signerMember_session {b : Board} {kind : Kind} {signer : Signer} {member : String}
    {pending : Bool} {m : Option (String × Role)} (hs : signer.class_ = .session member pending)
    (h : signerMember b kind signer = .ok m) :
    pending = false ∧ ∃ r, (b.members.find? fun x => decide (x.name = member)) = some r ∧
      sessionSigns r.role kind = true := by
  rw [signerMember, hs] at h
  simp only [bind_ok, ensure_ok, okOr_ok] at h
  obtain ⟨_, hp, r, hr, _, -, _, hk, -⟩ := h
  exact ⟨hp, r, hr, hk⟩

theorem signerMember_serverKind {b : Board} {kind : Kind} {signer : Signer}
    {m : Option (String × Role)} (hk : isServerKind kind = true)
    (h : signerMember b kind signer = .ok m) : signer.class_ = .server := by
  cases hc : signer.class_ with
  | server => rfl
  | operator =>
    rw [signerMember, hc] at h
    simp only [bind_ok, ensure_ok] at h
    obtain ⟨_, rfl, -⟩ := h
    cases hk
  | session member pending =>
    obtain ⟨-, r, -, hs⟩ := signerMember_session hc h
    cases kind <;> first | exact absurd hk (by decide) | exact absurd hs (by simp [sessionSigns])

/-- The writer chain of a session: the author's head, or any hand-off while it
has none. -/
theorem writerChain_session {b : Board} {ev : Event} {signer : Signer} {member : String}
    {pending : Bool} (hclass : signer.class_ = .session member pending)
    (h : writerChain b ev signer = .ok ()) :
    ev.prev = b.headOf ev.author ∨ b.headOf ev.author = none ∧
      ∃ p e, ev.prev = some p ∧ b.get p = some e ∧ e.event.kind = .handoff := by
  rw [writerChain, hclass] at h
  simp only at h
  split at h
  · rename_i hprev
    exact .inl hprev
  · split at h
    · rename_i p hhead hprev
      split at h
      · rename_i e he
        exact .inr ⟨hhead, p, e, hprev, he, ensure_ok.mp h⟩
      · cases h
    · cases h
    · split at h
      · split at h <;> cases h
      · cases h
    · rename_i hhead hprev
      exact .inl (hprev.trans hhead.symm)

end Flock
