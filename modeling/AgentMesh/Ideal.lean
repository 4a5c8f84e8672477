/-
Ideal primitives.

The third-party functions are parameters of the development.  Here is one
choice of them for which every assumption made elsewhere holds: content ids are
injective, honest signatures verify and decoding inverts encoding.  Values of a
table get short ids, so that runs over them can be evaluated; every other value
gets a code of its own.

* `tabled_injective` — the encoding over any table is injective;
* `Tables.idsInjective`, `Tables.honestVerifies`, `Tables.frameLawful`,
  `Tables.refusalLawful` — the assumptions, for any tables;
* `Small` — a flock of three members, with the values of a few short logs.
-/
import AgentMesh.Entry
import AgentMesh.History

open Std Mesh Framing

namespace Flock

/-! ### Countable values -/

instance countableUInt8 : Countable UInt8 :=
  Function.Injective.countable (f := UInt8.toNat) fun _ _ => UInt8.toNat_inj.mp

instance countableChar : Countable Char :=
  Function.Injective.countable (f := Char.toNat) fun _ _ h => Char.toNat_inj.mp h

instance countableString : Countable String :=
  Function.Injective.countable (f := String.toList) fun _ _ => String.toList_inj.mp

instance countableBitVec {n : ℕ} : Countable (BitVec n) :=
  Function.Injective.countable (f := BitVec.toNat) fun _ _ => BitVec.eq_of_toNat_eq

instance countableMap {K V : Type} [Ord K] [TransOrd K] [LawfulEqOrd K] [Countable K]
    [Countable V] :
    Countable (BTreeMap K V) :=
  Function.Injective.countable (f := fun m : BTreeMap K V => m.toList) fun _ _ h =>
    ExtTreeMap.ext_toList (List.Perm.of_eq h)

deriving instance Countable for ContentId, RawContentId
deriving instance Countable for Fingerprint, UserPublic
deriving instance Countable for Scope
deriving instance Countable for CountBound
deriving instance Countable for Caveats
deriving instance Countable for AgentMetadata
deriving instance Countable for CertChain
deriving instance Countable for Assertion
deriving instance Countable for MerkleNode
deriving instance Countable for Kind, Role, Member, Outcome, EndReason, FileRef, HandoffApproval
deriving instance Countable for Body
deriving instance Countable for Genesis
deriving instance Countable for Event
deriving instance Countable for AdmissionRecord, Sealed, Frame
deriving instance Countable for Refusal, RefusalRecord, RefusalEntry

/-! ### Encodings over a table -/

section Encodings

variable {α : Type} [Countable α]

/-- A number of its own for every value. -/
noncomputable def code (x : α) : ℕ := (exists_injective_nat α).choose x

theorem code_injective : Function.Injective (code : α → ℕ) := (exists_injective_nat α).choose_spec

variable [DecidableEq α]

/-- The place of `x` in the table, or else its code. -/
noncomputable def tabled (table : List α) (x : α) : Bytes :=
  match table.findIdx? fun y => decide (y = x) with
  | some i => 0 :: List.replicate i 0
  | none => 1 :: List.replicate (code x) 0

theorem tabled_injective (table : List α) : Function.Injective (tabled table) := by
  have hplace : ∀ {x i}, (table.findIdx? fun y => decide (y = x)) = some i →
      table[i]? = some x := by
    intro x i h
    obtain ⟨hi, hx, -⟩ := List.findIdx?_eq_some_iff_getElem.mp h
    rw [List.getElem?_eq_getElem hi, of_decide_eq_true hx]
  intro x y h
  rw [tabled, tabled] at h
  split at h <;> split at h
  · rename_i i hi _ j hj
    have hij : i = j := by simpa using congrArg List.length h
    have hx := hplace hi
    rw [hij, hplace hj] at hx
    exact (Option.some.inj hx).symm
  · simp at h
  · simp at h
  · exact code_injective (by simpa using congrArg List.length h)

open Classical in
/-- The value with this encoding, if there is one. -/
noncomputable def untabled (table : List α) (b : Bytes) : Option α :=
  if h : ∃ x, tabled table x = b then some h.choose else none

theorem untabled_tabled (table : List α) (x : α) : untabled table (tabled table x) = some x := by
  have h : ∃ y, tabled table y = tabled table x := ⟨x, rfl⟩
  rw [untabled, dif_pos h, tabled_injective table h.choose_spec]

/-- The value with this encoding: one of the table is looked up. -/
noncomputable def recalled (table : List α) (b : Bytes) : Option α :=
  (table.find? fun x => decide (tabled table x = b)).or (untabled table b)

theorem recalled_tabled (table : List α) (x : α) : recalled table (tabled table x) = some x := by
  rw [recalled]
  cases hfind : table.find? fun y => decide (tabled table y = tabled table x) with
  | none => exact untabled_tabled table x
  | some y =>
    have hy := List.find?_some hfind
    simp only [decide_eq_true_eq] at hy
    rw [tabled_injective table hy]
    rfl

/-- What is said of bytes that encode nothing. -/
def notEncoded : String := "not an encoding"

noncomputable def recalledCodec (table : List α) : Codec α :=
  ⟨tabled table, recalled table, fun _ => notEncoded, fun _ => 0⟩

theorem recalledCodec_lawful (table : List α) : (recalledCodec table).Lawful :=
  recalled_tabled table

end Encodings

/-! ### Signatures -/

def digest (m : Bytes) : ℕ := m.foldl (fun acc b => (acc * 257 + b.toNat + 1) % 2 ^ 256) 0

/-- The one signature of a key over a message: the key and the digest. -/
def mark (key : BitVec 256) (m : Bytes) : Signature :=
  BitVec.ofNat 512 (key.toNat * 2 ^ 256 + digest m)

/-- Keys are their own public halves, and a signature verifies exactly if it is
the key's mark. -/
noncomputable def idealCrypto (metadata : List AgentMetadata) : Crypto where
  blake3 := id
  hexEncode h := String.ofList (List.replicate h.toNat 'k')
  publicKey := id
  sign := mark
  verifyStrict key m s := decide (s = mark key m)
  verify key m s := decide (s = mark key m)
  metadataJson := tabled metadata

/-- Some signature of the key over the message verifies. -/
def Vouched (C : Crypto) (key : PubKey) (m : Bytes) : Prop :=
  ∃ s, C.verifyStrict key m s = true ∨ C.verify key m s = true

theorem unforgeable_vouched (C : Crypto) : C.Unforgeable (Vouched C) := fun _ _ s h => ⟨s, h⟩

/-! ### Primitives over tables -/

/-- The values with short ids. -/
structure Tables where
  metadata : List AgentMetadata
  genesis : MerkleNode Genesis
  events : List (MerkleNode Event)
  records : List (MerkleNode AdmissionRecord)
  approvals : List (MerkleNode HandoffApproval)
  certs : List CertChain
  frames : List Frame

namespace Tables

variable (T : Tables)

/-- Ids start with a byte for the type of the value. -/
noncomputable def primitives : Primitives where
  toCrypto := idealCrypto T.metadata
  eventId n := ⟨0 :: tabled T.events n⟩
  recordId n := ⟨1 :: tabled T.records n⟩
  genesisId n := ⟨2 :: tabled [T.genesis] n⟩
  approvalId n := ⟨3 :: tabled T.approvals n⟩
  refusalId n := ⟨4 :: tabled [] n⟩
  certCid c := ⟨5 :: tabled T.certs c⟩
  rawId b := ⟨b⟩
  frameCbor := tabled T.frames
  frameOfCbor := untabled T.frames
  frameFault _ := notEncoded
  refusalCbor := tabled []
  refusalOfCbor := untabled []
  refusalFault _ := notEncoded
  respFrameLen sealed := sealed.length
  headerCheck b := BitVec.ofNat 32 (digest b)

theorem idsInjective : T.primitives.IdsInjective where
  event _ _ h := tabled_injective _ (List.cons.inj (congrArg ContentId.bytes h)).2
  record _ _ h := tabled_injective _ (List.cons.inj (congrArg ContentId.bytes h)).2
  cert _ _ h := tabled_injective _ (List.cons.inj (congrArg ContentId.bytes h)).2
  approval _ _ h := tabled_injective _ (List.cons.inj (congrArg ContentId.bytes h)).2

theorem honestVerifies : T.primitives.toCrypto.HonestVerifies := fun _ _ => decide_eq_true rfl

theorem frameLawful : T.primitives.frameCodec.Lawful := untabled_tabled _

theorem refusalLawful : T.primitives.refusalCodec.Lawful := untabled_tabled _

end Tables

/-! ### Evaluating readers -/

/-- The value of a result that is `ok`. -/
def okValue {ε α : Type} : (r : Except ε α) → r.isOk = true → α
  | .ok a, _ => a
  | .error _, h => (Bool.false_ne_true h).elim

theorem eq_okValue {ε α : Type} {r : Except ε α} (h : r.isOk = true) : r = .ok (okValue r h) := by
  cases r with
  | ok a => rfl
  | error e => cases h

/-- Whether a result is `ok` with a value of a decidable kind. -/
instance decidableExistsOk {ε α : Type} {Q : α → Prop} [DecidablePred Q] :
    (r : Except ε α) → Decidable (∃ a, r = .ok a ∧ Q a)
  | .error _ => isFalse fun ⟨_, h, _⟩ => nomatch h
  | .ok a => decidable_of_iff (Q a)
    ⟨fun h => ⟨a, rfl, h⟩, fun ⟨_, h, hq⟩ => Except.ok.inj h ▸ hq⟩

/-- Whether a follower takes the frames and ends in a state of a decidable
kind. -/
instance Follower.decidableReaches {P : Primitives} {g : MerkleNode Genesis}
    {frames : List (List Sealed)} {Q : Follower → Prop} [DecidablePred Q] :
    Decidable (∃ f, Follower.Reaches P g frames f ∧ Q f) :=
  decidable_of_iff (∃ f₀, Follower.new P g = .ok f₀ ∧ ∃ f, f₀.applyAll P frames = .ok f ∧ Q f)
    ⟨fun ⟨f₀, hnew, f, hrun, hq⟩ => ⟨f, ⟨f₀, hnew, hrun⟩, hq⟩,
      fun ⟨f, ⟨f₀, hnew, hrun⟩, hq⟩ => ⟨f₀, hnew, f, hrun, hq⟩⟩

/-! ### A small flock -/

namespace Small

def eid (n : ℕ) : ContentId := ⟨0 :: 0 :: List.replicate n 0⟩

def rid (n : ℕ) : ContentId := ⟨1 :: 0 :: List.replicate n 0⟩

def gid : ContentId := ⟨[2, 0]⟩

def cid (n : ℕ) : ContentId := ⟨5 :: 0 :: List.replicate n 0⟩

def meta_ (role : String) (c : Caveats) : AgentMetadata := ⟨role, "", [], "", none, c⟩

def metadata : List AgentMetadata :=
  [meta_ "flock-server" .top, meta_ "device" .top, meta_ "h" (bounded 0), meta_ "h" (bounded 1),
    meta_ "w" (bounded 0)]

/-- The flock's user has key 9. -/
noncomputable def userCert (pk : PubKey) (role : String) : CertChain :=
  .root pk (meta_ role .top) ⟨9⟩ (mark 9 (signPayload (idealCrypto metadata) pk (meta_ role .top)))

noncomputable def serverCert : CertChain := userCert 1 "flock-server"

/-- Key 2 is an operator's device, and a session of `h` as well. -/
noncomputable def deviceCert : CertChain := userCert 2 "device"

noncomputable def sessionCert (pk : PubKey) (member : String) (epoch : ℕ) : CertChain :=
  .delegated pk (meta_ member (bounded epoch)) 1 serverCert
    (mark 1 (signPayload (idealCrypto metadata) pk (meta_ member (bounded epoch))))

noncomputable def certs : List CertChain :=
  [serverCert, deviceCert, sessionCert 2 "h" 0, sessionCert 3 "h" 0, sessionCert 3 "h" 1,
    sessionCert 4 "w" 0, sessionCert 2 "h" 1]

def shepherd : Member := ⟨"h", .shepherd, [], false⟩

def helper : Member := ⟨"w", .helper, [], false⟩

def operator : Member := ⟨"o", .operator, [⟨2⟩], false⟩

noncomputable def genesis : MerkleNode Genesis :=
  ⟨∅, ⟨"genesis", "f", serverCert, [shepherd, helper, operator], ""⟩⟩

def event (kind : Kind) (author : String) (prev : Option ContentId)
    (refs : List (String × ContentId)) (at_ : ℕ) (body : Body) : MerkleNode Event :=
  Event.node ⟨gid, kind, author, prev, refs.foldl (fun m p => m.insert p.1 p.2) ∅, [], at_, body⟩

/-- A sealed event: it and its record are the `n`-th of their tables. -/
def entry (n : ℕ) (signer : Seed) (e : MerkleNode Event) (parent : ContentId) (index epoch : ℕ)
    (cert : ContentId) : Sealed :=
  ⟨e, mark signer (message (eid n)), ⟨{parent}, ⟨index, epoch, eid n, cert⟩⟩,
    mark 1 (message (rid n))⟩

def context : FileRef := ⟨"r", "p", ⟨[]⟩⟩

/-- The session of key 2 hands over to that of key 3. -/
def approval : MerkleNode HandoffApproval :=
  ⟨∅, ⟨gid, "h", "kk", "kkk", eid 2, some context⟩⟩

noncomputable def approvalSig : Assertion := ⟨deviceCert, mark 2 (message ⟨[3, 0]⟩)⟩

/-! A member's session speaks, hands over to a second one, and that one speaks
after it was renewed. -/

noncomputable def invited : Sealed :=
  entry 0 1 (event .invite "k" none [] 1 (.invite "h" ⟨utf8 "kkkkk"⟩)) gid 1 0 (cid 0)

noncomputable def started : Sealed :=
  entry 1 1 (event .sessionStart "k" (some (eid 0)) [("invite", eid 0)] 2
    (.sessionStart "h" "kk" (sessionCert 2 "h" 0))) (rid 0) 2 0 (cid 0)

noncomputable def spoken : Sealed :=
  entry 2 2 (event .pane "kk" none [] 0 (.pane "p" "t")) (rid 1) 3 0 (cid 2)

noncomputable def invitedNext : Sealed :=
  entry 3 1 (event .invite "k" (some (eid 1)) [] 4 (.invite "h" ⟨utf8 "kkkkkk"⟩))
    (rid 2) 4 0 (cid 0)

noncomputable def startedNext : Sealed :=
  entry 4 1 (event .sessionStart "k" (some (eid 3)) [("invite", eid 3)] 5
    (.sessionStart "h" "kkk" (sessionCert 3 "h" 0))) (rid 3) 5 0 (cid 0)

noncomputable def handedOff : Sealed :=
  entry 5 1 (event .handoff "k" (some (eid 4)) [("from", eid 1), ("resume", eid 2), ("to", eid 4)] 6
    (.handoff "kk" "kkk" (eid 2) (some context) approval approvalSig)) (rid 4) 6 0 (cid 0)

noncomputable def bumped : Sealed :=
  entry 6 1 (event .epoch "k" (some (eid 5)) [] 7 (.epoch 1)) (rid 5) 7 1 (cid 0)

noncomputable def renewed : Sealed :=
  entry 7 1 (event .renewal "k" (some (eid 6)) [("session", eid 4)] 8
    (.renewal "kkk" 1 (sessionCert 3 "h" 1))) (rid 6) 8 1 (cid 0)

noncomputable def spokenNext : Sealed :=
  entry 8 3 (event .pane "kkk" (some (eid 5)) [] 0 (.pane "p" "t")) (rid 7) 9 1 (cid 4)

/-! After `started`: a session of `w` asks, key 2 answers as the operator's
device and then speaks as the session of `h`. -/

noncomputable def invitedHelper : Sealed :=
  entry 9 1 (event .invite "k" (some (eid 1)) [] 3 (.invite "w" ⟨utf8 "kkkkkk"⟩))
    (rid 1) 3 0 (cid 0)

noncomputable def startedHelper : Sealed :=
  entry 10 1 (event .sessionStart "k" (some (eid 9)) [("invite", eid 9)] 4
    (.sessionStart "w" "kkkk" (sessionCert 4 "w" 0))) (rid 9) 4 0 (cid 0)

noncomputable def registered : Sealed :=
  entry 11 1 (event .deviceCert "k" (some (eid 10)) [] 5 (.deviceCert deviceCert)) (rid 10) 5 0
    (cid 0)

noncomputable def asked : Sealed :=
  entry 12 4 (event .ask "kkkk" none [] 0 (.ask none "q")) (rid 11) 6 0 (cid 5)

noncomputable def answered : Sealed :=
  entry 13 2 (event .answer "kk" none [("ask", eid 12)] 0 (.answer "a")) (rid 12) 7 0 (cid 1)

noncomputable def spokenAfter : Sealed :=
  entry 14 2 (event .pane "kk" (some (eid 13)) [] 0 (.pane "p" "t")) (rid 13) 8 0 (cid 2)

/-! After `invited`: the roster drops `h`, and its invite is used all the
same. -/

noncomputable def dropped : Sealed :=
  entry 15 1 (event .roster "k" (some (eid 0)) [("replaces", gid)] 2
    (.roster [helper, operator] [])) (rid 0) 2 0 (cid 0)

noncomputable def bumpedDrop : Sealed :=
  entry 16 1 (event .epoch "k" (some (eid 15)) [] 3 (.epoch 1)) (rid 15) 3 1 (cid 0)

noncomputable def startedDropped : Sealed :=
  entry 17 1 (event .sessionStart "k" (some (eid 16)) [("invite", eid 0)] 4
    (.sessionStart "h" "kk" (sessionCert 2 "h" 1))) (rid 16) 4 1 (cid 0)

/-- What a second use of the first invite would have the server sign. -/
noncomputable def startedAgain : MerkleNode Event :=
  event .sessionStart "k" (some (eid 1)) [("invite", eid 0)] 3
    (.sessionStart "h" "kk" (sessionCert 2 "h" 0))

noncomputable def sealed : List Sealed :=
  [invited, started, spoken, invitedNext, startedNext, handedOff, bumped, renewed, spokenNext,
    invitedHelper, startedHelper, registered, asked, answered, spokenAfter, dropped, bumpedDrop,
    startedDropped]

noncomputable def tables : Tables where
  metadata := metadata
  genesis := genesis
  events := sealed.map (·.event) ++ [startedAgain]
  records := sealed.map (·.record)
  approvals := [approval]
  certs := certs
  frames := [⟨[invited]⟩, ⟨[started]⟩, ⟨[dropped, bumpedDrop]⟩, ⟨[startedDropped]⟩]

noncomputable def P : Primitives := tables.primitives

theorem ids_injective : P.IdsInjective := tables.idsInjective

/-- The frames up to the hand-off. -/
noncomputable def beforeHandoff : List (List Sealed) :=
  [[invited], [started], [spoken], [invitedNext], [startedNext]]

/-- The frames of the hand-over. -/
noncomputable def handover : List (List Sealed) :=
  beforeHandoff ++ [[handedOff, bumped], [renewed], [spokenNext]]

/-- The frames in which one key speaks in two classes. -/
noncomputable def twoClasses : List (List Sealed) :=
  [[invited], [started], [invitedHelper], [startedHelper], [registered], [asked], [answered],
    [spokenAfter]]

set_option maxRecDepth 100000 in
theorem handover_reached : ∃ f, Follower.Reaches P genesis handover f ∧
    f.head.map (Head.id P) = some (rid 8) := by
  decide +kernel

/-! ### Runs of its server -/

noncomputable def key : AgentKey P.toCrypto := ⟨1, serverCert, rfl⟩

noncomputable def signedGenesis : SignedGenesis :=
  ⟨genesis, ⟨serverCert, mark 1 (message gid)⟩⟩

/-- A call draws `n`, and nothing fails. -/
def drawing (n : BitVec 256) : Io := ⟨none, none, fun _ => n⟩

def challenge (nonce : BitVec 256) : PossessionChallenge := ⟨1, 2, nonce⟩

def finish (nonce : BitVec 256) (io : Io) : Call × Io :=
  (.enrollFinish (challenge nonce) (mark 2 (challenge nonce).signingBytes), io)

/-- An invite, and key 2 begins to enroll with its token. -/
def begun : List (Call × Io) :=
  [(.invite "h", drawing 5), (.enrollBegin "kkkkk" "h" 2, drawing 11)]

/-- Two begins with one token, and both are finished. -/
def enrolledTwice : List (Call × Io) :=
  begun ++ [(.enrollBegin "kkkkk" "h" 2, drawing 12), finish 11 (drawing 0), finish 12 (drawing 0)]

/-- The append of the `session-start` dies after five bytes. -/
def enrolledTorn : List (Call × Io) :=
  begun ++ [finish 11 ⟨some (.write 5), none, fun _ => 0⟩]

/-- The member is dropped between the invite and its use. -/
def enrolledDropped : List (Call × Io) :=
  [(.invite "h", drawing 5), (.replaceRoster [helper, operator], drawing 0),
    (.enrollBegin "kkkkk" "h" 2, drawing 11), finish 11 (drawing 0)]

end Small

end Flock
