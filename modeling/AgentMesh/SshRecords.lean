/-
The records of an authenticated session.

After the handshake an envelope travels as a record: the session, the
direction, a counter, the envelope's JSON and a signature over all of them.  The
two halves of a session are machines of their own.  A call on a half may be
interrupted at any await, by an error of the stream, by its deadline or by
being dropped; unless it came to its end the half is poisoned, because an
unknown part of a record may have crossed the stream.

* `checkHeader_recordHeader` — a record is taken only in its session, direction
  and turn;
* `readRecord_writeRecord` — what one end writes the other end reads;
* `SendHalf.step_sound`, `RecvHalf.step_sound` — what a half has written and
  taken, whatever happens;
* `SendHalf.Refuses.step`, `RecvHalf.Refuses.step` — a poisoned half only ever
  refuses.
-/
import AgentMesh.SshHandshake

open Mesh Framing Transport

namespace Ssh

def recordHeaderBytes : ℕ := 32 + 1 + 8 + 4

def recordSignatureBytes : ℕ := 64

/-- What a record operation needs besides the half itself. -/
structure RecordIoContext where
  transcriptId : BitVec 256
  direction : RecordDirection
  timeout : ℕ

/-! ### Records as bytes -/

/-- What stands before the envelope. -/
def recordHeader (transcriptId : BitVec 256) (direction : RecordDirection) (counter len : ℕ) :
    Bytes :=
  bytes32 transcriptId ++ [direction.asByte] ++ beBytes 8 counter ++ be32 len

section Bytes

variable (W : CarrierWire)

variable {W} in
/-- The bytes `write_record` puts on the stream, if it puts any. -/
def writeRecord (localAgent : AgentKey W.toCrypto) (transcriptId : BitVec 256)
    (direction : RecordDirection) (counter : ℕ) (env : SignedEnvelope) :
    Except SessionError Bytes :=
  let envelopeBytes := W.envelopeJson env
  let len := envelopeBytes.length
  if 2 ^ 32 ≤ len then .error (.frameTooLarge "envelope" (2 ^ 32 - 1) maxSessionEnvelopeBytes)
  else if maxSessionEnvelopeBytes < len then
    .error (.frameTooLarge "envelope" len maxSessionEnvelopeBytes)
  else
    let message := makeRecordMessage W transcriptId direction counter envelopeBytes
    let signature := W.sign localAgent.signing message
    .ok (recordHeader transcriptId direction counter len ++ envelopeBytes ++
      beBytes 64 signature.toNat)

/-- The header, field by field; the result is the envelope's length. -/
def checkHeader (transcriptId : BitVec 256) (expectedDirection : RecordDirection)
    (expectedCounter : ℕ) (header : Bytes) : Except SessionError ℕ := do
  ensure (header.take 32 = bytes32 transcriptId) .recordSessionMismatch
  let direction ← RecordDirection.fromByte (header.getD 32 0)
  ensure (direction = expectedDirection) .recordDirectionMismatch
  let counter := ofBeBytes ((header.drop 33).take 8)
  ensure (counter = expectedCounter) (.recordCounterMismatch expectedCounter counter)
  let len := ofBe32 ((header.drop 41).take 4)
  ensure (len ≤ maxSessionEnvelopeBytes) (.frameTooLarge "envelope" len maxSessionEnvelopeBytes)
  return len

/-- The signature, and only then the envelope. -/
def openRecord (peerKey : PubKey) (transcriptId : BitVec 256) (direction : RecordDirection)
    (counter : ℕ) (envelopeBytes signatureBytes : Bytes) : Except SessionError SignedEnvelope := do
  let signature := BitVec.ofNat 512 (ofBeBytes signatureBytes)
  let message := makeRecordMessage W transcriptId direction counter envelopeBytes
  ensure (W.verifyStrict peerKey message signature) .badRecordSignature
  (W.envelopeOfJson envelopeBytes).mapError .badEnvelope

/-- What `read_record` makes of the bytes that are there. -/
inductive Read where
  /-- It waits for more. -/
  | short
  | failed (e : SessionError)
  /-- A record with this body, and the bytes after it. -/
  | record (envelopeBytes : Bytes) (env : SignedEnvelope) (rest : Bytes)

def readRecord (peerKey : PubKey) (transcriptId : BitVec 256) (expectedDirection : RecordDirection)
    (expectedCounter : ℕ) (inbound : Bytes) : Read :=
  if inbound.length < recordHeaderBytes then .short
  else
    match checkHeader transcriptId expectedDirection expectedCounter
        (inbound.take recordHeaderBytes) with
    | .error e => .failed e
    | .ok len =>
      let body := inbound.drop recordHeaderBytes
      if body.length < len + recordSignatureBytes then .short
      else
        match openRecord W peerKey transcriptId expectedDirection expectedCounter (body.take len)
            ((body.drop len).take recordSignatureBytes) with
        | .error e => .failed e
        | .ok env => .record (body.take len) env (body.drop (len + recordSignatureBytes))

end Bytes

section Reading

variable {W : CarrierWire}

theorem length_recordHeader (t : BitVec 256) (d : RecordDirection) (n len : ℕ) :
    (recordHeader t d n len).length = recordHeaderBytes := by
  simp only [recordHeader, List.length_append, length_bytes32, length_beBytes, length_be32]
  rfl

/-- **A record is taken only in its session, direction and turn.** -/
theorem checkHeader_recordHeader {t t' : BitVec 256} {d d' : RecordDirection} {n n' len k : ℕ}
    (hn : n' < 2 ^ 64) (hlen : len < 2 ^ 32) :
    checkHeader t d n (recordHeader t' d' n' len) = .ok k ↔
      t' = t ∧ d' = d ∧ n' = n ∧ len ≤ maxSessionEnvelopeBytes ∧ k = len := by
  have hsession : (recordHeader t' d' n' len).take 32 = bytes32 t' := rfl
  have hdirection : (recordHeader t' d' n' len).getD 32 0 = d'.asByte := rfl
  have hcounter : ((recordHeader t' d' n' len).drop 33).take 8 = beBytes 8 n' := rfl
  have hlength : ((recordHeader t' d' n' len).drop 41).take 4 = be32 len := rfl
  have hwidth : n' < 256 ^ 8 := by omega
  simp only [checkHeader, bind_ok, ensure_ok, pure, Except.pure, Except.ok.injEq, hsession,
    hdirection, hcounter, hlength, RecordDirection.fromByte_asByte, ofBeBytes_beBytes hwidth,
    ofBe32_be32 hlen]
  constructor
  · rintro ⟨_, ht, _, rfl, _, hd, _, hn, _, hle, rfl⟩
    exact ⟨bytes32_injective ht, hd, hn, hle, rfl⟩
  · rintro ⟨rfl, rfl, rfl, hle, rfl⟩
    exact ⟨(), rfl, _, rfl, (), rfl, (), rfl, (), hle, rfl⟩

theorem fromByte_error {b : UInt8} {e : SessionError} (h : RecordDirection.fromByte b = .error e) :
    e = .recordDirectionMismatch := by
  unfold RecordDirection.fromByte at h
  split at h
  · cases h
  · split at h
    · cases h
    · cases h
      rfl

theorem openRecord_ok {key : PubKey} {t : BitVec 256} {d : RecordDirection} {n : ℕ}
    {body sig : Bytes} {env : SignedEnvelope} :
    openRecord W key t d n body sig = .ok env ↔
      W.verifyStrict key (makeRecordMessage W t d n body) (BitVec.ofNat 512 (ofBeBytes sig)) =
        true ∧ W.envelopeOfJson body = .ok env := by
  simp only [openRecord, bind_ok, ensure_ok, mapError_ok]
  constructor
  · rintro ⟨_, hsig, hparse⟩
    exact ⟨hsig, hparse⟩
  · rintro ⟨hsig, hparse⟩
    exact ⟨(), hsig, hparse⟩

theorem checkHeader_le {t : BitVec 256} {d : RecordDirection} {n len : ℕ} {header : Bytes}
    (h : checkHeader t d n header = .ok len) : len ≤ maxSessionEnvelopeBytes := by
  simp only [checkHeader, bind_ok, ensure_ok, pure, Except.pure, Except.ok.injEq] at h
  obtain ⟨_, -, _, -, _, -, _, -, _, hle, rfl⟩ := h
  exact hle

theorem readRecord_record {key : PubKey} {t : BitVec 256} {d : RecordDirection} {n : ℕ}
    {inbound body rest : Bytes} {env : SignedEnvelope}
    (h : readRecord W key t d n inbound = .record body env rest) :
    body.length ≤ maxSessionEnvelopeBytes ∧
      (∃ s, W.verifyStrict key (makeRecordMessage W t d n body) s = true) ∧
      W.envelopeOfJson body = .ok env ∧
      checkHeader t d n (inbound.take recordHeaderBytes) = .ok body.length := by
  unfold readRecord at h
  split at h
  · cases h
  · split at h
    · cases h
    · rename_i len hheader
      dsimp only at h
      split at h
      · cases h
      · rename_i hlen
        split at h
        · cases h
        · rename_i hopen
          cases h
          obtain ⟨hsig, hparse⟩ := openRecord_ok.mp hopen
          have hbody : ((inbound.drop recordHeaderBytes).take len).length = len := by
            rw [List.length_take]
            omega
          rw [hbody]
          exact ⟨checkHeader_le hheader, ⟨_, hsig⟩, hparse, hheader⟩

theorem checkHeader_error {t : BitVec 256} {d : RecordDirection} {n : ℕ} {header : Bytes}
    {e : SessionError} (h : checkHeader t d n header = .error e) : e ≠ .counterExhausted := by
  rw [checkHeader] at h
  rcases bind_error h with h | ⟨_, -, h⟩
  · rw [ensure_error h]
    decide
  rcases bind_error h with h | ⟨_, -, h⟩
  · rw [fromByte_error h]
    decide
  rcases bind_error h with h | ⟨_, -, h⟩
  · rw [ensure_error h]
    decide
  rcases bind_error h with h | ⟨_, -, h⟩
  · rw [ensure_error h]
    intro h
    cases h
  rcases bind_error h with h | ⟨_, -, h⟩
  · rw [ensure_error h]
    intro h
    cases h
  · cases h

theorem readRecord_failed {key : PubKey} {t : BitVec 256} {d : RecordDirection} {n : ℕ}
    {inbound : Bytes} {e : SessionError} (h : readRecord W key t d n inbound = .failed e) :
    e ≠ .counterExhausted := by
  unfold readRecord at h
  split at h
  · cases h
  · split at h
    · rename_i hheader
      cases h
      exact checkHeader_error hheader
    · dsimp only at h
      split at h
      · cases h
      · split at h
        · rename_i hopen
          cases h
          rw [openRecord] at hopen
          rcases bind_error hopen with hopen | ⟨_, -, hopen⟩
          · rw [ensure_error hopen]
            decide
          · obtain ⟨why, rfl⟩ := mapError_error hopen
            intro h
            cases h
        · cases h

theorem writeRecord_ok {agent : AgentKey W.toCrypto} {t : BitVec 256} {d : RecordDirection}
    {n : ℕ} {env : SignedEnvelope} {bytes : Bytes} :
    writeRecord agent t d n env = .ok bytes ↔
      (W.envelopeJson env).length ≤ maxSessionEnvelopeBytes ∧
      bytes = recordHeader t d n (W.envelopeJson env).length ++ W.envelopeJson env ++
        beBytes 64
          (W.sign agent.signing (makeRecordMessage W t d n (W.envelopeJson env))).toNat := by
  have hmax : maxSessionEnvelopeBytes < 2 ^ 32 := by decide
  simp only [writeRecord]
  constructor
  · intro h
    split at h
    · cases h
    · split at h
      · cases h
      · cases h
        exact ⟨by omega, rfl⟩
  · rintro ⟨hle, rfl⟩
    rw [if_neg (by omega), if_neg (by omega)]

/-- **What one end writes the other end reads**, whatever follows it. -/
theorem readRecord_writeRecord (hW : W.Lawful) (hC : W.toCrypto.HonestVerifies)
    {agent : AgentKey W.toCrypto} {t : BitVec 256} {d : RecordDirection} {n : ℕ}
    {env : SignedEnvelope} {bytes : Bytes} (hn : n < 2 ^ 64)
    (hwrite : writeRecord agent t d n env = .ok bytes) (rest : Bytes) :
    readRecord W agent.cert.agentPubkey t d n (bytes ++ rest) =
      .record (W.envelopeJson env) env rest := by
  obtain ⟨hle, rfl⟩ := writeRecord_ok.mp hwrite
  have hmax : maxSessionEnvelopeBytes < 2 ^ 32 := by decide
  set json := W.envelopeJson env
  set sig := W.sign agent.signing (makeRecordMessage W t d n json)
  have hbytes : recordHeader t d n json.length ++ json ++ beBytes 64 sig.toNat ++ rest =
      recordHeader t d n json.length ++ (json ++ (beBytes 64 sig.toNat ++ rest)) := by
    simp only [List.append_assoc]
  have htake : (recordHeader t d n json.length ++ (json ++ (beBytes 64 sig.toNat ++ rest))).take
      recordHeaderBytes = recordHeader t d n json.length :=
    List.take_left' (length_recordHeader t d n _)
  have hdrop : (recordHeader t d n json.length ++ (json ++ (beBytes 64 sig.toNat ++ rest))).drop
      recordHeaderBytes = json ++ (beBytes 64 sig.toNat ++ rest) :=
    List.drop_left' (length_recordHeader t d n _)
  have hheader : checkHeader t d n (recordHeader t d n json.length) = .ok json.length :=
    (checkHeader_recordHeader hn (by omega)).mpr ⟨rfl, rfl, rfl, hle, rfl⟩
  have hsigBytes : (json ++ (beBytes 64 sig.toNat ++ rest)).drop json.length =
      beBytes 64 sig.toNat ++ rest := List.drop_left
  have hrest : (json ++ (beBytes 64 sig.toNat ++ rest)).drop (json.length + 64) = rest := by
    rw [← List.append_assoc]
    exact List.drop_left' (by rw [List.length_append, length_beBytes])
  have hsig : BitVec.ofNat 512 (ofBeBytes (beBytes 64 sig.toNat)) = sig := by
    have hlt : sig.toNat < 256 ^ 64 := by
      have := sig.isLt
      omega
    rw [ofBeBytes_beBytes hlt, BitVec.ofNat_toNat, BitVec.setWidth_eq]
  have hopen : openRecord W agent.cert.agentPubkey t d n json (beBytes 64 sig.toNat) = .ok env := by
    refine openRecord_ok.mpr ⟨?_, hW.envelope env⟩
    have h := hC agent.signing (makeRecordMessage W t d n json)
    rw [agent.seed_matches] at h
    rw [hsig]
    exact h
  have hsigTake : (beBytes 64 sig.toNat ++ rest).take recordSignatureBytes =
      beBytes 64 sig.toNat := List.take_left' (length_beBytes 64 _)
  rw [hbytes, readRecord, htake, hheader, hdrop, if_neg]
  · dsimp only
    rw [hsigBytes, hsigTake, List.take_left, hopen, if_neg]
    · exact congrArg (Read.record json env) hrest
    · simp only [List.length_append, length_beBytes, recordSignatureBytes]
      omega
  · rw [List.length_append, length_recordHeader]
    omega

end Reading

/-! ### The send half -/

/-- Re-check the peer against the log; a failure poisons the half.  The second
part of the result is the half's flag. -/
def admitHalf (live : Except TransportError Unit) (poisoned : Bool) :
    Except SessionError Unit × Bool :=
  if poisoned then (.error .poisoned, true)
  else
    match live with
    | .error e => (.error (revocationError e), true)
    | .ok () => (.ok (), false)

/-- A record that an end signed. -/
structure Record where
  transcriptId : BitVec 256
  direction : RecordDirection
  counter : ℕ
  env : SignedEnvelope

def Record.message (W : CarrierWire) (r : Record) : Bytes :=
  makeRecordMessage W r.transcriptId r.direction r.counter (W.envelopeJson r.env)

def Record.bytes {W : CarrierWire} (localAgent : AgentKey W.toCrypto) (r : Record) : Bytes :=
  recordHeader r.transcriptId r.direction r.counter (W.envelopeJson r.env).length ++
    W.envelopeJson r.env ++ beBytes 64 (W.sign localAgent.signing (r.message W)).toNat

structure Sending where
  /-- The counter of its record. -/
  next : ℕ
  /-- What is not written yet. -/
  rest : Bytes

structure SendHalf where
  sendCounter : ℕ
  poisoned : Bool
  pending : Option Sending
  /-- Every byte written. -/
  out : Bytes
  /-- Every record whose writing was begun. -/
  begun : List Record
  /-- How every call ended; `none` if it was dropped. -/
  results : List (Option (Except SessionError Unit))

namespace SendHalf

def new : SendHalf := ⟨0, false, none, [], [], []⟩

def ended (x : SendHalf) (r : Option (Except SessionError Unit)) : SendHalf :=
  { x with results := x.results ++ [r] }

inductive Act where
  /-- `send_envelope` is called; `live` is what the log says of the peer. -/
  | send (live : Except TransportError Unit) (env : SignedEnvelope)
  /-- The stream takes at most `n` more bytes. -/
  | wrote (n : ℕ)
  /-- Everything is written and flushed. -/
  | flushed
  | io (why : String)
  | timeout
  | drop

variable {W : CarrierWire} (localAgent : AgentKey W.toCrypto) (c : RecordIoContext)

def send (x : SendHalf) (live : Except TransportError Unit) (env : SignedEnvelope) : SendHalf :=
  match admitHalf live x.poisoned with
  | (.error e, poisoned) => { x with poisoned := poisoned }.ended (some (.error e))
  | (.ok (), _) =>
    if 2 ^ 64 ≤ x.sendCounter + 1 then x.ended (some (.error .counterExhausted))
    else
      match writeRecord localAgent c.transcriptId c.direction (x.sendCounter + 1) env with
      | .error e => { x with poisoned := true }.ended (some (.error e))
      | .ok bytes =>
        { x with
          pending := some ⟨x.sendCounter + 1, bytes⟩
          begun := x.begun ++ [⟨c.transcriptId, c.direction, x.sendCounter + 1, env⟩] }

/-- The call under way does not come to its end: its guard poisons the half. -/
def giveUp (x : SendHalf) (r : Option (Except SessionError Unit)) : SendHalf :=
  match x.pending with
  | none => x
  | some _ => { x with pending := none, poisoned := true }.ended r

def step (x : SendHalf) : Act → SendHalf
  | .send live env =>
    match x.pending with
    | none => x.send localAgent c live env
    -- the half is borrowed by the call under way
    | some _ => x
  | .wrote n =>
    match x.pending with
    | none => x
    | some s =>
      { x with out := x.out ++ s.rest.take n, pending := some { s with rest := s.rest.drop n } }
  | .flushed =>
    match x.pending with
    | none => x
    | some s =>
      if s.rest = [] then { x with sendCounter := s.next, pending := none }.ended (some (.ok ()))
      else x
  | .io why => x.giveUp (some (.error (.io why)))
  | .timeout => x.giveUp (some (.error (.timeout "mesh session record write" c.timeout)))
  | .drop => x.giveUp none

end SendHalf

/-! ### The receive half -/

structure RecvHalf where
  receiveCounter : ℕ
  poisoned : Bool
  /-- A receive is under way. -/
  pending : Bool
  /-- Every record read to its end: its body and its envelope. -/
  taken : List (Bytes × SignedEnvelope)
  /-- How every call ended; `none` if it was dropped. -/
  results : List (Option (Except SessionError SignedEnvelope))

namespace RecvHalf

def new : RecvHalf := ⟨0, false, false, [], []⟩

def ended (x : RecvHalf) (r : Option (Except SessionError SignedEnvelope)) : RecvHalf :=
  { x with results := x.results ++ [r] }

inductive Act where
  /-- `recv_envelope` is called. -/
  | recv
  /-- It is polled; `live` is what the log says of the peer if a record comes. -/
  | poll (live : Except TransportError Unit)
  | io (why : String)
  | timeout
  | drop

variable (W : CarrierWire) (peerKey : PubKey) (c : RecordIoContext)

def recv (x : RecvHalf) : RecvHalf :=
  if x.poisoned then x.ended (some (.error .poisoned))
  else if 2 ^ 64 ≤ x.receiveCounter + 1 then x.ended (some (.error .counterExhausted))
  else { x with pending := true }

/-- A record has been read to its end: it counts, and is handed on if the peer
is still good. -/
def take (x : RecvHalf) (live : Except TransportError Unit) (body : Bytes) (env : SignedEnvelope) :
    RecvHalf :=
  let read := { x with
    receiveCounter := x.receiveCounter + 1
    pending := false
    taken := x.taken ++ [(body, env)] }
  match admitHalf live read.poisoned with
  | (.error e, poisoned) => { read with poisoned := poisoned }.ended (some (.error e))
  | (.ok (), _) => read.ended (some (.ok env))

/-- The call under way does not come to its end: its guard poisons the half. -/
def giveUp (x : RecvHalf) (r : Option (Except SessionError SignedEnvelope)) : RecvHalf :=
  if x.pending then { x with pending := false, poisoned := true }.ended r else x

def poll (x : RecvHalf) (live : Except TransportError Unit) (inbound : Bytes) : RecvHalf × Bytes :=
  if x.pending then
    match readRecord W peerKey c.transcriptId c.direction (x.receiveCounter + 1) inbound with
    | .short => (x, inbound)
    | .failed e => (x.giveUp (some (.error e)), inbound)
    | .record body env rest => (x.take live body env, rest)
  else (x, inbound)

/-- A step on the bytes that are there; the result has the bytes not read. -/
def step (x : RecvHalf) (inbound : Bytes) : Act → RecvHalf × Bytes
  -- the half is borrowed by a call under way
  | .recv => (if x.pending then x else x.recv, inbound)
  | .poll live => x.poll W peerKey c live inbound
  | .io why => (x.giveUp (some (.error (.io why))), inbound)
  | .timeout =>
    (x.giveUp (some (.error (.timeout "mesh session record read" c.timeout))), inbound)
  | .drop => (x.giveUp none, inbound)

def handedOn (results : List (Option (Except SessionError SignedEnvelope))) :
    List SignedEnvelope :=
  results.filterMap fun
    | some (.ok env) => some env
    | _ => none

def accepted (x : RecvHalf) : List SignedEnvelope := handedOn x.results

end RecvHalf

/-! ### What a half has written and taken -/

/-- A call that failed for another reason than its counter, or was dropped. -/
def Broken {α : Type} : Option (Except SessionError α) → Prop
  | none => True
  | some (.error e) => e ≠ .counterExhausted
  | some (.ok _) => False

theorem admitHalf_cases (live : Except TransportError Unit) (poisoned : Bool) :
    (poisoned = true ∧ admitHalf live poisoned = (.error .poisoned, true)) ∨
    (poisoned = false ∧ live = .ok () ∧ admitHalf live poisoned = (.ok (), false)) ∨
    (poisoned = false ∧ ∃ e, live = .error e ∧
      admitHalf live poisoned = (.error (revocationError e), true)) := by
  cases poisoned with
  | true => exact .inl ⟨rfl, rfl⟩
  | false =>
    cases live with
    | ok u => exact .inr (.inl ⟨rfl, rfl, rfl⟩)
    | error e => exact .inr (.inr ⟨rfl, e, rfl, rfl⟩)

theorem broken_ended {α : Type} {results : List (Option (Except SessionError α))}
    {r : Option (Except SessionError α)} {poisoned : Bool}
    (h : ∀ r ∈ results, Broken r → poisoned = true) (hr : Broken r → poisoned = true) :
    ∀ r' ∈ results ++ [r], Broken r' → poisoned = true := by
  intro r' hmem
  rcases List.mem_append.mp hmem with hmem | hmem
  · exact h r' hmem
  · rw [List.mem_singleton.mp hmem]
    exact hr

theorem revocationError_ne (e : TransportError) : revocationError e ≠ .counterExhausted := by
  cases e <;> intro h <;> cases h

namespace SendHalf

variable {W : CarrierWire} {localAgent : AgentKey W.toCrypto} {c : RecordIoContext}

inductive Moves (localAgent : AgentKey W.toCrypto) (c : RecordIoContext) (x : SendHalf) :
    SendHalf → Prop where
  | stay : Moves localAgent c x x
  | exhausted (hpending : x.pending = none) (hclean : x.poisoned = false)
      (hcount : 2 ^ 64 ≤ x.sendCounter + 1) :
      Moves localAgent c x (x.ended (some (.error .counterExhausted)))
  | refused {e : SessionError} (hpending : x.pending = none) (he : e ≠ .counterExhausted)
      (hpoisoned : x.poisoned = true → e = .poisoned) :
      Moves localAgent c x ({ x with poisoned := true }.ended (some (.error e)))
  | begun {env : SignedEnvelope} {bytes : Bytes} (hpending : x.pending = none)
      (hclean : x.poisoned = false) (hcount : x.sendCounter + 1 < 2 ^ 64)
      (hwrite : writeRecord localAgent c.transcriptId c.direction (x.sendCounter + 1) env =
        .ok bytes) :
      Moves localAgent c x
        { x with
          pending := some ⟨x.sendCounter + 1, bytes⟩
          begun := x.begun ++ [⟨c.transcriptId, c.direction, x.sendCounter + 1, env⟩] }
  | wrote {s : Sending} (hpending : x.pending = some s) (n : ℕ) :
      Moves localAgent c x
        { x with out := x.out ++ s.rest.take n, pending := some { s with rest := s.rest.drop n } }
  | completed {n : ℕ} (hpending : x.pending = some ⟨n, []⟩) :
      Moves localAgent c x ({ x with sendCounter := n, pending := none }.ended (some (.ok ())))
  | gaveUp {s : Sending} {r : Option (Except SessionError Unit)} (hpending : x.pending = some s)
      (hr : Broken r) :
      Moves localAgent c x ({ x with pending := none, poisoned := true }.ended r)

theorem send_moves {x : SendHalf} (hpending : x.pending = none)
    (live : Except TransportError Unit) (env : SignedEnvelope) :
    Moves localAgent c x (x.send localAgent c live env) := by
  rw [send]
  obtain ⟨hpois, hadm⟩ | ⟨hclean, -, hadm⟩ | ⟨hclean, e, -, hadm⟩ :=
    admitHalf_cases live x.poisoned
  · rw [hadm]
    exact .refused hpending (by decide) fun _ => rfl
  · rw [hadm]
    dsimp only
    split
    · rename_i hcount
      exact .exhausted hpending hclean hcount
    · rename_i hcount
      cases hwrite : writeRecord localAgent c.transcriptId c.direction (x.sendCounter + 1) env with
      | error e =>
        refine .refused hpending ?_ fun h => absurd h (by rw [hclean]; decide)
        -- the only errors of writing are about the length
        simp only [writeRecord] at hwrite
        split at hwrite
        · cases hwrite
          intro h
          cases h
        · split at hwrite
          · cases hwrite
            intro h
            cases h
          · cases hwrite
      | ok bytes => exact .begun hpending hclean (by omega) hwrite
  · rw [hadm]
    exact .refused hpending (revocationError_ne e) fun h => absurd h (by rw [hclean]; decide)

theorem giveUp_moves {x : SendHalf} {r : Option (Except SessionError Unit)} (hr : Broken r) :
    Moves localAgent c x (x.giveUp r) := by
  rw [giveUp]
  cases hpending : x.pending with
  | none => exact .stay
  | some s => exact .gaveUp hpending hr

theorem step_moves (x : SendHalf) (act : Act) :
    Moves localAgent c x (x.step localAgent c act) := by
  cases act with
  | send live env =>
    rw [step]
    cases hpending : x.pending with
    | none => exact send_moves hpending live env
    | some s => exact .stay
  | wrote n =>
    rw [step]
    cases hpending : x.pending with
    | none => exact .stay
    | some s => exact .wrote hpending n
  | flushed =>
    rw [step]
    cases hpending : x.pending with
    | none => exact .stay
    | some s =>
      obtain ⟨n, rest⟩ := s
      dsimp only
      split
      · rename_i hrest
        rw [hrest] at hpending
        exact .completed hpending
      · exact .stay
  | io why => exact giveUp_moves (by intro h; cases h)
  | timeout => exact giveUp_moves (by intro h; cases h)
  | drop => exact giveUp_moves trivial

def stream (localAgent : AgentKey W.toCrypto) (x : SendHalf) : Bytes :=
  (x.begun.map (Record.bytes localAgent)).flatten

/-- What a send half has written: records of its own session and direction with
the counters 1, 2, 3 and so on, the last one perhaps not to its end. -/
structure Sound (localAgent : AgentKey W.toCrypto) (c : RecordIoContext) (x : SendHalf) :
    Prop where
  counters : x.begun.map (·.counter) = List.range' 1 x.begun.length
  records : ∀ r ∈ x.begun, r.transcriptId = c.transcriptId ∧ r.direction = c.direction ∧
    r.counter < 2 ^ 64 ∧ (W.envelopeJson r.env).length ≤ maxSessionEnvelopeBytes
  idle : x.pending = none → x.poisoned = false →
    x.begun.length = x.sendCounter ∧ x.out = x.stream localAgent
  sending : ∀ s, x.pending = some s → x.poisoned = false ∧ s.next = x.sendCounter + 1 ∧
    x.begun.length = s.next ∧ x.out ++ s.rest = x.stream localAgent
  written : x.out <+: x.stream localAgent
  broken : ∀ r ∈ x.results, Broken r → x.poisoned = true

theorem new_sound : Sound localAgent c new where
  counters := rfl
  records := by simp [new]
  idle _ _ := ⟨rfl, rfl⟩
  sending := by simp [new]
  written := List.prefix_refl _
  broken := by simp [new]

theorem writeRecord_bytes {x : SendHalf} {env : SignedEnvelope} {bytes : Bytes}
    (hwrite : writeRecord localAgent c.transcriptId c.direction (x.sendCounter + 1) env =
      .ok bytes) :
    (W.envelopeJson env).length ≤ maxSessionEnvelopeBytes ∧
      bytes = Record.bytes localAgent ⟨c.transcriptId, c.direction, x.sendCounter + 1, env⟩ :=
  writeRecord_ok.mp hwrite

theorem stream_snoc (rs : List Record) (r : Record) :
    ((rs ++ [r]).map (Record.bytes localAgent)).flatten =
      (rs.map (Record.bytes localAgent)).flatten ++ r.bytes localAgent := by
  rw [List.map_append, List.flatten_append, List.map_singleton, List.flatten_singleton]

theorem Sound.begun {x : SendHalf} {env : SignedEnvelope} {bytes : Bytes}
    (h : x.Sound localAgent c) (hpending : x.pending = none) (hclean : x.poisoned = false)
    (hcount : x.sendCounter + 1 < 2 ^ 64)
    (hwrite : writeRecord localAgent c.transcriptId c.direction (x.sendCounter + 1) env =
      .ok bytes) :
    Sound localAgent c
      { x with
        pending := some ⟨x.sendCounter + 1, bytes⟩
        begun := x.begun ++ [⟨c.transcriptId, c.direction, x.sendCounter + 1, env⟩] } := by
  obtain ⟨hlen, hout⟩ := h.idle hpending hclean
  obtain ⟨hfits, rfl⟩ := writeRecord_bytes hwrite
  refine ⟨?_, ?_, fun hnone => (nomatch hnone), ?_, ?_, h.broken⟩
  · show (x.begun ++ [_]).map Record.counter = List.range' 1 (x.begun ++ [_]).length
    rw [List.map_append, h.counters, List.length_append, List.length_singleton,
      List.range'_1_concat, hlen, Nat.add_comm 1]
    rfl
  · intro r hr
    rcases List.mem_append.mp hr with hr | hr
    · exact h.records r hr
    · rw [List.mem_singleton.mp hr]
      exact ⟨rfl, rfl, hcount, hfits⟩
  · intro s hs
    cases hs
    refine ⟨hclean, rfl, ?_, ?_⟩
    · show (x.begun ++ [_]).length = x.sendCounter + 1
      rw [List.length_append, List.length_singleton, hlen]
    · show x.out ++ _ = ((x.begun ++ [_]).map _).flatten
      rw [stream_snoc, hout]
      rfl
  · show x.out <+: ((x.begun ++ [_]).map _).flatten
    rw [stream_snoc]
    exact h.written.trans (List.prefix_append _ _)

theorem Sound.moves {x x' : SendHalf} (h : x.Sound localAgent c)
    (hmoves : Moves localAgent c x x') : x'.Sound localAgent c := by
  cases hmoves with
  | stay => exact h
  | exhausted hpending hclean hcount =>
    refine ⟨h.counters, h.records, h.idle, h.sending, h.written, ?_⟩
    exact broken_ended h.broken fun hr => absurd rfl hr
  | refused hpending he hpoisoned =>
    refine ⟨h.counters, h.records, fun _ hclean => (nomatch hclean), fun s hs => ?_, h.written,
      broken_ended (fun _ _ _ => rfl) fun _ => rfl⟩
    rw [ended, hpending] at hs
    cases hs
  | begun hpending hclean hcount hwrite => exact h.begun hpending hclean hcount hwrite
  | @wrote s hpending n =>
    obtain ⟨hclean, hnext, hlen, hout⟩ := h.sending s hpending
    have hall : x.out ++ s.rest.take n ++ s.rest.drop n = x.stream localAgent := by
      rw [List.append_assoc, List.take_append_drop, hout]
    refine ⟨h.counters, h.records, fun hnone => (nomatch hnone), ?_, ⟨_, hall⟩, h.broken⟩
    intro s' hs'
    cases hs'
    exact ⟨hclean, hnext, hlen, hall⟩
  | completed hpending =>
    obtain ⟨hclean, hnext, hlen, hout⟩ := h.sending _ hpending
    rw [List.append_nil] at hout
    exact ⟨h.counters, h.records, fun _ _ => ⟨hlen, hout⟩, fun s hs => (nomatch hs), h.written,
      broken_ended h.broken fun hr => hr.elim⟩
  | gaveUp hpending hr =>
    exact ⟨h.counters, h.records, fun _ hclean => (nomatch hclean), fun s hs => (nomatch hs),
      h.written, broken_ended (fun _ _ _ => rfl) fun _ => rfl⟩

/-- **Whatever happens to a send half, it stays sound.** -/
theorem step_sound {x : SendHalf} (h : x.Sound localAgent c) (act : Act) :
    (x.step localAgent c act).Sound localAgent c :=
  h.moves (step_moves x act)

/-- The later half has refused every call since the earlier one, and has written
nothing. -/
structure Refuses (x x' : SendHalf) : Prop where
  poisoned : x'.poisoned = true
  pending : x'.pending = none
  out : x'.out = x.out
  begun : x'.begun = x.begun
  results : ∃ k, x'.results = x.results ++ List.replicate k (some (.error .poisoned))

theorem Refuses.refl {x : SendHalf} (hpoisoned : x.poisoned = true) (hpending : x.pending = none) :
    Refuses x x :=
  ⟨hpoisoned, hpending, rfl, rfl, 0, by simp⟩

/-- **A poisoned half refuses.** -/
theorem Refuses.step {x x' : SendHalf} (h : Refuses x x') (act : Act) :
    Refuses x (x'.step localAgent c act) := by
  have hmoves : Moves localAgent c x' (x'.step localAgent c act) := step_moves x' act
  generalize x'.step localAgent c act = x'' at hmoves
  have hclean : x'.poisoned ≠ false := by rw [h.poisoned]; decide
  cases hmoves with
  | stay => exact h
  | exhausted _ hfalse _ => exact absurd hfalse hclean
  | refused _ _ he =>
    rw [he h.poisoned]
    obtain ⟨k, hk⟩ := h.results
    refine ⟨rfl, h.pending, h.out, h.begun, k + 1, ?_⟩
    show x'.results ++ [_] = _
    rw [hk, List.replicate_succ', List.append_assoc]
  | begun _ hfalse _ _ => exact absurd hfalse hclean
  | wrote hsome _ =>
    rw [h.pending] at hsome
    cases hsome
  | completed hsome =>
    rw [h.pending] at hsome
    cases hsome
  | gaveUp hsome _ =>
    rw [h.pending] at hsome
    cases hsome

/-- A half that broke is poisoned, with no call under way. -/
theorem Sound.stuck {x : SendHalf} (h : x.Sound localAgent c)
    (hbroken : ∃ r ∈ x.results, Broken r) : Refuses x x := by
  obtain ⟨r, hr, hb⟩ := hbroken
  have hpoisoned := h.broken r hr hb
  refine .refl hpoisoned ?_
  cases hpending : x.pending with
  | none => rfl
  | some s =>
    have hclean := (h.sending s hpending).1
    rw [hpoisoned] at hclean
    cases hclean

end SendHalf

namespace RecvHalf

variable {W : CarrierWire} {peerKey : PubKey} {c : RecordIoContext}

inductive Moves (W : CarrierWire) (peerKey : PubKey) (c : RecordIoContext) (x : RecvHalf) :
    RecvHalf → Prop where
  | stay : Moves W peerKey c x x
  | exhausted (hpending : x.pending = false) (hclean : x.poisoned = false)
      (hcount : 2 ^ 64 ≤ x.receiveCounter + 1) :
      Moves W peerKey c x (x.ended (some (.error .counterExhausted)))
  | refused (hpending : x.pending = false) (hpoisoned : x.poisoned = true) :
      Moves W peerKey c x (x.ended (some (.error .poisoned)))
  | started (hpending : x.pending = false) (hclean : x.poisoned = false)
      (hcount : x.receiveCounter + 1 < 2 ^ 64) : Moves W peerKey c x { x with pending := true }
  | gaveUp {r : Option (Except SessionError SignedEnvelope)} (hpending : x.pending = true)
      (hr : Broken r) (hnone : ∀ env, r ≠ some (.ok env)) :
      Moves W peerKey c x ({ x with pending := false, poisoned := true }.ended r)
  | accepted {inbound body rest : Bytes} {env : SignedEnvelope} (hpending : x.pending = true)
      (hclean : x.poisoned = false)
      (hread : readRecord W peerKey c.transcriptId c.direction (x.receiveCounter + 1) inbound =
        .record body env rest) :
      Moves W peerKey c x
        ({ x with
          receiveCounter := x.receiveCounter + 1
          pending := false
          taken := x.taken ++ [(body, env)] }.ended (some (.ok env)))
  | withheld {inbound body rest : Bytes} {env : SignedEnvelope} {e : SessionError}
      (hpending : x.pending = true)
      (hread : readRecord W peerKey c.transcriptId c.direction (x.receiveCounter + 1) inbound =
        .record body env rest) :
      Moves W peerKey c x
        ({ x with
          receiveCounter := x.receiveCounter + 1
          poisoned := true
          pending := false
          taken := x.taken ++ [(body, env)] }.ended (some (.error e)))

theorem giveUp_moves {x : RecvHalf} {r : Option (Except SessionError SignedEnvelope)}
    (hr : Broken r) (hnone : ∀ env, r ≠ some (.ok env)) : Moves W peerKey c x (x.giveUp r) := by
  rw [giveUp]
  split
  · rename_i hpending
    exact .gaveUp hpending hr hnone
  · exact .stay

theorem take_moves {x : RecvHalf} {inbound body rest : Bytes} {env : SignedEnvelope}
    (hpending : x.pending = true)
    (hread : readRecord W peerKey c.transcriptId c.direction (x.receiveCounter + 1) inbound =
      .record body env rest) (live : Except TransportError Unit) :
    Moves W peerKey c x (x.take live body env) := by
  simp only [take]
  obtain ⟨-, hadm⟩ | ⟨hclean, -, hadm⟩ | ⟨-, e, -, hadm⟩ := admitHalf_cases live x.poisoned
  · rw [hadm]
    exact .withheld hpending hread
  · rw [hadm]
    exact .accepted hpending hclean hread
  · rw [hadm]
    exact .withheld hpending hread

theorem step_moves (x : RecvHalf) (inbound : Bytes) (act : Act) :
    Moves W peerKey c x (x.step W peerKey c inbound act).1 := by
  cases act with
  | recv =>
    rw [step]
    split
    · exact .stay
    · rename_i hpending
      have hpending : x.pending = false := by simpa using hpending
      rw [recv]
      split
      · rename_i hpoisoned
        exact .refused hpending hpoisoned
      · rename_i hclean
        have hclean : x.poisoned = false := by simpa using hclean
        split
        · rename_i hcount
          exact .exhausted hpending hclean hcount
        · exact .started hpending hclean (by omega)
  | poll live =>
    rw [step, poll]
    split
    · rename_i hpending
      split
      · exact .stay
      · rename_i e hread
        exact giveUp_moves (readRecord_failed hread) fun env h => (nomatch h)
      · rename_i body env rest hread
        exact take_moves hpending hread live
    · exact .stay
  | io why => exact giveUp_moves (by intro h; cases h) fun env h => (nomatch h)
  | timeout => exact giveUp_moves (by intro h; cases h) fun env h => (nomatch h)
  | drop => exact giveUp_moves trivial fun env h => (nomatch h)

/-- What a receive half has taken: for each turn a record that the peer's key
signed for this session, direction and turn.  It has handed on their envelopes,
except that of a record whose peer was refused just then. -/
structure Sound (W : CarrierWire) (peerKey : PubKey) (c : RecordIoContext) (x : RecvHalf) :
    Prop where
  counter : x.taken.length = x.receiveCounter
  bounded : x.receiveCounter < 2 ^ 64
  signed : ∀ (k : ℕ) (body : Bytes) (env : SignedEnvelope), x.taken[k]? = some (body, env) →
    body.length ≤ maxSessionEnvelopeBytes ∧
    (∃ s, W.verifyStrict peerKey
      (makeRecordMessage W c.transcriptId c.direction (k + 1) body) s = true) ∧
    W.envelopeOfJson body = .ok env
  accepted : x.accepted <+: x.taken.map (·.2)
  all : x.poisoned = false → x.accepted = x.taken.map (·.2)
  receiving : x.pending = true → x.poisoned = false ∧ x.receiveCounter + 1 < 2 ^ 64
  broken : ∀ r ∈ x.results, Broken r → x.poisoned = true

theorem new_sound : Sound W peerKey c new where
  counter := rfl
  bounded := by decide
  signed := by simp [new]
  accepted := List.prefix_refl _
  all _ := rfl
  receiving := by simp [new]
  broken := by simp [new]

theorem handedOn_ok (results : List (Option (Except SessionError SignedEnvelope)))
    (env : SignedEnvelope) :
    handedOn (results ++ [some (.ok env)]) = handedOn results ++ [env] := by
  rw [handedOn, List.filterMap_append]
  rfl

theorem handedOn_other {results : List (Option (Except SessionError SignedEnvelope))}
    {r : Option (Except SessionError SignedEnvelope)} (hr : ∀ env, r ≠ some (.ok env)) :
    handedOn (results ++ [r]) = handedOn results := by
  rw [handedOn, List.filterMap_append]
  match r with
  | none => exact List.append_nil _
  | some (.error e) => exact List.append_nil _
  | some (.ok env) => exact absurd rfl (hr env)

theorem Sound.signed_snoc {x : RecvHalf} (h : x.Sound W peerKey c) {inbound body rest : Bytes}
    {env : SignedEnvelope}
    (hread : readRecord W peerKey c.transcriptId c.direction (x.receiveCounter + 1) inbound =
      .record body env rest) (k : ℕ) (body' : Bytes) (env' : SignedEnvelope)
    (hk : (x.taken ++ [(body, env)])[k]? = some (body', env')) :
    body'.length ≤ maxSessionEnvelopeBytes ∧
    (∃ s, W.verifyStrict peerKey
      (makeRecordMessage W c.transcriptId c.direction (k + 1) body') s = true) ∧
    W.envelopeOfJson body' = .ok env' := by
  by_cases hlt : k < x.taken.length
  · rw [List.getElem?_append_left hlt] at hk
    exact h.signed k body' env' hk
  · have hk' : k = x.taken.length := by
      have hle := (List.getElem?_eq_some_iff.mp hk).1
      rw [List.length_append, List.length_singleton] at hle
      omega
    rw [hk', List.getElem?_concat_length] at hk
    cases hk
    obtain ⟨hle, hsig, hparse, -⟩ := readRecord_record hread
    rw [hk', h.counter]
    exact ⟨hle, hsig, hparse⟩

theorem Sound.moves {x x' : RecvHalf} (h : x.Sound W peerKey c)
    (hmoves : Moves W peerKey c x x') : x'.Sound W peerKey c := by
  have hnone : ∀ (e : SessionError) (env : SignedEnvelope),
      (some (.error e) : Option (Except SessionError SignedEnvelope)) ≠ some (.ok env) :=
    fun e env h => (nomatch h)
  cases hmoves with
  | stay => exact h
  | exhausted hpending hclean hcount =>
    have haccepted : (x.ended (some (.error .counterExhausted))).accepted = x.accepted :=
      handedOn_other (hnone _)
    refine ⟨h.counter, h.bounded, h.signed, ?_, ?_, h.receiving,
      broken_ended h.broken fun hr => absurd rfl hr⟩
    · rw [haccepted]
      exact h.accepted
    · rw [haccepted]
      exact h.all
  | refused hpending hpoisoned =>
    refine ⟨h.counter, h.bounded, h.signed, ?_, ?_, h.receiving,
      broken_ended h.broken fun _ => hpoisoned⟩
    · show handedOn (x.results ++ [some (.error .poisoned)]) <+: x.taken.map (·.2)
      rw [handedOn_other (hnone _)]
      exact h.accepted
    · intro hclean
      rw [ended, hpoisoned] at hclean
      cases hclean
  | started hpending hclean hcount =>
    exact ⟨h.counter, h.bounded, h.signed, h.accepted, h.all, fun _ => ⟨hclean, hcount⟩, h.broken⟩
  | @gaveUp r hpending hr hother =>
    refine ⟨h.counter, h.bounded, h.signed, ?_, fun hclean => (nomatch hclean),
      fun hp => (nomatch hp), broken_ended (fun _ _ _ => rfl) fun _ => rfl⟩
    show handedOn (x.results ++ [r]) <+: x.taken.map (·.2)
    rw [handedOn_other hother]
    exact h.accepted
  | @accepted inbound body rest env hpending hclean hread =>
    have hall := h.all hclean
    have hlast : handedOn (x.results ++ [some (.ok env)]) =
      (x.taken ++ [(body, env)]).map (·.2) := by
      rw [handedOn_ok, List.map_append]
      exact congrArg (· ++ [env]) hall
    refine ⟨?_, (h.receiving hpending).2, h.signed_snoc hread, ?_, fun _ => hlast,
      fun hp => (nomatch hp), broken_ended h.broken fun hr => hr.elim⟩
    · show (x.taken ++ [(body, env)]).length = x.receiveCounter + 1
      rw [List.length_append, h.counter, List.length_singleton]
    · show handedOn (x.results ++ [_]) <+: (x.taken ++ [(body, env)]).map (·.2)
      rw [hlast]
  | @withheld inbound body rest env e hpending hread =>
    refine ⟨?_, (h.receiving hpending).2, h.signed_snoc hread, ?_, fun hclean => (nomatch hclean),
      fun hp => (nomatch hp), broken_ended (fun _ _ _ => rfl) fun _ => rfl⟩
    · show (x.taken ++ [(body, env)]).length = x.receiveCounter + 1
      rw [List.length_append, h.counter, List.length_singleton]
    · show handedOn (x.results ++ [some (.error e)]) <+: (x.taken ++ [(body, env)]).map (·.2)
      rw [handedOn_other (hnone e), List.map_append]
      exact h.accepted.trans (List.prefix_append _ _)

/-- **Whatever happens to a receive half, it stays sound.** -/
theorem step_sound {x : RecvHalf} (h : x.Sound W peerKey c) (inbound : Bytes) (act : Act) :
    (x.step W peerKey c inbound act).1.Sound W peerKey c :=
  h.moves (step_moves x inbound act)

/-- The later half has refused every call since the earlier one, and has taken
nothing. -/
structure Refuses (x x' : RecvHalf) : Prop where
  poisoned : x'.poisoned = true
  pending : x'.pending = false
  taken : x'.taken = x.taken
  results : ∃ k, x'.results = x.results ++ List.replicate k (some (.error .poisoned))

theorem Refuses.refl {x : RecvHalf} (hpoisoned : x.poisoned = true) (hpending : x.pending = false) :
    Refuses x x :=
  ⟨hpoisoned, hpending, rfl, 0, by simp⟩

/-- **A poisoned half refuses.** -/
theorem Refuses.step {x x' : RecvHalf} (h : Refuses x x') (inbound : Bytes) (act : Act) :
    Refuses x (x'.step W peerKey c inbound act).1 := by
  have hmoves : Moves W peerKey c x' (x'.step W peerKey c inbound act).1 :=
    step_moves x' inbound act
  generalize (x'.step W peerKey c inbound act).1 = x'' at hmoves
  have hclean : x'.poisoned ≠ false := by rw [h.poisoned]; decide
  have hidle : x'.pending ≠ true := by rw [h.pending]; decide
  cases hmoves with
  | stay => exact h
  | exhausted _ hfalse _ => exact absurd hfalse hclean
  | refused _ _ =>
    obtain ⟨k, hk⟩ := h.results
    refine ⟨h.poisoned, h.pending, h.taken, k + 1, ?_⟩
    show x'.results ++ [_] = _
    rw [hk, List.replicate_succ', List.append_assoc]
  | started _ hfalse _ => exact absurd hfalse hclean
  | gaveUp htrue _ _ => exact absurd htrue hidle
  | accepted htrue _ _ => exact absurd htrue hidle
  | withheld htrue _ => exact absurd htrue hidle

/-- A half that broke is poisoned, with no call under way. -/
theorem Sound.stuck {x : RecvHalf} (h : x.Sound W peerKey c)
    (hbroken : ∃ r ∈ x.results, Broken r) : Refuses x x := by
  obtain ⟨r, hr, hb⟩ := hbroken
  have hpoisoned := h.broken r hr hb
  refine .refl hpoisoned ?_
  cases hpending : x.pending with
  | false => rfl
  | true =>
    have hclean := (h.receiving hpending).1
    rw [hpoisoned] at hclean
    cases hclean

end RecvHalf

end Ssh
