/-
Envelopes on a byte stream.

An envelope travels as its JSON behind a four-byte length.  `EnvelopeReader`
keeps the bytes it has read until a whole envelope is there, so a read that is
given up loses nothing; every envelope is verified, and the peer checked
against the revocation log, as it leaves the buffer.

* `EnvelopeReader.next` — one pass of the reading loop;
* `EnvelopeReader.next_env` — what a pass that returned an envelope found;
* `EnvelopeReader.next_bytes` — what a pass does with a whole envelope at the front.
-/
import AgentMesh.Delimited
import AgentMesh.Envelope

open Mesh

namespace Transport

structure EnvelopeWire extends Wire where
  envelopeJson : SignedEnvelope → Bytes
  envelopeOfJson : Bytes → Except String SignedEnvelope

def maxEnvelopeBytes : ℕ := 16 * 1024 * 1024

variable (W : EnvelopeWire)

/-- An envelope that `send_envelope` puts on the stream. -/
def Fits (env : SignedEnvelope) : Prop := (W.envelopeJson env).length ≤ maxEnvelopeBytes

instance (env : SignedEnvelope) : Decidable (Fits W env) := inferInstanceAs (Decidable (_ ≤ _))

/-- The bytes `send_envelope` writes, if it writes any. -/
def sendEnvelope (env : SignedEnvelope) : Except TransportError Bytes :=
  let bytes := W.envelopeJson env
  let len := bytes.length
  if 2 ^ 32 ≤ len then .error (.badEnvelope "envelope too large to encode")
  else if maxEnvelopeBytes < len then
    .error (.badEnvelope s!"envelope {len} bytes exceeds MAX_ENVELOPE_BYTES={maxEnvelopeBytes}")
  else .ok (Delimited.bytes bytes)

/-- What the stream gets of an envelope: nothing of one that is too large. -/
def wireBytes (env : SignedEnvelope) : Bytes := (sendEnvelope W env).toOption.getD []

/-- Decode and verify a received envelope; `live` is what the revocation check
of the peer answers. -/
def decodeEnvelope (body : Bytes) (live : Except TransportError Unit) :
    Except TransportError SignedEnvelope := do
  let env ← (W.envelopeOfJson body).mapError fun e => .badEnvelope ("deserialize: " ++ e)
  (env.verify W.toWire).mapError fun e => .badEnvelope e.text
  live
  return env

/-- A stream of envelopes: the bytes read and not yet used. -/
structure EnvelopeReader where
  buf : Bytes
  deriving DecidableEq

/-- One pass of the loop of `EnvelopeReader::next`, where `read` is what the
stream gives when the buffer holds no whole envelope: no bytes are its end.
`none` is another pass. -/
def EnvelopeReader.next (r : EnvelopeReader) (live : Except TransportError Unit)
    (read : Except String Bytes) :
    EnvelopeReader × Option (Except TransportError (Option SignedEnvelope)) :=
  match Delimited.front maxEnvelopeBytes r.buf with
  | .oversized len =>
    (r, some (.error (.badEnvelope
      s!"incoming envelope {len} bytes exceeds MAX_ENVELOPE_BYTES={maxEnvelopeBytes}")))
  | .whole body rest => (⟨rest⟩, some ((decodeEnvelope W body live).map some))
  | .short =>
    match read with
    | .error e => (r, some (.error (.iroh ("read: " ++ e))))
    | .ok [] => (r, some (if r.buf = [] then .ok none else .error .peerClosed))
    | .ok (b :: bytes) => (⟨r.buf ++ b :: bytes⟩, none)

def EnvelopeReader.front (r : EnvelopeReader) : Option SignedEnvelope :=
  match Delimited.front maxEnvelopeBytes r.buf with
  | .whole body _ => (W.envelopeOfJson body).toOption
  | _ => none

variable {W} {env : SignedEnvelope}

theorem sendEnvelope_fits (h : Fits W env) :
    sendEnvelope W env = .ok (Delimited.bytes (W.envelopeJson env)) := by
  have hlen : (W.envelopeJson env).length ≤ 16 * 1024 * 1024 := h
  rw [sendEnvelope, if_neg (by omega), if_neg (by rw [maxEnvelopeBytes]; omega)]

theorem sendEnvelope_ok {bytes : Bytes} (h : sendEnvelope W env = .ok bytes) :
    Fits W env ∧ bytes = Delimited.bytes (W.envelopeJson env) := by
  rw [sendEnvelope] at h
  split_ifs at h with h32 hmax
  exact ⟨Nat.not_lt.mp hmax, (Except.ok.inj h).symm⟩

theorem wireBytes_of_fits (h : Fits W env) :
    wireBytes W env = Delimited.bytes (W.envelopeJson env) := by
  rw [wireBytes, sendEnvelope_fits h]
  rfl

theorem wireBytes_of_not_fits (h : ¬Fits W env) : wireBytes W env = [] := by
  rw [wireBytes]
  cases hsend : sendEnvelope W env with
  | error e => rfl
  | ok bytes => exact absurd (sendEnvelope_ok hsend).1 h

theorem decodeEnvelope_ok {body : Bytes} {live : Except TransportError Unit} :
    decodeEnvelope W body live = .ok env ↔
      W.envelopeOfJson body = .ok env ∧ env.verify W.toWire = .ok () ∧ live = .ok () := by
  simp only [decodeEnvelope, bind_ok, mapError_ok, pure, Except.pure, Except.ok.injEq]
  constructor
  · rintro ⟨env', hjson, _, hverify, _, hlive, rfl⟩
    exact ⟨hjson, hverify, hlive⟩
  · rintro ⟨hjson, hverify, hlive⟩
    exact ⟨env, hjson, (), hverify, (), hlive, rfl⟩

namespace EnvelopeReader

variable {r r' : EnvelopeReader} {live : Except TransportError Unit} {read : Except String Bytes}

/-- **An envelope the reader returns was at the front of its buffer.** -/
theorem next_env (h : r.next W live read = (r', some (.ok (some env)))) :
    r.front W = some env := by
  unfold next at h
  rw [front]
  cases hfront : Delimited.front maxEnvelopeBytes r.buf with
  | oversized len =>
    rw [hfront] at h
    cases h
  | short =>
    rw [hfront] at h
    cases read with
    | error e => cases h
    | ok bytes =>
      cases bytes with
      | nil =>
        by_cases hbuf : r.buf = [] <;> simp [hbuf] at h
      | cons b bytes => cases h
  | whole body rest =>
    rw [hfront] at h
    simp only [Prod.mk.injEq, Option.some.injEq] at h
    cases hdecode : decodeEnvelope W body live with
    | error e =>
      rw [hdecode] at h
      cases h.2
    | ok env' =>
      rw [hdecode] at h
      cases h.2
      show (W.envelopeOfJson body).toOption = some env
      rw [(decodeEnvelope_ok.mp hdecode).1]
      rfl

/-- A whole envelope at the front is returned, if it verifies. -/
theorem next_bytes (hjson : W.envelopeOfJson (W.envelopeJson env) = .ok env) (hfits : Fits W env)
    (hverify : env.verify W.toWire = .ok ()) (rest : Bytes) :
    (⟨Delimited.bytes (W.envelopeJson env) ++ rest⟩ : EnvelopeReader).next W (.ok ()) read =
      (⟨rest⟩, some (.ok (some env))) := by
  have hfront : Delimited.front maxEnvelopeBytes
      (Delimited.bytes (W.envelopeJson env) ++ rest) = .whole (W.envelopeJson env) rest :=
    Delimited.front_bytes (by decide) hfits rest
  unfold next
  rw [hfront]
  simp only [decodeEnvelope_ok.mpr ⟨hjson, hverify, rfl⟩]
  rfl

end EnvelopeReader

end Transport
