/-
What keys sign.

An agent key signs seven kinds of messages, a user key two.  Two of the formats
have no tag: a certificate's payload starts with the certified key, and a
prekey bundle is two keys.  What keeps the formats apart is where a JSON object
starts, a few bytes of the tags and two lengths; `kindOf` reads the kind of a
message off its bytes that way.

* `kindOf_bytes` — the bytes of a message tell its kind;
* `SignedMessage.same_of_bytes` — and, within its kind, its fields;
* `signature_domains_separate` — so a signature made for one message is good
  for no other.
-/
import AgentMesh.SshFrames

open Mesh Framing

/-- The bytes a bundle's publisher signs: the two Curve25519 keys. -/
def Ratchet.signingPayload (curveIdentity oneTimeKey : BitVec 256) : Bytes :=
  bytes32 curveIdentity ++ bytes32 oneTimeKey

namespace Domains

open Ssh

inductive SignedMessage where
  | certificate (agentPubkey : PubKey) (metadata : AgentMetadata)
  | possession (challenge : PossessionChallenge)
  | assertion (cid : ContentId) (form : cid.bytes.length = 36)
  | envelope (recipient : Recipient) (nonce : BitVec 192) (sequence : UInt64)
      (payloadCid : BitVec 256)
  | bundle (curveIdentity oneTimeKey : BitVec 256)
  | proof (role : SessionRole) (transcriptId : BitVec 256)
  | record (transcriptId : BitVec 256) (direction : RecordDirection) (counter : UInt64)
      (envelopeBytes : Bytes) (fits : envelopeBytes.length < 2 ^ 32)
  | revocation (cid : ContentId) (form : cid.bytes.length = 36)

inductive SignedKind where
  | certificate | possession | assertion | envelope | bundle | proof | record | revocation
  deriving DecidableEq

namespace SignedMessage

def kind : SignedMessage → SignedKind
  | certificate .. => .certificate
  | possession .. => .possession
  | assertion .. => .assertion
  | envelope .. => .envelope
  | bundle .. => .bundle
  | proof .. => .proof
  | record .. => .record
  | revocation .. => .revocation

def bytes (W : CarrierWire) : SignedMessage → Bytes
  | certificate pk m => signPayload W.toCrypto pk m
  | possession c => c.signingBytes
  | assertion cid _ => message cid
  | envelope recipient nonce sequence cid =>
    signingMessage W.toWire recipient nonce sequence.toNat cid
  | bundle curveIdentity oneTimeKey => Ratchet.signingPayload curveIdentity oneTimeKey
  | proof role t => makeProofMessage role t
  | record t d n b _ => makeRecordMessage W t d n.toNat b
  | revocation cid _ => revocationMessage cid

/-- The same message; a record's envelope counts by its length and hash. -/
def Same (W : CarrierWire) : SignedMessage → SignedMessage → Prop
  | record t d n b _, record t' d' n' b' _ =>
    t = t' ∧ d = d' ∧ n = n' ∧ b.length = b'.length ∧ W.payloadHash b = W.payloadHash b'
  | m, m' => m = m'

end SignedMessage

/-- How serde tags a recipient. -/
def recipientTag : Recipient → Bytes
  | .direct _ => ascii "direct"
  | .topic _ => ascii "topic"
  | .anycast _ => ascii "anycast"

/-- What is relied on about the JSON in signed messages: it determines the
value, metadata is an object with all its fields in order, and a recipient is an
object with its tag first. -/
structure JsonForms (W : CarrierWire) : Prop where
  metadata_injective : Function.Injective W.metadataJson
  metadata_object : ∀ m, ∃ role host capabilities issuedAt expiresAt caveats : Bytes,
    W.metadataJson m =
      ascii "\x7b\"role\":" ++ role ++ ascii ",\"host\":" ++ host ++
      ascii ",\"capabilities\":" ++ capabilities ++ ascii ",\"issued_at\":" ++ issuedAt ++
      ascii ",\"expires_at\":" ++ expiresAt ++ ascii ",\"caveats\":" ++ caveats ++ ascii "\x7d"
  recipient_injective : Function.Injective W.recipientJson
  recipient_object : ∀ r, ∃ rest : Bytes,
    W.recipientJson r = ascii "\x7b\"kind\":\"" ++ recipientTag r ++ rest

/-- The kind of a message, read off its bytes.  The positions: 32 is where a
certificate's metadata starts, 10 is the byte after `agent-mesh`, 11 and 12 are
the first of a tag's second part, and 26 the first of a session tag's last. -/
def kindOf (b : Bytes) : SignedKind :=
  if b.length = 64 then .bundle
  else if b.length = 61 then .revocation
  else if b[32]? = some 123 then .certificate
  else if b[10]? = some 45 then .envelope
  else if b[11]? = some 112 then
    if b[12]? = some 111 then .possession else .assertion
  else if b[26]? = some 112 then .proof
  else .record

section Kinds

variable {W : CarrierWire}

/-- A certificate's payload has its metadata's brace at 32, and is long. -/
theorem signPayload_shape (hJ : JsonForms W) (pk : PubKey) (m : AgentMetadata) :
    64 < (signPayload W.toCrypto pk m).length ∧
      (signPayload W.toCrypto pk m)[32]? = some 123 := by
  obtain ⟨role, host, capabilities, issuedAt, expiresAt, caveats, hjson⟩ := hJ.metadata_object m
  have hlen : (signPayload W.toCrypto pk m).length = 32 + (W.metadataJson m).length := by
    rw [signPayload, List.length_append, length_bytes32]
  have hbrace : (signPayload W.toCrypto pk m)[32]? = (W.metadataJson m)[0]? := by
    rw [signPayload, List.getElem?_append_right (by rw [length_bytes32]), length_bytes32]
  have hnames : (ascii "\x7b\"role\":").length + (ascii ",\"host\":").length +
      (ascii ",\"capabilities\":").length + (ascii "\x7d").length = 33 := by decide
  constructor
  · rw [hlen, hjson]
    simp only [List.length_append]
    omega
  · rw [hbrace, hjson]
    rfl

/-- An envelope's message is long, and has a letter of the recipient's tag at
32. -/
theorem signingMessage_shape (hJ : JsonForms W) (r : Recipient) (nonce : BitVec 192) (n : ℕ)
    (cid : BitVec 256) :
    64 < (signingMessage W.toWire r nonce n cid).length ∧
      (signingMessage W.toWire r nonce n cid)[32]? ≠ some 123 ∧
      (signingMessage W.toWire r nonce n cid)[10]? = some 45 := by
  obtain ⟨rest, hjson⟩ := hJ.recipient_object r
  have htag : envelopeTag.length = 22 := by decide
  refine ⟨?_, ?_, rfl⟩
  · rw [signingMessage]
    simp only [List.length_append, length_beBytes, length_bytes32, htag]
    omega
  · rw [signingMessage, hjson]
    cases r with
    | direct fp => exact fun h => absurd (Option.some.inj h) (by decide)
    | topic name => exact fun h => absurd (Option.some.inj h) (by decide)
    | anycast capability => exact fun h => absurd (Option.some.inj h) (by decide)

/-- **The bytes of a message tell its kind.** -/
theorem kindOf_bytes (hJ : JsonForms W) (m : SignedMessage) : kindOf (m.bytes W) = m.kind := by
  cases m with
  | certificate pk md =>
    obtain ⟨hlen, hbrace⟩ := signPayload_shape hJ pk md
    rw [SignedMessage.bytes, kindOf, if_neg (by omega), if_neg (by omega), if_pos hbrace]
    rfl
  | possession c =>
    have hlen : c.signingBytes.length = 130 := by
      simp only [PossessionChallenge.signingBytes, List.length_append, length_bytes32]
      rfl
    rw [SignedMessage.bytes, kindOf, if_neg (by omega), if_neg (by omega)]
    rfl
  | assertion cid form =>
    have hlen : (message cid).length = 71 := by
      rw [message, List.length_append, form]
      rfl
    rw [SignedMessage.bytes, kindOf, if_neg (by omega), if_neg (by omega)]
    rfl
  | envelope r nonce n cid =>
    obtain ⟨hlen, hletter, hdash⟩ := signingMessage_shape hJ r nonce n.toNat cid
    rw [SignedMessage.bytes, kindOf, if_neg (by omega), if_neg (by omega), if_neg hletter,
      if_pos hdash]
    rfl
  | bundle a b =>
    have hlen : (Ratchet.signingPayload a b).length = 64 := by
      rw [Ratchet.signingPayload, List.length_append, length_bytes32, length_bytes32]
    rw [SignedMessage.bytes, kindOf, if_pos hlen]
    rfl
  | proof role t =>
    have hlen : (makeProofMessage role t).length = 65 := by
      simp only [makeProofMessage, List.length_append, length_bytes32]
      rfl
    rw [SignedMessage.bytes, kindOf, if_neg (by omega), if_neg (by omega)]
    -- the role's byte stands at 32
    cases role <;> rfl
  | record t d n b fits =>
    have hlen : (makeRecordMessage W t d n.toNat b).length = 110 := by
      simp only [makeRecordMessage, List.length_append, length_bytes32, length_beBytes,
        length_be32]
      rfl
    rw [SignedMessage.bytes, kindOf, if_neg (by omega), if_neg (by omega)]
    rfl
  | revocation cid form =>
    have hlen : (revocationMessage cid).length = 61 := by
      rw [revocationMessage, List.length_append, form]
      rfl
    rw [SignedMessage.bytes, kindOf, if_neg (by omega), if_pos hlen]
    rfl

theorem signingBytes_injective : Function.Injective PossessionChallenge.signingBytes := by
  rintro ⟨issuer, subject, nonce⟩ ⟨issuer', subject', nonce'⟩ h
  obtain ⟨h, hnonce⟩ := List.append_inj' h (by rw [length_bytes32, length_bytes32])
  obtain ⟨h, hsubject⟩ := List.append_inj' h (by rw [length_bytes32, length_bytes32])
  have hissuer := (List.append_inj h rfl).2
  cases bytes32_injective hissuer
  cases bytes32_injective hsubject
  cases bytes32_injective hnonce
  rfl

theorem signingMessage_inj (hJ : Function.Injective W.recipientJson) {r r' : Recipient}
    {nonce nonce' : BitVec 192} {n n' : ℕ} {cid cid' : BitVec 256} (hn : n < 2 ^ 64)
    (hn' : n' < 2 ^ 64)
    (h : signingMessage W.toWire r nonce n cid = signingMessage W.toWire r' nonce' n' cid') :
    r = r' ∧ nonce = nonce' ∧ n = n' ∧ cid = cid' := by
  -- the recipient's JSON has no fixed length, so the fields are taken from the end
  obtain ⟨h, hcid⟩ := List.append_inj' h (by rw [length_bytes32, length_bytes32])
  obtain ⟨h, hseq⟩ := List.append_inj' h (by rw [length_beBytes, length_beBytes])
  obtain ⟨h, hnonce⟩ := List.append_inj' h (by rw [length_beBytes, length_beBytes])
  have hr := (List.append_inj h rfl).2
  have hwidth : (2 : ℕ) ^ 64 = 256 ^ 8 := by norm_num
  have hwidth' : (2 : ℕ) ^ 192 = 256 ^ 24 := by norm_num
  rw [hwidth] at hn hn'
  have hlt := nonce.isLt
  have hlt' := nonce'.isLt
  rw [hwidth'] at hlt hlt'
  exact ⟨hJ hr, BitVec.eq_of_toNat_eq (beBytes_inj hlt hlt' hnonce), beBytes_inj hn hn' hseq,
    bytes32_injective hcid⟩

/-- **Within a kind the bytes tell the fields**, a record's envelope up to its
length and hash. -/
theorem SignedMessage.same_of_bytes (hJ : JsonForms W) {m m' : SignedMessage}
    (h : m.bytes W = m'.bytes W) : m.Same W m' := by
  have hkind : m.kind = m'.kind := by rw [← kindOf_bytes hJ m, h, kindOf_bytes hJ m']
  have hwidth : ∀ n : UInt64, n.toNat < 2 ^ 64 := fun n => n.toNat_lt
  cases m with
  | certificate pk md =>
    cases m' <;> try cases hkind
    obtain ⟨rfl, rfl⟩ := signPayload_injective hJ.metadata_injective h
    rfl
  | possession c =>
    cases m' <;> try cases hkind
    cases signingBytes_injective h
    rfl
  | assertion cid form =>
    cases m' <;> try cases hkind
    rename_i cid' form'
    have hcid : cid = cid' := congrArg ContentId.mk (List.append_inj h rfl).2
    cases hcid
    rfl
  | envelope r nonce n cid =>
    cases m' <;> try cases hkind
    obtain ⟨rfl, rfl, hn, rfl⟩ :=
      signingMessage_inj hJ.recipient_injective (hwidth _) (hwidth _) h
    cases UInt64.toNat_inj.mp hn
    rfl
  | bundle a b =>
    cases m' <;> try cases hkind
    rename_i a' b'
    obtain ⟨ha, hb⟩ := List.append_inj h (by rw [length_bytes32, length_bytes32])
    rw [bytes32_injective ha, bytes32_injective hb]
    rfl
  | proof role t =>
    cases m' <;> try cases hkind
    obtain ⟨rfl, rfl⟩ := makeProofMessage_inj h
    rfl
  | record t d n b fits =>
    cases m' <;> try cases hkind
    rename_i t' d' n' b' fits'
    obtain ⟨ht, hd, hn, hlen, hhash⟩ :=
      makeRecordMessage_inj (hwidth n) (hwidth n') fits fits' h
    exact ⟨ht, hd, UInt64.toNat_inj.mp hn, hlen, hhash⟩
  | revocation cid form =>
    cases m' <;> try cases hkind
    rename_i cid' form'
    have hcid : cid = cid' := congrArg ContentId.mk (List.append_inj h rfl).2
    cases hcid
    rfl

end Kinds

/-! ### One signature, one purpose -/

/-- **Signature domains do not overlap.**  Messages of different kinds are never
the same bytes, and equal bytes mean the same message.  So if a key's holder has
signed only certain messages, a signature that verifies under the key for some
message is one made for that very message, whatever its kind. -/
theorem signature_domains_separate (W : CarrierWire) (hJ : JsonForms W) (m m' : SignedMessage) :
    (m.kind ≠ m'.kind → m.bytes W ≠ m'.bytes W) ∧
    (m.bytes W = m'.bytes W → m.Same W m') ∧
    ∀ (signed : PubKey → Bytes → Prop) (obtained : PubKey → Set SignedMessage),
      W.toCrypto.Unforgeable signed →
      (∀ pk b, signed pk b → ∃ m'' ∈ obtained pk, m''.bytes W = b) →
      ∀ pk s, W.verifyStrict pk (m.bytes W) s = true ∨ W.verify pk (m.bytes W) s = true →
        ∃ m'' ∈ obtained pk, m''.kind = m.kind ∧ m''.Same W m := by
  refine ⟨?_, SignedMessage.same_of_bytes hJ, ?_⟩
  · intro hkind hbytes
    apply hkind
    rw [← kindOf_bytes hJ m, hbytes, kindOf_bytes hJ m']
  · intro signed obtained hU honly pk s hverify
    obtain ⟨m'', hmem, hbytes⟩ := honly pk _ (hU pk _ s hverify)
    refine ⟨m'', hmem, ?_, SignedMessage.same_of_bytes hJ hbytes⟩
    rw [← kindOf_bytes hJ m'', hbytes, kindOf_bytes hJ m]

/-! Encodings of the forms relied on. -/

namespace Small

open Flock

/-- A metadata object; the value of its first field tells them apart. -/
noncomputable def metadataObject (m : AgentMetadata) : Bytes :=
  ascii "\x7b\"role\":" ++ tabled [] m ++ ascii ",\"host\":" ++ [] ++
    ascii ",\"capabilities\":" ++ [] ++ ascii ",\"issued_at\":" ++ [] ++
    ascii ",\"expires_at\":" ++ [] ++ ascii ",\"caveats\":" ++ [] ++ ascii "\x7d"

theorem metadataObject_injective : Function.Injective metadataObject := by
  intro m m' h
  simp only [metadataObject, List.append_nil, List.append_left_inj, List.append_right_inj] at h
  exact tabled_injective [] h

noncomputable def recipientObject (r : Recipient) : Bytes :=
  ascii "\x7b\"kind\":\"" ++ recipientTag r ++ tabled [] r

theorem recipientTag_head (r : Recipient) (rest : Bytes) :
    (recipientTag r ++ rest).head? = (recipientTag r).head? := by
  cases r <;> rfl

theorem recipientTag_letter {r r' : Recipient}
    (h : (recipientTag r).head? = (recipientTag r').head?) : recipientTag r = recipientTag r' := by
  cases r <;> cases r' <;> simp only [recipientTag] at h ⊢ <;> exact absurd h (by decide)

theorem recipientObject_injective : Function.Injective recipientObject := by
  intro r r' h
  rw [recipientObject, recipientObject, List.append_assoc, List.append_assoc] at h
  have h := (List.append_inj h rfl).2
  by_cases htag : recipientTag r = recipientTag r'
  · rw [htag] at h
    exact tabled_injective [] (List.append_cancel_left h)
  · -- different tags start with different letters
    have hhead := congrArg List.head? h
    rw [recipientTag_head, recipientTag_head] at hhead
    exact absurd (recipientTag_letter hhead) htag

noncomputable def objectWire : CarrierWire where
  toCrypto := { idealCrypto [] with metadataJson := metadataObject }
  payloadHash b := BitVec.ofNat 256 (digest b)
  recipientJson := recipientObject
  keyError _ := none
  envelopeJson := tabled []
  envelopeOfJson b := okOr (recalled [] b) "eof"
  authFrameJson _ := []
  authFrameOfJson _ := .error "eof"

theorem objectWire_forms : JsonForms objectWire where
  metadata_injective := metadataObject_injective
  metadata_object m := ⟨tabled [] m, [], [], [], [], [], rfl⟩
  recipient_injective := recipientObject_injective
  recipient_object r := ⟨tabled [] r, rfl⟩

/-- A certificate for the key whose bytes are the start of a possession
challenge's tag. -/
def lookalike : SignedMessage :=
  .certificate (BitVec.ofNat 256 (ofBeBytes (popDomain.take 32))) ⟨"", "", [], "", none, .top⟩

def challenge : SignedMessage := .possession ⟨1, 2, 3⟩

end Small

theorem signature_domains_separate_lookalike :
    (Small.lookalike.bytes Small.objectWire).take 32 =
      (Small.challenge.bytes Small.objectWire).take 32 ∧
    Small.lookalike.bytes Small.objectWire ≠ Small.challenge.bytes Small.objectWire :=
  ⟨by decide +kernel,
    (signature_domains_separate Small.objectWire Small.objectWire_forms Small.lookalike
      Small.challenge).1 (by decide)⟩

end Domains
