/-
Committed frames, as far as a watcher behind the bridge.

The server checks that a frame fits one response message before it appends it.
A wire message is read off the server's socket whole, carried as the body of a
data frame of a session, and that frame as the payload of a signed envelope; the
JSON of each writes its bytes as a list of decimal numbers.

* `Server.Deliverable` — every frame in the log fits, also the one a crash left
  whole;
* `length_envelopeText_le` — how long the envelope of a data frame can get;
* `frames_deliverable` — every committed frame can be delivered, and no wire
  message is too large for an envelope.
-/
import AgentMesh.Decimal
import AgentMesh.Crash
import AgentMesh.SshRecords
import AgentMesh.Session
import AgentMesh.Dispatch

open Mesh Framing

namespace Flock

variable {P : Primitives}

/-! ### Wire messages -/

def maxMessage : ℕ := 2 ^ 20

/-- The bytes `write_msg` puts on a socket for an encoded message, if any. -/
def writeMsg (payload : Bytes) : Except ServerError Bytes :=
  if payload.length < 2 ^ 32 ∧ payload.length ≤ maxMessage then .ok (Delimited.bytes payload)
  else .error (.encoding "message too large")

inductive Unread where
  /-- The stream ends inside the length. -/
  | cutShort
  | tooLarge
  /-- The stream ends inside the payload. -/
  | eof
  deriving DecidableEq

/-- The payload of the message at the front of a stream, and what follows it;
nothing at the end of the stream.  `read_msg` and the bridge's `read_frame` both
read this way. -/
def nextMessage (stream : Bytes) : Except Unread (Option (Bytes × Bytes)) :=
  if stream = [] then .ok none
  else if stream.length < 4 then .error .cutShort
  else
    match Delimited.front maxMessage stream with
    | .oversized _ => .error .tooLarge
    | .short => .error .eof
    | .whole payload rest => .ok (some (payload, rest))

end Flock

namespace Bridge

open Flock

/-- One wire message exactly as it is on the socket. -/
def readFrame (why : String) (stream : Bytes) : Except String (Option (Bytes × Bytes)) :=
  match nextMessage stream with
  | .error .cutShort => .error "cut-short message"
  | .error .tooLarge => .error "message too large"
  | .error .eof => .error why
  | .ok none => .ok none
  | .ok (some (payload, rest)) => .ok (some (stream.take 4 ++ payload, rest))

/-- A stream body must be exactly one wire message. -/
def checkFrame (body : Bytes) : Except String Unit :=
  if body.length < 4 then .error "a stream message shorter than a length prefix"
  else if maxMessage < ofBe32 (body.take 4) ∨ body.length ≠ 4 + ofBe32 (body.take 4) then
    .error "a stream message that is not exactly one wire message"
  else .ok ()

end Bridge

namespace Flock

theorem nextMessage_bytes {payload : Bytes} (h : payload.length ≤ maxMessage) (rest : Bytes) :
    nextMessage (Delimited.bytes payload ++ rest) = .ok (some (payload, rest)) := by
  have hlen : (Delimited.bytes payload ++ rest).length = 4 + payload.length + rest.length := by
    rw [List.length_append, Delimited.length_bytes]
  have hne : Delimited.bytes payload ++ rest ≠ [] := by
    intro hnil
    rw [hnil] at hlen
    simp at hlen
    omega
  rw [nextMessage, if_neg hne, if_neg (by omega),
    Delimited.front_bytes (by rw [maxMessage]; omega) h]

/-- **A message within the limit** is written, and read back by either reader. -/
theorem writeMsg_of_le {payload : Bytes} (h : payload.length ≤ maxMessage) :
    writeMsg payload = .ok (Delimited.bytes payload) := by
  have hmax : maxMessage < 2 ^ 32 := by decide
  rw [writeMsg, if_pos ⟨by omega, h⟩]

theorem readFrame_bytes {payload : Bytes} (h : payload.length ≤ maxMessage) (why : String)
    (rest : Bytes) : Bridge.readFrame why (Delimited.bytes payload ++ rest) =
      .ok (some (Delimited.bytes payload, rest)) := by
  rw [Bridge.readFrame, nextMessage_bytes h]
  rfl

theorem checkFrame_bytes {payload : Bytes} (h : payload.length ≤ maxMessage) :
    Bridge.checkFrame (Delimited.bytes payload) = .ok () := by
  have hmax : maxMessage < 2 ^ 32 := by decide
  have htake : (Delimited.bytes payload).take 4 = be32 payload.length := rfl
  have hval : ofBe32 (be32 payload.length) = payload.length := ofBe32_be32 (by omega)
  have hlen := Delimited.length_bytes payload
  rw [Bridge.checkFrame, htake, hval, if_neg (by omega), if_neg (by omega)]

/-! ### Every frame fits -/

/-- Every frame of the log fits a response message, and so does one that an
append left whole. -/
structure Server.Deliverable (s : Server P) : Prop where
  frames : ∀ v ∈ framed s.frames, frameFits P v.sealed = true
  encodes : ∀ v ∈ framed s.frames, Fits P.frameCodec v
  log : Torn P.frameCodec (fun v => frameFits P v.sealed = true) (framed s.frames) s.log.file
  clean : s.poisoned = false → s.log.Clean P.frameCodec (framed s.frames)

theorem Server.Effect.deliverable {s s' : Server P} (he : Server.Effect s s')
    (h : s.Deliverable) : s'.Deliverable := by
  cases he with
  | held | refused => exact ⟨h.frames, h.encodes, h.log, h.clean⟩
  | brokenRefusal => exact ⟨h.frames, h.encodes, h.log, fun hup => by cases hup⟩
  | @published sealed next fault log up built wrote fits =>
    have hframes : framed (Server.publish { s with log := log } sealed next).frames =
        framed s.frames ++ [⟨sealed⟩] := by
      rw [Server.frames, Server.publish, List.map_append]
      exact framed_snoc ..
    have hclean := Log.append_done (h.clean up) wrote
    rw [← hframes] at hclean
    refine ⟨fun v hv => ?_, hclean.fits, .clean hclean.file, fun _ => hclean⟩
    rw [hframes] at hv
    rcases List.mem_append.mp hv with hv | hv
    · exact h.frames v hv
    · rw [List.mem_singleton.mp hv]
      exact fits
  | @broken sealed next fault log e up built wrote fits =>
    have htorn := Log.append_failed (h.clean up) wrote
    refine ⟨h.frames, h.encodes, htorn.imp ?_, fun hup => by cases hup⟩
    rintro v rfl
    exact fits

/-- Opening on what a crash left keeps every frame that fits, and cuts the rest. -/
theorem Server.Deliverable.reopen (hframe : P.frameCodec.Lawful) {key : AgentKey P.toCrypto}
    {genesis : SignedGenesis} {s s' : Server P} (h : s.Deliverable) {lf rf : File}
    (hlf : s.log.file.Lost lf) (hopen : Server.open_ key genesis lf rf = .ok s') :
    s'.Deliverable := by
  obtain ⟨ws, log, found, hlog, hws, hclean, hcase⟩ :=
    Log.recovers hframe (h.log.lost hlf) h.encodes
  obtain ⟨-, -, log', found', _, _, _, _, published, _, _, hlog', -, hrebuild, -, rfl⟩ :=
    Server.open_ok.mp hopen
  rw [hlog] at hlog'
  cases hlog'
  have hframes : framed (published.map (·.1)) = ws := by
    simp only [rebuildWith, bind_ok] at hrebuild
    obtain ⟨st₀, -, hrebuild⟩ := hrebuild
    rw [rebuildFrames_published hrebuild, ← hws, framed, List.map_nil, List.nil_append,
      List.map_map]
    rfl
  rw [← hframes] at hclean
  refine ⟨fun v hv => ?_, hclean.fits, .clean hclean.file, fun _ => hclean⟩
  have hv : v ∈ ws := by rw [← hframes]; exact hv
  rcases hcase with rfl | ⟨w, hw, rfl, -⟩
  · exact h.frames v hv
  · rcases List.mem_append.mp hv with hv | hv
    · exact h.frames v hv
    · rw [List.mem_singleton.mp hv]
      exact hw

/-- The machine runs a server whose frames all fit, or has what a crash left of
one. -/
def World.Deliverable : World P → Prop
  | .up s => s.Deliverable
  | .down lf _ => ∃ s : Server P, s.Deliverable ∧ s.log.file.Lost lf

theorem World.Run.deliverable (hframe : P.frameCodec.Lawful) {key : AgentKey P.toCrypto}
    {genesis : SignedGenesis} {w w' : World P} (hrun : World.Run key genesis w w')
    (h : w.Deliverable) : w'.Deliverable := by
  induction hrun with
  | refl => exact h
  | tail _ hstep ih =>
    cases hstep with
    | call s c io =>
      exact (s.call_outcome c io).does.invariant _ (fun he hs => he.deliverable hs) ih
    | @crash s lf rf log refusals => exact ⟨s, ih, log⟩
    | again log refusals =>
      obtain ⟨s, hs, hl⟩ := ih
      exact ⟨s, hs, hl.trans log⟩
    | reopen hopen =>
      obtain ⟨s, hs, hl⟩ := ih
      exact hs.reopen hframe hl hopen

theorem Server.deliverable_of_empty {key : AgentKey P.toCrypto} {genesis : SignedGenesis}
    {s : Server P} (hopen : Server.open_ key genesis ⟨[], []⟩ ⟨[], []⟩ = .ok s) :
    s.Deliverable := by
  obtain ⟨-, -, st, -, rfl⟩ := Server.open_empty.mp hopen
  have hclean : (⟨⟨[], []⟩, 0, none⟩ : Log).Clean P.frameCodec [] := ⟨rfl, rfl, by simp⟩
  exact ⟨fun v hv => absurd hv List.not_mem_nil, hclean.fits, .clean hclean.file, fun _ => hclean⟩

end Flock

namespace Bridge

open Flock Transport

/-! ### The JSON of a data frame and its envelope -/

def dataText (session : Bus.SessionId) (body : Bytes) : Bytes :=
  ascii "\x7b\"session\":" ++ Decimal.list (beBytes 16 session.bytes.toNat) ++
    ascii ",\"kind\":\"data\",\"body\":" ++ Decimal.list body ++ ascii "\x7d"

def directText (agentFp : Fingerprint) : Bytes :=
  ascii "\x7b\"kind\":\"direct\",\"agent_fp\":" ++ Decimal.list (bytes32 agentFp.hash) ++
    ascii "\x7d"

/-- An envelope, around the texts of its chain and its recipient. -/
def envelopeText (certText recipientText : Bytes) (env : SignedEnvelope) : Bytes :=
  ascii "\x7b\"cert_chain\":" ++ certText ++ ascii ",\"recipient\":" ++ recipientText ++
    ascii ",\"nonce\":" ++ Decimal.list (beBytes 24 env.nonce.toNat) ++
    ascii ",\"sequence\":" ++ Decimal.encode env.sequence ++
    ascii ",\"payload_cid\":" ++ Decimal.list (bytes32 env.payloadCid) ++
    ascii ",\"payload\":" ++ Decimal.list env.payload ++
    ascii ",\"agent_sig\":" ++ Decimal.list (beBytes 64 env.agentSig.toNat) ++ ascii "\x7d"

/-- `serde_json` of envelopes: byte strings are lists of decimal numbers, and
`certJson` is the text of a chain. -/
structure EnvelopeTexts (W : EnvelopeWire) (certJson : CertChain → Bytes) : Prop where
  direct : ∀ agentFp, W.recipientJson (.direct agentFp) = directText agentFp
  envelope : ∀ env, W.envelopeJson env =
    envelopeText (certJson env.certChain) (W.recipientJson env.recipient) env

structure SessionTexts (W : Bus.SessionWire) (certJson : CertChain → Bytes) : Prop
    extends EnvelopeTexts W.toEnvelopeWire certJson where
  data : ∀ session body, W.frameJson ⟨session, .data body⟩ = dataText session body

/-! ### How long they get -/

theorem length_list_of_length {b : Bytes} {n : ℕ} (h : b.length = n) :
    (Decimal.list b).length ≤ 4 * n + 2 := by
  have hlist := Decimal.length_list_le b
  have hwidth := Decimal.width_le b
  omega

theorem length_directText_le (agentFp : Fingerprint) : (directText agentFp).length ≤ 160 := by
  have hlist := length_list_of_length (Ssh.length_bytes32 agentFp.hash)
  have hnames : (ascii "\x7b\"kind\":\"direct\",\"agent_fp\":").length = 28 := by decide
  have hclose : (ascii "\x7d").length = 1 := by decide
  simp only [directText, List.length_append, hnames, hclose]
  omega

theorem width_dataText_le (session : Bus.SessionId) (body : Bytes) :
    Decimal.width (dataText session body) ≤ 12 * body.length + 400 := by
  have hsession := Decimal.width_list_le (beBytes 16 session.bytes.toNat)
  have hbody := Decimal.width_list_le body
  have hopen := Decimal.width_le (ascii "\x7b\"session\":")
  have hkind := Decimal.width_le (ascii ",\"kind\":\"data\",\"body\":")
  have hclose := Decimal.width_le (ascii "\x7d")
  have hopenLength : (ascii "\x7b\"session\":").length = 11 := by decide
  have hkindLength : (ascii ",\"kind\":\"data\",\"body\":").length = 22 := by decide
  have hcloseLength : (ascii "\x7d").length = 1 := by decide
  rw [length_beBytes] at hsession
  simp only [dataText, Decimal.width_append]
  omega

/-- **How long the envelope of a data frame can get.** -/
theorem length_envelopeText_le {certText recipientText : Bytes} {env : SignedEnvelope}
    (hrecipient : recipientText.length ≤ 160) (hsequence : env.sequence < 2 ^ 64) :
    (envelopeText certText recipientText env).length ≤
      certText.length + Decimal.width env.payload + 800 := by
  have hnonce := length_list_of_length (length_beBytes 24 env.nonce.toNat)
  have hcid := length_list_of_length (Ssh.length_bytes32 env.payloadCid)
  have hsig := length_list_of_length (length_beBytes 64 env.agentSig.toNat)
  have hpayload := Decimal.length_list_le env.payload
  have hdigits : (Decimal.encode env.sequence).length ≤ 20 :=
    Decimal.length_encode_le (by omega) (by omega)
  have hnames : (ascii "\x7b\"cert_chain\":").length + (ascii ",\"recipient\":").length +
      (ascii ",\"nonce\":").length + (ascii ",\"sequence\":").length +
      (ascii ",\"payload_cid\":").length + (ascii ",\"payload\":").length +
      (ascii ",\"agent_sig\":").length + (ascii "\x7d").length = 88 := by decide
  simp only [envelopeText, List.length_append]
  omega

/-- The envelope of a data frame whose body is a wire message. -/
theorem length_envelope_le {W : Bus.SessionWire} {E : EnvelopeWire} {certJson : CertChain → Bytes}
    (hW : SessionTexts W certJson) (hE : EnvelopeTexts E certJson) (link : Bus.Link W)
    (nonce : BitVec 192) {sequence : ℕ} (hsequence : sequence < 2 ^ 64) {body : Bytes}
    (hbody : body.length ≤ maxMessage + 4)
    (hcert : (certJson link.agent.cert).length ≤ 4000000) :
    (E.envelopeJson (link.envelope nonce sequence (.data body))).length ≤ maxEnvelopeBytes := by
  have hrecipient : (E.recipientJson (.direct link.peer.agentFp)).length ≤ 160 := by
    rw [hE.direct]
    exact length_directText_le _
  have htext :
      (envelopeText (certJson link.agent.cert) (E.recipientJson (.direct link.peer.agentFp))
      (link.envelope nonce sequence (.data body))).length ≤ (certJson link.agent.cert).length +
        Decimal.width (link.envelope nonce sequence (.data body)).payload + 800 :=
    length_envelopeText_le hrecipient hsequence
  have hpayload : Decimal.width (link.envelope nonce sequence (.data body)).payload ≤
      12 * body.length + 400 := by
    show Decimal.width (W.frameJson ⟨link.id, .data body⟩) ≤ _
    rw [hW.data]
    exact width_dataText_le _ _
  have hmessage : maxMessage = 1048576 := by decide
  rw [hE.envelope, maxEnvelopeBytes]
  exact htext.trans (by omega)

/-! ### The guarantee -/

/-- **Every committed frame can be delivered, also over the bridge.**  Over every
run from an empty log, with any calls, crashes and openings, each published frame
is written as one response message, and the bridge reads it whole and takes it
from a stream.  A wire message carried as the body of a data frame has an
envelope within the limit of envelopes, which is that of SSH records, whatever
its bytes: none is refused as too large. -/
theorem frames_deliverable {P : Primitives} (hframe : P.frameCodec.Lawful)
    {resp : List Sealed → Bytes} (hresp : ∀ sealed, (resp sealed).length = P.respFrameLen sealed)
    {W : Bus.SessionWire} {certJson : CertChain → Bytes} (hW : SessionTexts W certJson) :
    (∀ (key : AgentKey P.toCrypto) (genesis : SignedGenesis) (s₀ s : Server P),
      Server.open_ key genesis ⟨[], []⟩ ⟨[], []⟩ = .ok s₀ →
      World.Run key genesis (.up s₀) (.up s) → ∀ sealed ∈ s.frames,
        (resp sealed).length ≤ maxMessage ∧
        writeMsg (resp sealed) = .ok (Delimited.bytes (resp sealed)) ∧
        (∀ why rest, readFrame why (Delimited.bytes (resp sealed) ++ rest) =
          .ok (some (Delimited.bytes (resp sealed), rest))) ∧
        checkFrame (Delimited.bytes (resp sealed)) = .ok ()) ∧
    maxEnvelopeBytes = Ssh.maxSessionEnvelopeBytes ∧
    ∀ (link : Bus.Link W) (nonce : BitVec 192) (sequence : ℕ) (body : Bytes), sequence < 2 ^ 64 →
      body.length ≤ maxMessage + 4 → (certJson link.agent.cert).length ≤ 4000000 →
      let env := link.envelope nonce sequence (.data body)
      (W.envelopeJson env).length ≤ maxEnvelopeBytes ∧
      (∃ bytes, sendEnvelope W.toEnvelopeWire env = .ok bytes) ∧
      ∀ (C : Ssh.CarrierWire), EnvelopeTexts C.toEnvelopeWire certJson →
        ∀ (agent : AgentKey C.toCrypto) (transcriptId : BitVec 256)
          (direction : Ssh.RecordDirection) (counter : ℕ),
          ∃ bytes, Ssh.writeRecord agent transcriptId direction counter env = .ok bytes := by
  refine ⟨fun key genesis s₀ s hopen hrun sealed hsealed => ?_, rfl,
    fun link nonce sequence body hsequence hbody hcert => ?_⟩
  · have hs : s.Deliverable := hrun.deliverable hframe (Server.deliverable_of_empty hopen)
    have hfits : P.respFrameLen sealed ≤ maxMessage :=
      of_decide_eq_true (hs.frames ⟨sealed⟩ (List.mem_map.mpr ⟨sealed, hsealed, rfl⟩))
    have hle : (resp sealed).length ≤ maxMessage := by
      rw [hresp]
      exact hfits
    exact ⟨hle, writeMsg_of_le hle, fun why rest => readFrame_bytes hle why rest,
      checkFrame_bytes hle⟩
  · intro env
    have hfits : Fits W.toEnvelopeWire env :=
      length_envelope_le hW hW.toEnvelopeTexts link nonce hsequence hbody hcert
    refine ⟨hfits, ⟨_, sendEnvelope_fits hfits⟩,
      fun C hC agent transcriptId direction counter => ?_⟩
    have hrecord : (C.envelopeJson env).length ≤ 16 * 1024 * 1024 :=
      length_envelope_le hW hC link nonce hsequence hbody hcert
    unfold Ssh.writeRecord
    dsimp only
    rw [if_neg (by omega), if_neg (by rw [Ssh.maxSessionEnvelopeBytes]; omega)]
    exact ⟨_, rfl⟩

namespace Small

/-- The texts of `serde_json`, for a chain whose own text is empty. -/
noncomputable def textWire : Bus.SessionWire where
  toWire := { Bus.Small.wire.toWire with
    recipientJson := fun r => match r with
      | .direct agentFp => directText agentFp
      | _ => [] }
  envelopeJson env := envelopeText [] (match env.recipient with
      | .direct agentFp => directText agentFp
      | _ => []) env
  envelopeOfJson _ := .error "eof"
  messageJson _ := []
  messageOfJson _ := .error "eof"
  frameJson f := match f.body with
    | .data body => dataText f.session body
    | _ => []
  frameOfJson _ := .error "eof"

theorem textWire_texts : SessionTexts textWire fun _ => [] where
  direct _ := rfl
  envelope _ := rfl
  data _ _ := rfl

noncomputable def link : Bus.Link textWire := ⟨⟨6⟩, Bus.Small.key 2, ⟨⟨9⟩, ⟨1⟩⟩⟩

end Small

set_option maxRecDepth 100000 in
/-- A frame of the small flock, and a largest message, all of its bytes 255. -/
theorem frames_deliverable_full :
    (∃ s, World.Run Flock.Small.key Flock.Small.signedGenesis (.down ⟨[], []⟩ ⟨[], []⟩) (.up s) ∧
      s.frames = [[Flock.Small.invited]] ∧
      ∀ sealed ∈ s.frames, (List.replicate sealed.length (0 : UInt8)).length ≤ maxMessage) ∧
    ∃ bytes, sendEnvelope Small.textWire.toEnvelopeWire
      (Small.link.envelope 4 7 (.data (List.replicate (maxMessage + 4) 255))) = .ok bytes := by
  have hresp : ∀ sealed : List Sealed, (List.replicate sealed.length (0 : UInt8)).length =
      Flock.Small.P.respFrameLen sealed := fun _ => List.length_replicate
  obtain ⟨hframes, -, hbody⟩ :=
    frames_deliverable Flock.Small.tables.frameLawful hresp Small.textWire_texts
  refine ⟨?_, ?_⟩
  · obtain ⟨s₀, hopen, hserved⟩ :
        ∃ s, Server.open_ Flock.Small.key Flock.Small.signedGenesis ⟨[], []⟩ ⟨[], []⟩ = .ok s ∧
          (s.serve Flock.Small.enrolledTorn).frames = [[Flock.Small.invited]] := by
      decide +kernel
    have hrun : World.Run Flock.Small.key Flock.Small.signedGenesis (.up s₀)
        (.up (s₀.serve Flock.Small.enrolledTorn)) := .serve s₀ _
    exact ⟨_, .head (.reopen hopen) hrun, hserved,
      fun sealed hsealed => (hframes _ _ s₀ _ hopen hrun sealed hsealed).1⟩
  · refine (hbody Small.link 4 7 (List.replicate (maxMessage + 4) 255) (by decide) ?_ ?_).2.1
    · rw [List.length_replicate]
    · exact Nat.zero_le _

end Bridge
