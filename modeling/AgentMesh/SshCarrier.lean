/-
Sessions over carriers that nobody trusts.

Any number of honest ends run `authenticate` and, once they are through, send
and receive records.  Every byte an end reads is the carrier's to choose: it may
deliver, withhold, splice, reflect and replay, and make up frames of its own.
What it cannot do is sign for a key it does not hold.

* `Net.run_sound` — every end of every run is sound;
* `handshake_agreement` — an end that authenticated an honest key has a partner
  in the other role with the same two Hellos, and no transcript is used twice in
  one role.
-/
import AgentMesh.SshRecords

open Mesh Transport

namespace Ssh

variable {W : CarrierWire}

/-! ### Ends -/

/-- An honest end of a session. -/
structure Endpoint (W : CarrierWire) where
  hs : Handshake W
  tx : SendHalf
  rx : RecvHalf
  /-- Delivered and not read. -/
  inbound : Bytes

namespace Endpoint

def agent (e : Endpoint W) : AgentKey W.toCrypto := e.hs.session.localAgent

def role (e : Endpoint W) : SessionRole := e.hs.session.role

def sendContext (e : Endpoint W) (o : HandshakeOutcome) : RecordIoContext :=
  ⟨o.transcriptId, e.role.outboundDirection, e.hs.session.timeouts.record⟩

def recvContext (e : Endpoint W) (o : HandshakeOutcome) : RecordIoContext :=
  ⟨o.transcriptId, e.role.inboundDirection, e.hs.session.timeouts.record⟩

inductive Act where
  /-- The carrier delivers bytes of its choice. -/
  | deliver (bytes : Bytes)
  | handshake (act : Handshake.Act)
  | send (act : SendHalf.Act)
  | recv (act : RecvHalf.Act)

def step (e : Endpoint W) : Act → Endpoint W
  | .deliver bytes => { e with inbound := e.inbound ++ bytes }
  | .handshake act =>
    { e with
      hs := (e.hs.step e.inbound act).1
      inbound := (e.hs.step e.inbound act).2 }
  | .send act =>
    match e.hs.phase with
    | .authenticated o => { e with tx := e.tx.step e.agent (e.sendContext o) act }
    -- there is no session to send on
    | _ => e
  | .recv act =>
    match e.hs.phase with
    | .authenticated o =>
      { e with
        rx := (e.rx.step W o.peerVerifyingKey (e.recvContext o) e.inbound act).1
        inbound := (e.rx.step W o.peerVerifyingKey (e.recvContext o) e.inbound act).2 }
    | _ => e

/-- What is hashed at an end: the Hellos, and the envelopes of the records it
began and took. -/
def hashed (e : Endpoint W) : List Bytes :=
  (e.hs.hellos.map fun p => transcriptInput p.1 p.2).toList ++
    e.tx.begun.map (fun r => W.envelopeJson r.env) ++ e.rx.taken.map (·.1)

end Endpoint

/-- The honest ends, in the order they started. -/
abbrev Net (W : CarrierWire) := List (Endpoint W)

namespace Net

inductive Act (W : CarrierWire) where
  /-- An honest party calls `authenticate`. -/
  | start (u : UnauthenticatedMeshSession W) (revocation : Except TransportError RevocationState)
      (nonce : BitVec 256)
  | on (i : ℕ) (act : Endpoint.Act)

def step (net : Net W) : Act W → Net W
  | .start u revocation nonce =>
    match Handshake.start u revocation nonce with
    | .ok h => net ++ [⟨h, .new, .new, []⟩]
    -- refused before the first byte
    | .error _ => net
  | .on i act => net.modify i (·.step act)

def run (acts : List (Act W)) : Net W := acts.foldl step []

def hashed (net : Net W) : List Bytes := net.flatMap (·.hashed)

end Net

/-! ### Ends are sound -/

namespace Handshake

@[simp] theorem step_session (h : Handshake W) (inbound : Bytes) (act : Act) :
    (h.step inbound act).1.session = h.session := by
  have hpoll : ∀ live, (h.poll live inbound).1.session = h.session := by
    intro live
    unfold poll
    split
    · split
      · rfl
      · rfl
      · split
        · unfold onHello
          split
          · rfl
          · dsimp only
            split <;> rfl
        · rfl
    · split
      · rfl
      · rfl
      · split
        · unfold onProof
          split
          · rfl
          · split <;> rfl
        · rfl
    · rfl
  cases act with
  | flushed => rfl
  | poll live => exact hpoll live
  | io why => rw [step]; split <;> rfl
  | timeout => rw [step]; split <;> rfl
  | drop => rw [step]; split <;> rfl

theorem step_authenticated {h : Handshake W} {o : HandshakeOutcome}
    (hphase : h.phase = .authenticated o) (inbound : Bytes) (act : Act) :
    (h.step inbound act).1.phase = .authenticated o := by
  have hrunning : h.running = false := by rw [running, hphase]
  cases act with
  | flushed => exact hphase
  | poll live =>
    rw [step, poll, hphase]
    exact hphase
  | io why =>
    rw [step, hrunning]
    exact hphase
  | timeout =>
    rw [step, hrunning]
    exact hphase
  | drop =>
    rw [step, hrunning]
    exact hphase

end Handshake

namespace Endpoint

structure Sound (e : Endpoint W) : Prop where
  hs : e.hs.Sound
  tx : ∀ o, e.hs.phase = .authenticated o → e.tx.Sound e.agent (e.sendContext o)
  rx : ∀ o, e.hs.phase = .authenticated o →
    e.rx.Sound W o.peerVerifyingKey (e.recvContext o)
  fresh : (∀ o, e.hs.phase ≠ .authenticated o) → e.tx = .new ∧ e.rx = .new

theorem Sound.handshake {e : Endpoint W} (h : e.Sound) (act : Handshake.Act) :
    (e.step (.handshake act)).Sound := by
  have hhs := Handshake.step_sound h.hs e.inbound act
  have hsession : (e.hs.step e.inbound act).1.session = e.hs.session := by simp
  have hagent : (e.step (.handshake act)).agent = e.agent :=
    congrArg UnauthenticatedMeshSession.localAgent hsession
  have hsend : ∀ o, (e.step (.handshake act)).sendContext o = e.sendContext o := by
    intro o
    simp only [sendContext, role, step, hsession]
  have hrecv : ∀ o, (e.step (.handshake act)).recvContext o = e.recvContext o := by
    intro o
    simp only [recvContext, role, step, hsession]
  by_cases hdone : ∃ o, e.hs.phase = .authenticated o
  · obtain ⟨o, ho⟩ := hdone
    have hphase := Handshake.step_authenticated ho e.inbound act
    have hsame : ∀ o', (e.step (.handshake act)).hs.phase = .authenticated o' → o' = o := by
      intro o' ho'
      rw [show (e.step (.handshake act)).hs.phase = .authenticated o from hphase] at ho'
      cases ho'
      rfl
    refine ⟨hhs, ?_, ?_, fun hnot => absurd hphase (hnot o)⟩
    · intro o' ho'
      rw [hsame o' ho', hagent, hsend]
      exact h.tx o ho
    · intro o' ho'
      rw [hsame o' ho', hrecv]
      exact h.rx o ho
  · -- the halves are untouched as long as there is no session
    have hnot : ∀ o, e.hs.phase ≠ .authenticated o := fun o ho => hdone ⟨o, ho⟩
    obtain ⟨htx, hrx⟩ := h.fresh hnot
    refine ⟨hhs, ?_, ?_, fun _ => ⟨htx, hrx⟩⟩
    · intro o _
      show SendHalf.Sound _ _ e.tx
      rw [htx]
      exact SendHalf.new_sound
    · intro o _
      show RecvHalf.Sound _ _ _ e.rx
      rw [hrx]
      exact RecvHalf.new_sound

theorem Sound.send {e : Endpoint W} (h : e.Sound) (act : SendHalf.Act) :
    (e.step (.send act)).Sound := by
  rw [step]
  split
  · rename_i o ho
    refine ⟨h.hs, ?_, h.rx, fun hnot => absurd ho (hnot o)⟩
    intro o' ho'
    rw [show e.hs.phase = .authenticated o from ho] at ho'
    cases ho'
    exact SendHalf.step_sound (h.tx o ho) act
  · exact h

theorem Sound.recv {e : Endpoint W} (h : e.Sound) (act : RecvHalf.Act) :
    (e.step (.recv act)).Sound := by
  rw [step]
  split
  · rename_i o ho
    refine ⟨h.hs, h.tx, ?_, fun hnot => absurd ho (hnot o)⟩
    intro o' ho'
    rw [show e.hs.phase = .authenticated o from ho] at ho'
    cases ho'
    exact RecvHalf.step_sound (h.rx o ho) e.inbound act
  · exact h

theorem Sound.step {e : Endpoint W} (h : e.Sound) (act : Act) : (e.step act).Sound := by
  cases act with
  | deliver bytes => exact ⟨h.hs, h.tx, h.rx, h.fresh⟩
  | handshake act => exact h.handshake act
  | send act => exact h.send act
  | recv act => exact h.recv act

theorem start_sound {u : UnauthenticatedMeshSession W}
    {revocation : Except TransportError RevocationState} {nonce : BitVec 256} {h : Handshake W}
    (hstart : Handshake.start u revocation nonce = .ok h) :
    Sound (⟨h, .new, .new, []⟩ : Endpoint W) :=
  ⟨Handshake.start_sound hstart, fun _ _ => SendHalf.new_sound, fun _ _ => RecvHalf.new_sound,
    fun _ => ⟨rfl, rfl⟩⟩

end Endpoint

namespace Net

/-- An end of the net after a step is a new one, or one of the net before,
perhaps after a step of its own. -/
theorem step_get {net : Net W} {act : Act W} {i : ℕ} {e : Endpoint W}
    (h : (net.step act)[i]? = some e) :
    (∃ e₀, net[i]? = some e₀ ∧ (e = e₀ ∨ ∃ a, e = e₀.step a)) ∨ (net[i]? = none ∧ e.Sound) := by
  cases act with
  | start u revocation nonce =>
    rw [step] at h
    split at h
    · rename_i hs hstart
      by_cases hlt : i < net.length
      · rw [List.getElem?_append_left hlt] at h
        exact .inl ⟨e, h, .inl rfl⟩
      · refine .inr ⟨List.getElem?_eq_none (by omega), ?_⟩
        rw [List.getElem?_append_right (by omega)] at h
        have hmem := List.mem_of_getElem? h
        rw [List.mem_singleton.mp hmem]
        exact Endpoint.start_sound hstart
    · exact .inl ⟨e, h, .inl rfl⟩
  | on j act =>
    rw [step, List.getElem?_modify] at h
    cases hi : net[i]? with
    | none =>
      rw [hi] at h
      cases h
    | some e₀ =>
      rw [hi] at h
      refine .inl ⟨e₀, rfl, ?_⟩
      cases h
      split
      · exact .inr ⟨act, rfl⟩
      · exact .inl rfl

theorem run_snoc (acts : List (Act W)) (act : Act W) :
    run (acts ++ [act]) = (run acts).step act := by
  rw [run, List.foldl_append]
  rfl

/-- **Every end of every run is sound.** -/
theorem run_sound (acts : List (Act W)) :
    ∀ (i : ℕ) (e : Endpoint W), (run acts)[i]? = some e → e.Sound := by
  induction acts using List.reverseRecOn with
  | nil =>
    intro i e h
    simp [run] at h
  | append_singleton acts act ih =>
    intro i e h
    rw [run_snoc] at h
    obtain ⟨e₀, h₀, rfl | ⟨a, rfl⟩⟩ | ⟨-, hsound⟩ := step_get h
    · exact ih i e h₀
    · exact (ih i e₀ h₀).step a
    · exact hsound

end Net

/-! ### One transcript, one pair of Hellos -/

/-- No two of these strings have one blake3 hash. -/
def CollisionFree (W : CarrierWire) (xs : List Bytes) : Prop :=
  ∀ x ∈ xs, ∀ y ∈ xs, W.payloadHash x = W.payloadHash y → x = y

namespace Handshake

theorem transcript_eq_some {h : Handshake W} {t : BitVec 256} :
    h.transcript = some t ↔ ∃ raw, h.peerHelloRaw = some raw ∧ h.transcriptWith raw = t :=
  Option.map_eq_some_iff

theorem Sound.hellos_length {h : Handshake W} (hs : h.Sound) {raw : Bytes}
    (hraw : h.peerHelloRaw = some raw) :
    (h.hellosWith raw).1.length < 2 ^ 32 ∧ (h.hellosWith raw).2.length < 2 ^ 32 := by
  have hmax : maxHandshakeFrameBytes < 2 ^ 32 := by decide
  have hlocal := hs.length
  obtain ⟨peer, hheard⟩ := hs.heard raw hraw
  have hpeer := hheard.length
  rw [hellosWith]
  cases h.session.role with
  | initiator => exact ⟨hlocal.trans_lt hmax, hpeer.trans_lt hmax⟩
  | responder => exact ⟨hpeer.trans_lt hmax, hlocal.trans_lt hmax⟩

/-- **Ends with one transcript have one pair of Hellos.** -/
theorem Sound.same_hellos {h h' : Handshake W} (hs : h.Sound) (hs' : h'.Sound) {raw raw' : Bytes}
    (hraw : h.peerHelloRaw = some raw) (hraw' : h'.peerHelloRaw = some raw')
    (hfree : CollisionFree W [transcriptInput (h.hellosWith raw).1 (h.hellosWith raw).2,
      transcriptInput (h'.hellosWith raw').1 (h'.hellosWith raw').2])
    (ht : h.transcriptWith raw = h'.transcriptWith raw') :
    h.hellosWith raw = h'.hellosWith raw' := by
  obtain ⟨hfst, hsnd⟩ := hs.hellos_length hraw
  obtain ⟨hfst', hsnd'⟩ := hs'.hellos_length hraw'
  have hinput := hfree _ (by simp) _ (by simp) ht
  obtain ⟨h1, h2⟩ := transcriptInput_inj hfst hsnd hfst' hsnd' hinput
  exact Prod.ext h1 h2

theorem hellosWith_same {h h' : Handshake W} {raw raw' : Bytes}
    (hrole : h.session.role = h'.session.role) (hhellos : h.hellosWith raw = h'.hellosWith raw') :
    h.localHelloRaw = h'.localHelloRaw := by
  rw [hellosWith, hellosWith, hrole] at hhellos
  cases hr : h'.session.role with
  | initiator =>
    rw [hr] at hhellos
    exact congrArg Prod.fst hhellos
  | responder =>
    rw [hr] at hhellos
    exact congrArg Prod.snd hhellos

theorem hellosWith_opposite {h h' : Handshake W} {raw raw' : Bytes}
    (hrole : h'.session.role = h.session.role.opposite)
    (hhellos : h.hellosWith raw = h'.hellosWith raw') :
    raw = h'.localHelloRaw ∧ raw' = h.localHelloRaw := by
  rw [hellosWith, hellosWith, hrole] at hhellos
  cases hr : h.session.role with
  | initiator =>
    rw [hr] at hhellos
    exact ⟨congrArg Prod.snd hhellos, (congrArg Prod.fst hhellos).symm⟩
  | responder =>
    rw [hr] at hhellos
    exact ⟨congrArg Prod.fst hhellos, (congrArg Prod.snd hhellos).symm⟩

theorem Sound.reads {h : Handshake W} (hs : h.Sound) (hW : W.Lawful) :
    W.authFrameOfJson h.localHelloRaw = .ok (.hello h.localHello) := by
  rw [hs.raw]
  exact hW.authFrame _

/-- What the end that heard an end's own Hello knows: that very Hello, and that
it is acceptable. -/
theorem Sound.heard_own {h h' : Handshake W} (hs : h.Sound) (hs' : h'.Sound) (hW : W.Lawful)
    {raw : Bytes} (hraw : h.peerHelloRaw = some raw) (hown : raw = h'.localHelloRaw) :
    Heard h.session h.state h.nonce raw h'.localHello := by
  obtain ⟨peer, hheard⟩ := hs.heard raw hraw
  have hparsed := hheard.parsed
  rw [hown, hs'.reads hW] at hparsed
  rw [AuthFrame.hello.inj (Except.ok.inj hparsed)]
  exact hheard

end Handshake

/-! ### Agreement -/

/-- What an end that is through with outcome `o` has in common with its partner. -/
structure Agrees (e e' : Endpoint W) (o : HandshakeOutcome) : Prop where
  role : e'.role = e.role.opposite
  /-- The two Hellos, byte for byte. -/
  hellos : e'.hs.hellos = e.hs.hellos
  transcript : e'.hs.transcript = some o.transcriptId
  parameters : e'.hs.session.parameters = e.hs.session.parameters
  /-- The partner's true certificate and purpose. -/
  cert : o.peerCert = e'.agent.cert
  purpose : o.peerPurpose = e'.hs.session.purpose
  /-- The partner read the end's own Hello, with its true certificate and
  purpose. -/
  heard : ∃ raw, e'.hs.peerHelloRaw = some raw ∧
    W.authFrameOfJson raw = .ok (.hello e.hs.localHello)
  /-- So if the partner is through too, its outcome is about the end. -/
  both : ∀ o', e'.hs.phase = .authenticated o' → o'.peerCert = e.agent.cert ∧
    o'.peerPurpose = e.hs.session.purpose ∧ o'.transcriptId = o.transcriptId
  /-- The initiator expects the responder. -/
  responder : match e.role with
    | .initiator => e.hs.session.expectedResponder = some e'.agent.fingerprint
    | .responder => e'.hs.session.expectedResponder = some e.agent.fingerprint
  user : e'.agent.cert.userFingerprint W.toCrypto = e.agent.cert.userFingerprint W.toCrypto
  /-- Both certificates passed against the end's log, and against the
  partner's. -/
  verified : e.agent.cert.verifyWith W.toCrypto e.hs.state = .ok () ∧
    e'.agent.cert.verifyWith W.toCrypto e.hs.state = .ok ()
  verified' : e.agent.cert.verifyWith W.toCrypto e'.hs.state = .ok () ∧
    e'.agent.cert.verifyWith W.toCrypto e'.hs.state = .ok ()

namespace Endpoint

theorem mem_hashed_hellos {e : Endpoint W} {raw : Bytes} (hraw : e.hs.peerHelloRaw = some raw) :
    transcriptInput (e.hs.hellosWith raw).1 (e.hs.hellosWith raw).2 ∈ e.hashed := by
  rw [hashed, Handshake.hellos, hraw]
  simp

theorem Sound.same_hellos {e e' : Endpoint W} (h : e.Sound) (h' : e'.Sound) {xs : List Bytes}
    (hxs : CollisionFree W xs) (hsub : e.hashed ⊆ xs) (hsub' : e'.hashed ⊆ xs) {raw raw' : Bytes}
    (hraw : e.hs.peerHelloRaw = some raw) (hraw' : e'.hs.peerHelloRaw = some raw')
    (ht : e.hs.transcriptWith raw = e'.hs.transcriptWith raw') :
    e.hs.hellosWith raw = e'.hs.hellosWith raw' := by
  refine h.hs.same_hellos h'.hs hraw hraw' ?_ ht
  intro x hx y hy hxy
  have hmem : ∀ z ∈ [transcriptInput (e.hs.hellosWith raw).1 (e.hs.hellosWith raw).2,
      transcriptInput (e'.hs.hellosWith raw').1 (e'.hs.hellosWith raw').2], z ∈ xs := by
    intro z hz
    rcases List.mem_cons.mp hz with rfl | hz
    · exact hsub (mem_hashed_hellos hraw)
    · rw [List.mem_singleton.mp hz]
      exact hsub' (mem_hashed_hellos hraw')
  exact hxs x (hmem x hx) y (hmem y hy) hxy

/-- **Ends in one role with one transcript drew one nonce.** -/
theorem Sound.nonce_eq {e e' : Endpoint W} (h : e.Sound) (h' : e'.Sound) (hW : W.Lawful)
    {xs : List Bytes} (hxs : CollisionFree W xs) (hsub : e.hashed ⊆ xs) (hsub' : e'.hashed ⊆ xs)
    (hrole : e.role = e'.role) {t : BitVec 256} (ht : e.hs.transcript = some t)
    (ht' : e'.hs.transcript = some t) : e.hs.nonce = e'.hs.nonce := by
  obtain ⟨raw, hraw, hrawt⟩ := Handshake.transcript_eq_some.mp ht
  obtain ⟨raw', hraw', hrawt'⟩ := Handshake.transcript_eq_some.mp ht'
  have hhellos := h.same_hellos h' hxs hsub hsub' hraw hraw' (hrawt.trans hrawt'.symm)
  have hown := Handshake.hellosWith_same hrole hhellos
  have hread := h.hs.reads hW
  rw [hown, h'.hs.reads hW] at hread
  have hhello : e'.hs.localHello = e.hs.localHello :=
    AuthFrame.hello.inj (Except.ok.inj hread)
  exact (congrArg HelloFrame.nonce hhello).symm

theorem Sound.outcome {e : Endpoint W} (h : e.Sound) {o : HandshakeOutcome}
    (ho : e.hs.phase = .authenticated o) :
    ∃ raw peer, e.hs.peerHelloRaw = some raw ∧
      Handshake.Heard e.hs.session e.hs.state e.hs.nonce raw peer ∧
      o = Handshake.outcomeOf W peer (e.hs.transcriptWith raw) ∧
      e.hs.Proved peer (e.hs.transcriptWith raw) := by
  have hphase := h.hs.phase
  rw [Handshake.PhaseSound, ho] at hphase
  exact hphase

theorem Sound.transcript {e : Endpoint W} (h : e.Sound) {o : HandshakeOutcome}
    (ho : e.hs.phase = .authenticated o) : e.hs.transcript = some o.transcriptId := by
  obtain ⟨raw, peer, hraw, -, rfl, -⟩ := h.outcome ho
  exact Handshake.transcript_eq_some.mpr ⟨raw, hraw, rfl⟩

/-- **Ends in opposite roles with one transcript agree.** -/
theorem Sound.agrees {e e' : Endpoint W} (h : e.Sound) (h' : e'.Sound) (hW : W.Lawful)
    {xs : List Bytes} (hxs : CollisionFree W xs) (hsub : e.hashed ⊆ xs) (hsub' : e'.hashed ⊆ xs)
    {o : HandshakeOutcome} (ho : e.hs.phase = .authenticated o)
    (hrole : e'.role = e.role.opposite) (ht : e'.hs.transcript = some o.transcriptId) :
    Agrees e e' o := by
  obtain ⟨raw, peer, hraw, hheard, rfl, -⟩ := h.outcome ho
  obtain ⟨raw', hraw', hrawt'⟩ := Handshake.transcript_eq_some.mp ht
  have hhellos := h.same_hellos h' hxs hsub hsub' hraw hraw' hrawt'.symm
  obtain ⟨hown, hown'⟩ := Handshake.hellosWith_opposite hrole hhellos
  -- each end heard the other's own Hello, and checked it
  have hpeer : peer = e'.hs.localHello := by
    have hparsed := (h.hs.heard_own h'.hs hW hraw hown).parsed
    rw [hheard.parsed] at hparsed
    exact AuthFrame.hello.inj (Except.ok.inj hparsed)
  have haccept := hheard.acceptable
  rw [hpeer] at haccept ⊢
  have hheard' := h'.hs.heard_own h.hs hW hraw' hown'
  have haccept' := hheard'.acceptable
  refine ⟨hrole, ?_, ht, haccept.parameters, rfl, rfl, ⟨raw', hraw', hheard'.parsed⟩, ?_, ?_,
    haccept.user, ⟨h.hs.cert, haccept.cert⟩, ⟨haccept'.cert, h'.hs.cert⟩⟩
  · rw [Handshake.hellos, Handshake.hellos, hraw, hraw']
    exact congrArg some hhellos.symm
  · intro o' ho'
    obtain ⟨raw'', peer', hraw'', hheard'', rfl, -⟩ := h'.outcome ho'
    rw [hraw'] at hraw''
    cases hraw''
    have hparsed := hheard''.parsed
    rw [hheard'.parsed] at hparsed
    have hpeer' : e.hs.localHello = peer' := AuthFrame.hello.inj (Except.ok.inj hparsed)
    rw [← hpeer']
    exact ⟨rfl, rfl, hrawt'⟩
  · have hnames := haccept.responder
    unfold NamesResponder at hnames
    exact hnames

end Endpoint

namespace Net

/-- The holders of honest keys sign Proofs only in `authenticate`. -/
def ProofsHere (net : Net W) (honest : PubKey → Prop) (signed : PubKey → Bytes → Prop) : Prop :=
  ∀ (pk : PubKey) (role : SessionRole) (t : BitVec 256), honest pk →
    signed pk (makeProofMessage role t) →
    ∃ e ∈ net, e.agent.cert.agentPubkey = pk ∧
      e.hs.signedProof = some (makeProofMessage role t)

theorem hashed_subset {net : Net W} {e : Endpoint W} (h : e ∈ net) : e.hashed ⊆ net.hashed :=
  fun _ hx => List.mem_flatMap.mpr ⟨e, h, hx⟩

/-- The holder of an honest key that an end authenticated signed the Proof of
the other role for the end's transcript. -/
theorem partner {net : Net W} {honest : PubKey → Prop} {signed : PubKey → Bytes → Prop}
    (hU : W.toCrypto.Unforgeable signed) (hproofs : net.ProofsHere honest signed)
    {e : Endpoint W} (he : e.Sound) {o : HandshakeOutcome} (ho : e.hs.phase = .authenticated o)
    (hhonest : honest o.peerCert.agentPubkey) :
    ∃ e' ∈ net, e'.role = e.role.opposite ∧ e'.hs.transcript = some o.transcriptId := by
  obtain ⟨raw, peer, -, -, rfl, s, hs⟩ := he.outcome ho
  obtain ⟨e', hmem, -, hproof⟩ := hproofs _ _ _ hhonest (hU _ _ s (.inl hs))
  obtain ⟨t, ht, hmessage⟩ := Option.map_eq_some_iff.mp hproof
  obtain ⟨hrole, rfl⟩ := makeProofMessage_inj hmessage
  exact ⟨e', hmem, hrole, ht⟩

/-- Ends in one role with one transcript are one end. -/
theorem same_end {net : Net W} (hsound : ∀ (i : ℕ) (e : Endpoint W), net[i]? = some e → e.Sound)
    (hW : W.Lawful) (hnonces : (net.map (·.hs.nonce)).Nodup) (hhash : CollisionFree W net.hashed)
    {i j : ℕ} {e e' : Endpoint W} (hi : net[i]? = some e) (hj : net[j]? = some e')
    (hrole : e.role = e'.role) {t : BitVec 256} (ht : e.hs.transcript = some t)
    (ht' : e'.hs.transcript = some t) : i = j := by
  have hnonce := (hsound i e hi).nonce_eq (hsound j e' hj) hW hhash
    (hashed_subset (List.mem_of_getElem? hi)) (hashed_subset (List.mem_of_getElem? hj)) hrole ht ht'
  have hlt : i < (net.map (·.hs.nonce)).length := by
    rw [List.length_map]
    exact (List.getElem?_eq_some_iff.mp hi).1
  refine (List.getElem?_inj hlt hnonces).mp ?_
  rw [List.getElem?_map, List.getElem?_map, hi, hj, Option.map_some, Option.map_some, hnonce]

end Net

/-- **Handshake agreement.**  In every run of any number of sessions, whatever
the carriers deliver: an end that is through and authenticated an honest key has
a partner that ran the handshake in the other role with the same two Hellos, and
they agree on everything in them; and no two ends that are through share their
role and their transcript.  The partner is another end also when one agent talks
to itself. -/
theorem handshake_agreement (W : CarrierWire) (hW : W.Lawful) (honest : PubKey → Prop)
    (signed : PubKey → Bytes → Prop) (hU : W.toCrypto.Unforgeable signed)
    (acts : List (Net.Act W)) (hnonces : ((Net.run acts).map (·.hs.nonce)).Nodup)
    (hhash : CollisionFree W (Net.run acts).hashed)
    (hproofs : (Net.run acts).ProofsHere honest signed) :
    (∀ (i : ℕ) (e : Endpoint W) (o : HandshakeOutcome), (Net.run acts)[i]? = some e →
      e.hs.phase = .authenticated o → honest o.peerCert.agentPubkey →
      ∃ (j : ℕ) (e' : Endpoint W), (Net.run acts)[j]? = some e' ∧ j ≠ i ∧ Agrees e e' o) ∧
    ∀ (i j : ℕ) (e e' : Endpoint W) (o o' : HandshakeOutcome), (Net.run acts)[i]? = some e →
      (Net.run acts)[j]? = some e' → e.hs.phase = .authenticated o →
      e'.hs.phase = .authenticated o' → e.role = e'.role → o.transcriptId = o'.transcriptId →
      i = j := by
  have hsound := Net.run_sound acts
  constructor
  · intro i e o hi ho hhonest
    have he := hsound i e hi
    obtain ⟨e', hmem, hrole, ht⟩ := Net.partner hU hproofs he ho hhonest
    obtain ⟨j, hj⟩ := List.getElem?_of_mem hmem
    refine ⟨j, e', hj, ?_, ?_⟩
    · -- the partner has the other role
      rintro rfl
      rw [hi] at hj
      cases hj
      exact SessionRole.opposite_ne _ hrole.symm
    · exact he.agrees (hsound j e' hj) hW hhash (Net.hashed_subset (List.mem_of_getElem? hi))
        (Net.hashed_subset hmem) ho hrole ht
  · intro i j e e' o o' hi hj ho ho' hrole hsame
    have ht := (hsound i e hi).transcript ho
    have ht' := (hsound j e' hj).transcript ho'
    rw [← hsame] at ht'
    exact Net.same_end hsound hW hnonces hhash hi hj hrole ht ht'

/-! A spoke with key 2 and a hub with key 1, both agents of the user with
key 9. -/

deriving instance Countable for SessionRole, SessionPurpose
deriving instance Countable for SessionParameters
deriving instance Countable for HelloFrame
deriving instance Countable for ProofFrame
deriving instance Countable for AuthFrame

namespace Small

open Flock

def member : AgentMetadata := ⟨"", "", [], "", none, .top⟩

noncomputable def cert (n : PubKey) : CertChain :=
  .root n member ⟨9⟩ (mark 9 (signPayload (idealCrypto [member]) n member))

noncomputable def spokeHello : HelloFrame :=
  HelloFrame.new .initiator 5 (cert 2) (.new (some 0)) (some ⟨1⟩)

noncomputable def hubHello : HelloFrame :=
  HelloFrame.new .responder 6 (cert 1) (.new (some 0)) none

/-- The transcript of the two Hellos, which are the first two frames of the
table. -/
def transcript : BitVec 256 := BitVec.ofNat 256 (digest (transcriptInput [0] [0, 0]))

def spokeProof : Bytes := makeProofMessage .initiator transcript

def hubProof : Bytes := makeProofMessage .responder transcript

noncomputable def frames : List AuthFrame :=
  [.hello spokeHello, .hello hubHello, .proof ⟨.initiator, transcript, mark 2 spokeProof⟩,
    .proof ⟨.responder, transcript, mark 1 hubProof⟩]

noncomputable def letter : SignedEnvelope := ⟨cert 2, .direct ⟨1⟩, 0, 1, 0, [7], 0⟩

/-- Encodings over tables; the agents' signatures that exist are those over the
messages `made`. -/
noncomputable def tableWire (made : List (PubKey × Bytes)) (frames : List AuthFrame)
    (envelopes : List SignedEnvelope) : CarrierWire where
  toCrypto := { idealCrypto [member] with
    verifyStrict := fun key m s => decide (s = mark key m) && decide ((key, m) ∈ made)
    verify := fun key m s => decide (s = mark key m) && decide (key = 9) }
  payloadHash b := BitVec.ofNat 256 (digest b)
  recipientJson := tabled []
  keyError _ := none
  envelopeJson := tabled envelopes
  envelopeOfJson b := okOr (recalled envelopes b) "eof"
  authFrameJson := tabled frames
  authFrameOfJson b := okOr (recalled frames b) "eof"

theorem tableWire_lawful (made : List (PubKey × Bytes)) (frames : List AuthFrame)
    (envelopes : List SignedEnvelope) : (tableWire made frames envelopes).Lawful where
  authFrame f := okOr_ok.mpr (recalled_tabled frames f)
  envelope env := okOr_ok.mpr (recalled_tabled envelopes env)

noncomputable def wire (made : List (PubKey × Bytes)) : CarrierWire :=
  tableWire made frames [letter]

noncomputable def letterRecord : Bytes :=
  makeRecordMessage (wire []) transcript .initiatorToResponder 1 [0]

noncomputable def made : List (PubKey × Bytes) :=
  [(2, spokeProof), (1, hubProof), (2, letterRecord)]

noncomputable def key (n : Seed) : AgentKey (wire made).toCrypto :=
  AgentKey.issueWith (wire made).toCrypto ⟨9⟩ n member

def log : RevocationState := ⟨⟨9⟩, ⟨[]⟩, 1, 0, ∅⟩

/-- Both ends start, and the carrier delivers each frame to the other end. -/
noncomputable def meeting : List (Net.Act (wire made)) :=
  let flight (toSpoke toHub : Bytes) : List (Net.Act (wire made)) :=
    [.on 0 (.handshake .flushed), .on 1 (.handshake .flushed),
      .on 0 (.deliver (Delimited.bytes toSpoke)), .on 1 (.deliver (Delimited.bytes toHub)),
      .on 0 (.handshake (.poll (.ok ()))), .on 1 (.handshake (.poll (.ok ())))]
  .start (.initiator (key 2) ⟨1⟩ (.new none) ⟨5000, 30000⟩) (.ok log) 5 ::
  .start (.responder (key 1) (.new none) ⟨5000, 30000⟩) (.ok log) 6 ::
  flight [0, 0] [0] ++ flight [0, 0, 0, 0] [0, 0, 0]

def honest (pk : PubKey) : Prop := pk = 1 ∨ pk = 2

noncomputable def hub : HandshakeOutcome :=
  ⟨.messages, ⟨⟨9⟩, ⟨1⟩⟩, cert 1, 1, transcript⟩

theorem made_of_vouched {pk : PubKey} {m : Bytes} (hpk : honest pk)
    (h : Vouched (wire made).toCrypto pk m) : (pk, m) ∈ made := by
  obtain ⟨s, hs | hs⟩ := h
  · exact of_decide_eq_true (Bool.and_eq_true _ _ |>.mp hs).2
  · have hnine : pk = 9 := of_decide_eq_true (Bool.and_eq_true _ _ |>.mp hs).2
    rcases hpk with rfl | rfl <;> exact absurd hnine (by decide)

theorem length_proof (role : SessionRole) (t : BitVec 256) :
    (makeProofMessage role t).length = 65 := by
  simp only [makeProofMessage, List.length_append, length_bytes32]
  rfl

theorem proofsHere {net : Net (wire made)}
    (h : ∀ p ∈ made, p.2.length = 65 → ∃ e ∈ net, e.agent.cert.agentPubkey = p.1 ∧
      e.hs.signedProof = some p.2) : net.ProofsHere honest (Vouched (wire made).toCrypto) := by
  intro pk role t hpk hsigned
  exact h _ (made_of_vouched hpk hsigned) (length_proof role t)

end Small

set_option maxRecDepth 100000 in
theorem handshake_agreement_meeting :
    let net := Net.run Small.meeting
    ∃ e, net[0]? = some e ∧ e.hs.phase = .authenticated Small.hub ∧
      ∃ j e', net[j]? = some e' ∧ j ≠ 0 ∧ Agrees e e' Small.hub := by
  intro net
  have hphase : net[0]?.map (·.hs.phase) = some (.authenticated Small.hub) := by decide +kernel
  obtain ⟨e, he, ho⟩ := Option.map_eq_some_iff.mp hphase
  have hnonces : (net.map (·.hs.nonce)).Nodup := by decide +kernel
  have hhash : ∀ x ∈ net.hashed, ∀ y ∈ net.hashed,
      (Small.wire Small.made).payloadHash x = (Small.wire Small.made).payloadHash y → x = y := by
    decide +kernel
  have hproofs : net.ProofsHere Small.honest _ := Small.proofsHere (by decide +kernel)
  have hagree := handshake_agreement (Small.wire Small.made) (Small.tableWire_lawful _ _ _)
    Small.honest _
    (Flock.unforgeable_vouched _) Small.meeting hnonces hhash hproofs
  exact ⟨e, he, ho, hagree.1 0 e _ he ho (.inl rfl)⟩

end Ssh
