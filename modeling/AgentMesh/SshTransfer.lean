/-
Envelopes over carriers that nobody trusts.

The records of the ends of `SshCarrier`: each end signs a record for its own
session, direction and turn only, and the transcript tells sessions in one role
apart, so a record that an end takes was begun by its partner in that turn.

* `Net.taken_begun` — what an end takes in a turn is what its partner began in
  that turn;
* `records_in_order` — what an end accepts is what its partner sent, in order;
  a half that broke stays shut.
-/
import AgentMesh.SshCarrier

open Mesh Transport

namespace Ssh

variable {W : CarrierWire}

/-! ### Turns -/

namespace SendHalf

variable {localAgent : AgentKey W.toCrypto} {c : RecordIoContext} {x : SendHalf}

theorem Sound.get_of_counter (h : x.Sound localAgent c) {r : Record} (hr : r ∈ x.begun) {k : ℕ}
    (hcounter : r.counter = k + 1) : x.begun[k]? = some r := by
  obtain ⟨m, hm⟩ := List.getElem?_of_mem hr
  have hmap : (x.begun.map (·.counter))[m]? = some r.counter := by
    rw [List.getElem?_map, hm, Option.map_some]
  have hlt : m < x.begun.length := (List.getElem?_eq_some_iff.mp hm).1
  rw [h.counters, List.getElem?_range' hlt, Option.some.injEq] at hmap
  have hmk : m = k := by omega
  rw [← hmk]
  exact hm

theorem step_send_exhausted (hcount : 2 ^ 64 ≤ x.sendCounter + 1) (hpending : x.pending = none)
    (live : Except TransportError Unit) (env : SignedEnvelope) :
    ∃ (poisoned : Bool) (e : SessionError),
      x.step localAgent c (.send live env) =
        { x with poisoned := poisoned }.ended (some (.error e)) ∧
      (x.poisoned = false → live = .ok () → poisoned = false ∧ e = .counterExhausted) := by
  have hsend : x.step localAgent c (.send live env) = x.send localAgent c live env := by
    rw [step, hpending]
  rw [hsend, send]
  obtain ⟨hpois, hadm⟩ | ⟨hclean, -, hadm⟩ | ⟨-, e, hlive, hadm⟩ := admitHalf_cases live x.poisoned
  · rw [hadm]
    refine ⟨true, .poisoned, rfl, fun hclean => ?_⟩
    rw [hpois] at hclean
    cases hclean
  · rw [hadm]
    dsimp only
    rw [if_pos hcount]
    refine ⟨x.poisoned, .counterExhausted, rfl, fun _ _ => ⟨hclean, rfl⟩⟩
  · rw [hadm]
    refine ⟨true, revocationError e, rfl, fun _ hok => ?_⟩
    rw [hlive] at hok
    cases hok

end SendHalf

theorem RecvHalf.step_recv_exhausted {x : RecvHalf} {peerKey : PubKey} {c : RecordIoContext}
    (hcount : 2 ^ 64 ≤ x.receiveCounter + 1) (hpending : x.pending = false) (inbound : Bytes) :
    x.step W peerKey c inbound .recv =
      (x.ended (some (.error (if x.poisoned then .poisoned else .counterExhausted))), inbound) := by
  rw [step, hpending, if_neg (by decide), recv, if_pos hcount]
  cases x.poisoned <;> rfl

namespace Net

/-- The holders of honest keys sign records only as the send half does. -/
def RecordsHere (net : Net W) (honest : PubKey → Prop) (signed : PubKey → Bytes → Prop) : Prop :=
  ∀ (pk : PubKey) (t : BitVec 256) (d : RecordDirection) (n : ℕ) (body : Bytes), honest pk →
    signed pk (makeRecordMessage W t d n body) →
    ∃ e ∈ net, e.agent.cert.agentPubkey = pk ∧
      ∃ r ∈ e.tx.begun, r.message W = makeRecordMessage W t d n body

end Net

namespace Endpoint

theorem Sound.begun {e : Endpoint W} (h : e.Sound) {r : Record} (hr : r ∈ e.tx.begun) :
    ∃ o, e.hs.phase = .authenticated o ∧ r.transcriptId = o.transcriptId ∧
      r.direction = e.role.outboundDirection ∧ r.counter < 2 ^ 64 ∧
      (W.envelopeJson r.env).length ≤ maxSessionEnvelopeBytes := by
  by_cases hdone : ∃ o, e.hs.phase = .authenticated o
  · obtain ⟨o, ho⟩ := hdone
    obtain ⟨ht, hd, hn, hfits⟩ := (h.tx o ho).records r hr
    exact ⟨o, ho, ht, hd, hn, hfits⟩
  · obtain ⟨htx, -⟩ := h.fresh fun o ho => hdone ⟨o, ho⟩
    rw [htx] at hr
    cases hr

end Endpoint

namespace Net

variable {net : Net W} {honest : PubKey → Prop} {signed : PubKey → Bytes → Prop}

/-- **What an end takes in a turn is what its partner began in that turn.** -/
theorem taken_begun (hsound : ∀ (i : ℕ) (e : Endpoint W), net[i]? = some e → e.Sound)
    (hW : W.Lawful) (hU : W.toCrypto.Unforgeable signed)
    (hnonces : (net.map (·.hs.nonce)).Nodup) (hhash : CollisionFree W net.hashed)
    (hrecords : net.RecordsHere honest signed) {i j : ℕ} {e e' : Endpoint W}
    (hi : net[i]? = some e) (hj : net[j]? = some e') {o : HandshakeOutcome}
    (ho : e.hs.phase = .authenticated o) (hhonest : honest o.peerVerifyingKey)
    (hrole : e'.role = e.role.opposite) (ht : e'.hs.transcript = some o.transcriptId) {k : ℕ}
    {body : Bytes} {env : SignedEnvelope} (hk : e.rx.taken[k]? = some (body, env)) :
    ∃ r, e'.tx.begun[k]? = some r ∧ r.env = env := by
  have hmax : maxSessionEnvelopeBytes < 2 ^ 32 := by decide
  have hrx := (hsound i e hi).rx o ho
  obtain ⟨hbody, ⟨s, hs⟩, hparse⟩ := hrx.signed k body env hk
  have hturn : k + 1 < 2 ^ 64 := by
    have hlt := (List.getElem?_eq_some_iff.mp hk).1
    have hbounded := hrx.bounded
    rw [hrx.counter] at hlt
    omega
  -- whoever signed the record is the partner: one role, one transcript
  obtain ⟨e'', hmem, -, r, hr, hmessage⟩ := hrecords _ _ _ _ _ hhonest (hU _ _ s (.inl hs))
  obtain ⟨m, hm⟩ := List.getElem?_of_mem hmem
  obtain ⟨o'', ho'', hrt, hrd, hrn, hfits⟩ := (hsound m e'' hm).begun hr
  obtain ⟨hst, hsd, hsn, -, hhashes⟩ :=
    makeRecordMessage_inj hrn hturn (by omega) (by omega) hmessage
  have hrole'' : e''.role = e'.role := by
    rw [hrole]
    exact SessionRole.outboundDirection_inj (hrd.symm.trans hsd)
  have ht'' : e''.hs.transcript = some o.transcriptId := by
    have hown := (hsound m e'' hm).transcript ho''
    rw [← hrt, hst] at hown
    exact hown
  have hsame := same_end hsound hW hnonces hhash hm hj hrole'' ht'' ht
  rw [hsame, hj] at hm
  cases hm
  -- and the envelope is the one with these bytes
  have hjson : W.envelopeJson r.env = body := by
    refine hhash _ (hashed_subset hmem ?_) _ (hashed_subset (List.mem_of_getElem? hi) ?_) hhashes
    · exact List.mem_append_left _ (List.mem_append_right _ (List.mem_map.mpr ⟨r, hr, rfl⟩))
    · exact List.mem_append_right _ (List.mem_map.mpr ⟨_, List.mem_of_getElem? hk, rfl⟩)
  have hget := ((hsound j e' hj).tx o'' ho'').get_of_counter hr hsn
  refine ⟨r, hget, ?_⟩
  rw [← hjson, hW.envelope] at hparse
  exact Except.ok.inj hparse

/-- **What an end accepts is what its partner began to send, in order.** -/
theorem accepted_begun (hsound : ∀ (i : ℕ) (e : Endpoint W), net[i]? = some e → e.Sound)
    (hW : W.Lawful) (hU : W.toCrypto.Unforgeable signed)
    (hnonces : (net.map (·.hs.nonce)).Nodup) (hhash : CollisionFree W net.hashed)
    (hrecords : net.RecordsHere honest signed) {i j : ℕ} {e e' : Endpoint W}
    (hi : net[i]? = some e) (hj : net[j]? = some e') {o : HandshakeOutcome}
    (ho : e.hs.phase = .authenticated o) (hhonest : honest o.peerVerifyingKey)
    (hrole : e'.role = e.role.opposite) (ht : e'.hs.transcript = some o.transcriptId) :
    e.rx.accepted <+: e'.tx.begun.map (·.env) := by
  refine ((hsound i e hi).rx o ho).accepted.trans ?_
  rw [List.prefix_iff_getElem?]
  intro k hlt
  rw [List.length_map] at hlt
  obtain ⟨r, hr, henv⟩ := taken_begun hsound hW hU hnonces hhash hrecords hi hj ho hhonest hrole ht
    (List.getElem?_eq_getElem hlt)
  rw [List.getElem?_map, hr, Option.map_some, henv, List.getElem_map]
  rfl

theorem get_step {net : Net W} {i : ℕ} {e : Endpoint W} (h : net[i]? = some e) (act : Act W) :
    ∃ e', (net.step act)[i]? = some e' ∧ (e' = e ∨ ∃ a, e' = e.step a) := by
  cases act with
  | start u revocation nonce =>
    refine ⟨e, ?_, .inl rfl⟩
    rw [step]
    split
    · rw [List.getElem?_append_left (List.getElem?_eq_some_iff.mp h).1]
      exact h
    · exact h
  | on j act =>
    rw [step, List.getElem?_modify, h]
    split
    · exact ⟨e.step act, rfl, .inr ⟨act, rfl⟩⟩
    · exact ⟨e, rfl, .inl rfl⟩

theorem run_later {P : Endpoint W → Prop} (hstep : ∀ e a, P e → P (e.step a))
    {pre : List (Act W)} {i : ℕ} {e : Endpoint W} (h : (run pre)[i]? = some e) (hP : P e)
    (post : List (Act W)) : ∃ e', (run (pre ++ post))[i]? = some e' ∧ P e' := by
  induction post using List.reverseRecOn with
  | nil =>
    rw [List.append_nil]
    exact ⟨e, h, hP⟩
  | append_singleton post act ih =>
    obtain ⟨e₁, h₁, hP₁⟩ := ih
    rw [← List.append_assoc, run_snoc]
    obtain ⟨e₂, h₂, rfl | ⟨a, rfl⟩⟩ := get_step h₁ act
    · exact ⟨e₂, h₂, hP₁⟩
    · exact ⟨_, h₂, hstep e₁ a hP₁⟩

end Net

namespace Endpoint

theorem step_tx_refuses {x : SendHalf} (e : Endpoint W) (act : Act)
    (h : SendHalf.Refuses x e.tx) : SendHalf.Refuses x (e.step act).tx := by
  cases act with
  | deliver bytes => exact h
  | handshake act => exact h
  | send act =>
    rw [step]
    split
    · exact h.step act
    · exact h
  | recv act =>
    rw [step]
    split
    · exact h
    · exact h

theorem step_rx_refuses {x : RecvHalf} (e : Endpoint W) (act : Act)
    (h : RecvHalf.Refuses x e.rx) : RecvHalf.Refuses x (e.step act).rx := by
  cases act with
  | deliver bytes => exact h
  | handshake act => exact h
  | send act =>
    rw [step]
    split
    · exact h
    · exact h
  | recv act =>
    rw [step]
    split
    · exact h.step e.inbound act
    · exact h

theorem Sound.tx_stuck {e : Endpoint W} (h : e.Sound) (hbroken : ∃ r ∈ e.tx.results, Broken r) :
    SendHalf.Refuses e.tx e.tx := by
  by_cases hdone : ∃ o, e.hs.phase = .authenticated o
  · obtain ⟨o, ho⟩ := hdone
    exact (h.tx o ho).stuck hbroken
  · obtain ⟨htx, -⟩ := h.fresh fun o ho => hdone ⟨o, ho⟩
    rw [htx] at hbroken
    obtain ⟨r, hr, -⟩ := hbroken
    cases hr

theorem Sound.rx_stuck {e : Endpoint W} (h : e.Sound) (hbroken : ∃ r ∈ e.rx.results, Broken r) :
    RecvHalf.Refuses e.rx e.rx := by
  by_cases hdone : ∃ o, e.hs.phase = .authenticated o
  · obtain ⟨o, ho⟩ := hdone
    exact (h.rx o ho).stuck hbroken
  · obtain ⟨-, hrx⟩ := h.fresh fun o ho => hdone ⟨o, ho⟩
    rw [hrx] at hbroken
    obtain ⟨r, hr, -⟩ := hbroken
    cases hr

/-- What an end has written are the records it began, numbered from 1. -/
theorem Sound.written {e : Endpoint W} (h : e.Sound) :
    e.tx.begun.map (·.counter) = List.range' 1 e.tx.begun.length ∧
      (∀ r ∈ e.tx.begun, r.counter < 2 ^ 64) ∧ e.tx.out <+: e.tx.stream e.agent := by
  by_cases hdone : ∃ o, e.hs.phase = .authenticated o
  · obtain ⟨o, ho⟩ := hdone
    have htx := h.tx o ho
    exact ⟨htx.counters, fun r hr => (htx.records r hr).2.2.1, htx.written⟩
  · obtain ⟨htx, -⟩ := h.fresh fun o ho => hdone ⟨o, ho⟩
    rw [htx]
    exact ⟨rfl, fun r hr => (nomatch hr), List.prefix_refl _⟩

end Endpoint

/-- A record is taken only in its session, direction and turn, whatever follows
its header. -/
theorem readRecord_recordHeader {key : PubKey} {t t' : BitVec 256} {d d' : RecordDirection}
    {n n' len : ℕ} {rest body rest' : Bytes} {env : SignedEnvelope} (hn : n' < 2 ^ 64)
    (hlen : len < 2 ^ 32)
    (h : readRecord W key t d n (recordHeader t' d' n' len ++ rest) = .record body env rest') :
    t' = t ∧ d' = d ∧ n' = n := by
  obtain ⟨-, -, -, hheader⟩ := readRecord_record h
  rw [List.take_left' (length_recordHeader t' d' n' len)] at hheader
  obtain ⟨ht, hd, hn, -⟩ := (checkHeader_recordHeader hn hlen).mp hheader
  exact ⟨ht, hd, hn⟩

/-- **Records arrive in order.**  In every run, whatever the carriers deliver and
wherever a call is interrupted: what an end accepts from its partner are the
envelopes of the records the partner began on that session, in order from the
first; a half on which a call failed, other than for its counter, or was dropped
answers every later call with `poisoned` and writes and takes nothing; the
records begun have the counters 1, 2, 3 and so on, and what was written is their
bytes; at the last counter a call fails before anything is signed; and no record
of another session, direction or turn is taken. -/
theorem records_in_order (W : CarrierWire) (hW : W.Lawful) (honest : PubKey → Prop)
    (signed : PubKey → Bytes → Prop) (hU : W.toCrypto.Unforgeable signed)
    (acts : List (Net.Act W)) (hnonces : ((Net.run acts).map (·.hs.nonce)).Nodup)
    (hhash : CollisionFree W (Net.run acts).hashed)
    (hrecords : (Net.run acts).RecordsHere honest signed) :
    (∀ (i j : ℕ) (e e' : Endpoint W) (o : HandshakeOutcome), (Net.run acts)[i]? = some e →
      (Net.run acts)[j]? = some e' → e.hs.phase = .authenticated o →
      honest o.peerVerifyingKey → e'.role = e.role.opposite →
      e'.hs.transcript = some o.transcriptId →
      e.rx.accepted <+: e'.tx.begun.map (·.env)) ∧
    (∀ (pre post : List (Net.Act W)) (i : ℕ) (e : Endpoint W), acts = pre ++ post →
      (Net.run pre)[i]? = some e →
      ((∃ r ∈ e.tx.results, Broken r) →
        ∃ e', (Net.run acts)[i]? = some e' ∧ SendHalf.Refuses e.tx e'.tx) ∧
      ((∃ r ∈ e.rx.results, Broken r) →
        ∃ e', (Net.run acts)[i]? = some e' ∧ RecvHalf.Refuses e.rx e'.rx)) ∧
    (∀ (i : ℕ) (e : Endpoint W), (Net.run acts)[i]? = some e →
      e.tx.begun.map (·.counter) = List.range' 1 e.tx.begun.length ∧
      (∀ r ∈ e.tx.begun, r.counter < 2 ^ 64) ∧ e.tx.out <+: e.tx.stream e.agent) ∧
    (∀ (x : SendHalf) (localAgent : AgentKey W.toCrypto) (c : RecordIoContext)
      (live : Except TransportError Unit) (env : SignedEnvelope), 2 ^ 64 ≤ x.sendCounter + 1 →
      x.pending = none →
      ∃ (poisoned : Bool) (e : SessionError),
        x.step localAgent c (.send live env) =
          { x with poisoned := poisoned }.ended (some (.error e)) ∧
        (x.poisoned = false → live = .ok () → poisoned = false ∧ e = .counterExhausted)) ∧
    (∀ (x : RecvHalf) (peerKey : PubKey) (c : RecordIoContext) (inbound : Bytes),
      2 ^ 64 ≤ x.receiveCounter + 1 → x.pending = false →
      x.step W peerKey c inbound .recv =
        (x.ended (some (.error (if x.poisoned then .poisoned else .counterExhausted))),
          inbound)) ∧
    (∀ (key : PubKey) (t t' : BitVec 256) (d d' : RecordDirection) (n n' len : ℕ)
      (rest body rest' : Bytes) (env : SignedEnvelope), n' < 2 ^ 64 → len < 2 ^ 32 →
      readRecord W key t d n (recordHeader t' d' n' len ++ rest) = .record body env rest' →
      t' = t ∧ d' = d ∧ n' = n) := by
  have hsound := Net.run_sound acts
  refine ⟨?_, ?_, fun i e hi => (hsound i e hi).written, ?_, ?_, ?_⟩
  · intro i j e e' o hi hj ho hhonest hrole ht
    exact Net.accepted_begun hsound hW hU hnonces hhash hrecords hi hj ho hhonest hrole ht
  · rintro pre post i e rfl hi
    have he := Net.run_sound pre i e hi
    constructor
    · intro hbroken
      exact Net.run_later Endpoint.step_tx_refuses hi (he.tx_stuck hbroken) post
    · intro hbroken
      exact Net.run_later Endpoint.step_rx_refuses hi (he.rx_stuck hbroken) post
  · intro x localAgent c live env hcount hpending
    exact SendHalf.step_send_exhausted hcount hpending live env
  · intro x peerKey c inbound hcount hpending
    exact RecvHalf.step_recv_exhausted hcount hpending inbound
  · intro key t t' d d' n n' len rest body rest' env hn hlen h
    exact readRecord_recordHeader hn hlen h

namespace Small

open Flock

noncomputable def letterBytes : Bytes :=
  recordHeader transcript .initiatorToResponder 1 1 ++ [0] ++
    beBytes 64 (mark 2 letterRecord).toNat

/-- The spoke sends a letter; the carrier delivers it, and then once more. -/
noncomputable def replayed : List (Net.Act (wire made)) :=
  meeting ++
  [.on 0 (.send (.send (.ok ()) letter)), .on 0 (.send (.wrote 50)), .on 0 (.send (.wrote 60)),
    .on 0 (.send .flushed), .on 1 (.recv .recv), .on 1 (.deliver letterBytes),
    .on 1 (.recv (.poll (.ok ()))), .on 1 (.recv .recv), .on 1 (.deliver letterBytes),
    .on 1 (.recv (.poll (.ok ()))), .on 1 (.recv .recv)]

noncomputable def spoke : HandshakeOutcome :=
  ⟨.messages, ⟨⟨9⟩, ⟨2⟩⟩, cert 2, 2, transcript⟩

theorem length_record (W : CarrierWire) (t : BitVec 256) (d : RecordDirection) (n : ℕ)
    (body : Bytes) : (makeRecordMessage W t d n body).length = 110 := by
  simp only [makeRecordMessage, List.length_append, length_bytes32, length_beBytes,
    Framing.length_be32]
  rfl

theorem recordsHere {net : Net (wire made)}
    (h : ∀ p ∈ made, p.2.length = 110 → ∃ e ∈ net, e.agent.cert.agentPubkey = p.1 ∧
      ∃ r ∈ e.tx.begun, r.message (wire made) = p.2) :
    net.RecordsHere honest (Vouched (wire made).toCrypto) := by
  intro pk t d n body hpk hsigned
  exact h _ (made_of_vouched hpk hsigned) (length_record _ t d n body)

end Small

set_option maxRecDepth 100000 in
theorem records_in_order_replayed :
    let net := Net.run Small.replayed
    ∃ e e', net[1]? = some e ∧ net[0]? = some e' ∧
      e.rx.results = [some (.ok Small.letter), some (.error (.recordCounterMismatch 2 1)),
        some (.error .poisoned)] ∧
      e.rx.accepted <+: e'.tx.begun.map (·.env) := by
  intro net
  have hresults : net[1]?.map (fun e => (e.hs.phase, e.role, e.rx.results)) =
      some (.authenticated Small.spoke, .responder, [some (.ok Small.letter),
        some (.error (.recordCounterMismatch 2 1)), some (.error .poisoned)]) := by
    decide +kernel
  obtain ⟨e, he, hview⟩ := Option.map_eq_some_iff.mp hresults
  obtain ⟨ho, hview⟩ := Prod.mk.inj hview
  obtain ⟨hrole, hres⟩ := Prod.mk.inj hview
  have hspoke : net[0]?.map (fun e => (e.role, e.hs.transcript)) =
      some (.initiator, some Small.transcript) := by
    decide +kernel
  obtain ⟨e', he', hview'⟩ := Option.map_eq_some_iff.mp hspoke
  obtain ⟨hrole', ht'⟩ := Prod.mk.inj hview'
  have hnonces : (net.map (·.hs.nonce)).Nodup := by decide +kernel
  have hhash : ∀ x ∈ net.hashed, ∀ y ∈ net.hashed,
      (Small.wire Small.made).payloadHash x = (Small.wire Small.made).payloadHash y → x = y := by
    decide +kernel
  have hrecords : net.RecordsHere Small.honest _ := Small.recordsHere (by decide +kernel)
  have hopposite : e'.role = e.role.opposite := by
    rw [hrole, hrole']
    rfl
  have hall := records_in_order (Small.wire Small.made) (Small.tableWire_lawful _ _ _)
    Small.honest _
    (Flock.unforgeable_vouched _) Small.replayed hnonces hhash hrecords
  exact ⟨e, e', he, he', hres, hall.1 1 0 e e' _ he he' ho (.inr rfl) hopposite ht'⟩

end Ssh
