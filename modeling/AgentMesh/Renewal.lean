/-
Renewal never locks a session out.

A session that missed epoch bumps shows any certificate the log recorded for
it, proves its key, and gets a certificate for the current epoch.  Nothing
stands in the way of that as long as the session has not ended: the certificate
the server mints is one that replay accepts, and the `renewal` event passes the
server's own admission.  An active session of a roster member can then speak:
its signature resolves, and an event on its chain head is not refused for who
signed it or for where it chains to.

One refusal has two uses, though.  A nudge at somebody who is not on the roster
is refused as `unknownMember`, like an event of a session whose member is not.

* `admitEvent_refused` — what an event that passes the gate and the writer
  chain can still be refused for;
* `Replays.recorded`, `Replays.keyed` — what the table knows of a session and
  its certificates;
* `Server.certify_session` — the certificate the server mints;
* `State.renewal_vetted` — the renewal passes;
* `State.speaks` — what a renewed session can do;
* `renewal_reopens` — these together.
-/
import AgentMesh.Receipts
import AgentMesh.FirstLink
import AgentMesh.Attenuation

open Std Mesh Framing

namespace Flock

variable {P : Primitives} {g : MerkleNode Genesis}

/-! ### What an event can be refused for -/

/-- The refusals that say a session cannot speak, or not from there. -/
def Refusal.silences : Refusal → Bool
  | .pendingSession | .unknownMember | .badPrev | .writerFork => true
  | _ => false

/-- Who a nudge is aimed at. -/
def Body.nudges : Body → Option String
  | .nudged target | .nudgeMisfire target .. => some target
  | _ => none

section Refusals

variable {b : Board} {ev : Event} {signer : Signer}

theorem checkRoster_fails (body : Body) :
    Fails (fun r => r.silences = false) (checkRoster b body signer) := by
  unfold checkRoster
  split
  · refine .bind ?_ fun _ _ => ?_
    · exact .bind (.of_ensure fun _ => rfl) fun _ _ => .bind (.of_ensure fun _ => rfl) fun _ _ =>
        .bind (.of_ensure fun _ => rfl) fun _ _ => .bind (.of_ensure fun _ => rfl) fun _ _ =>
        .of_ensure fun _ => rfl
    · exact .bind (.of_ensure fun _ => rfl) fun _ _ => .of_ensure fun _ => rfl
  · exact .ok ()

theorem checkRef_fails (actsOn : Option ContentId) (spec : String × List Kind × Bool) :
    Fails (fun r => r.silences = false) (checkRef b ev actsOn spec) := by
  rw [checkRef]
  split
  · split
    · exact .error rfl
    · exact .ok _
  · split
    · exact .bind (.of_ensure fun _ => rfl) fun _ _ => .ok _
    · refine .bind (.of_okOr rfl) fun _ _ => .bind (.of_ensure fun _ => rfl) fun _ _ =>
        .bind ?_ fun _ _ => .ok _
      unfold checkLane
      split
      · exact .of_ensure fun _ => rfl
      · exact .ok ()

theorem checkRefs_fails : Fails (fun r => r.silences = false) (checkRefs b ev) := by
  rw [checkRefs]
  split
  · exact .bind (.of_ensure fun _ => rfl) fun _ _ => .ok _
  · split
    · exact .error rfl
    · exact .foldlM checkRef_fails _ _

theorem addressed_fails (member : Option (String × Role)) (target : Option ContentId)
    (role : String) : Fails (fun r => r.silences = false) (addressed b member target role) :=
  .bind (.of_okOr rfl) fun _ _ => .bind (.of_okOr rfl) fun _ _ =>
    .bind (.of_ensure fun _ => rfl) fun _ _ => .ok _

/-- `r` is not about the session, or says that a nudge is at nobody known. -/
def Refusal.Aside (b : Board) (body : Body) (r : Refusal) : Prop :=
  r.silences = false ∨ r = .unknownMember ∧
    ∃ target, body.nudges = some target ∧ ∀ m ∈ b.members, m.name ≠ target

theorem nudgeOk_fails {target : String} (about : Option Entry) (texts : List String)
    {body : Body} (hbody : body.nudges = some target) :
    Fails (Refusal.Aside b body) (nudgeOk b target about texts) := by
  refine .bind (.of_ensure fun hnone => .inr ⟨rfl, target, hbody, ?_⟩) fun _ _ =>
    .bind ?_ fun _ _ => .bind (.of_ensure fun _ => .inl rfl) fun _ _ => .ok _
  · intro m hm hname
    exact hnone (List.any_eq_true.mpr ⟨m, hm, decide_eq_true hname⟩)
  · unfold checkNudged
    split
    · exact .ok ()
    · exact .bind (.of_okOr (.inl rfl)) fun _ _ => .of_ensure fun _ => .inl rfl

theorem applyTable_fails (member : Option (String × Role)) (target : Option ContentId) :
    Fails (Refusal.Aside b ev.body) (applyTable b ev member target) := by
  have haddressed : ∀ role, Fails (Refusal.Aside b ev.body) (addressed b member target role) :=
    fun role r hr => .inl (addressed_fails member target role r hr)
  rw [applyTable]
  split
  · exact .bind (haddressed _) fun _ _ => .ok _
  · exact .bind (haddressed _) fun _ _ => .ok _
  · refine .bind (haddressed _) fun entry _ => .bind ?_ fun _ _ => .ok _
    unfold checkHead
    split
    · exact .of_ensure fun _ => .inl rfl
    · exact .error (.inl rfl)
  · refine .bind ?_ fun _ _ => .bind (.of_okOr (.inl rfl)) fun _ _ =>
      .bind (.of_okOr (.inl rfl)) fun _ _ => .bind (.of_ensure fun _ => .inl rfl) fun _ _ => .ok _
    unfold checkExit
    split
    · exact .of_ensure fun _ => .inl rfl
    · exact .error (.inl rfl)
  · exact .bind (.of_ensure fun _ => .inl rfl) fun _ _ => .ok _
  · exact .ok _
  · rename_i hbody
    exact nudgeOk_fails _ _ (by rw [hbody]; rfl)
  · rename_i hbody
    exact nudgeOk_fails _ _ (by rw [hbody]; rfl)
  · exact .ok _

/-- **What an event that passes the signer gate and the writer chain can still
be refused for.** -/
theorem admitEvent_refused {node : MerkleNode Event}
    (hgate : Fails (fun r => r.silences = false) (signerMember b node.payload.kind signer))
    (hwriter : writerChain b node.payload signer = .ok ()) {r : Refusal}
    (h : admitEvent P b node signer = .refuse r) : r.Aside b node.payload.body := by
  have haside : ∀ {α : Type} {x : Except Refusal α}, Fails (fun r => r.silences = false) x →
      Fails (Refusal.Aside b node.payload.body) x := fun hx r hr => .inl (hx r hr)
  have hfails : Fails (Refusal.Aside b node.payload.body) (decideNode P b node signer) := by
    rw [decideNode]
    split
    · exact .ok _
    · refine .bind (.of_ensure fun _ => .inl rfl) fun _ _ =>
        .bind (.of_ensure fun _ => .inl rfl) fun _ _ =>
        .bind (.of_ensure fun _ => .inl rfl) fun _ _ =>
        .bind (.of_ensure fun _ => .inl rfl) fun _ _ =>
        .bind (haside hgate) fun member _ => .bind (haside (checkRoster_fails _)) fun _ _ =>
        .bind (.of_ensure fun _ => .inl rfl) fun _ _ => .bind ?_ fun _ _ =>
        .bind (haside checkRefs_fails) fun target _ =>
        .bind (applyTable_fails member target) fun closes _ => .ok _
      rw [hwriter]
      exact .ok ()
  rw [admitEvent] at h
  cases hd : decideNode P b node signer with
  | error why =>
    rw [hd] at h
    cases h
    exact hfails r hd
  | ok v =>
    -- the table never decides to refuse other than by failing
    rw [hd] at h
    have hv : v = .refuse r := h
    rw [hv, decideNode] at hd
    split at hd
    · cases hd
    · simp only [bind_ok, pure, Except.pure, Except.ok.injEq] at hd
      obtain ⟨_, -, _, -, _, -, _, -, _, -, _, -, _, -, _, -, _, -, _, -, hd⟩ := hd
      split at hd <;> cases hd

end Refusals

/-! ### What the table knows of a session -/

theorem TableStep.grown {st : State} {id : ContentId} {ev : Event} {epoch : ℕ} {s' : Sessions}
    (h : TableStep P st id ev epoch s') {a : String} {y : Session}
    (hy : st.sessions.sessions[a]? = some y) :
    ∃ y', s'.sessions[a]? = some y' ∧ y.certs ⊆ y'.certs ∧ y.epoch ≤ y'.epoch := by
  have hsession := h.session a
  rw [hy] at hsession
  generalize s'.sessions[a]? = after at hsession
  cases hsession with
  | same | ended | handedOff | activated => exact ⟨_, rfl, subset_rfl, Nat.le_refl _⟩
  | renewed _ cert body behind => exact ⟨_, rfl, Finset.subset_insert _ _, behind.le⟩

theorem State.Later.grown {st st' : State} (h : State.Later P st st') {a : String} {y : Session}
    (hy : st.sessions.sessions[a]? = some y) :
    ∃ y', st'.sessions.sessions[a]? = some y' ∧ y.certs ⊆ y'.certs ∧ y.epoch ≤ y'.epoch := by
  have hrel := h.rel (R := fun s t => ∀ (a : String) (y : Session),
      s.sessions.sessions[a]? = some y →
        ∃ y', t.sessions.sessions[a]? = some y' ∧ y.certs ⊆ y'.certs ∧ y.epoch ≤ y'.epoch)
    (fun s a y hy => ⟨y, hy, subset_rfl, Nat.le_refl _⟩)
    (fun hab hbc a y hy => by
      obtain ⟨z, hz, hcerts, hepoch⟩ := hab a y hy
      obtain ⟨z', hz', hcerts', hepoch'⟩ := hbc a z hz
      exact ⟨z', hz', hcerts.trans hcerts', hepoch.trans hepoch'⟩)
    (fun hx a y hy => by
      obtain ⟨epoch, hstep⟩ := hx.tableStep
      exact hstep.grown hy)
  exact hrel a y hy

/-- **A certificate the log recorded for a session is among the session's**, and
after a renewal the session is certified at least for its epoch. -/
theorem Replays.recorded {log : List Sealed} {st : State} (h : Replays P g log st) {y : Sealed}
    (hy : y ∈ log) {a : String} {c : CertChain} (hc : y.event.payload.body.Certifies a c) :
    (c.agentFingerprint P.toCrypto).hex P.toCrypto = a ∧
      ∃ x, st.sessions.sessions[a]? = some x ∧ P.certCid c ∈ x.certs ∧
        ∀ e, y.event.payload.body = .renewal a e c → e ≤ x.epoch := by
  obtain ⟨pre, post, rfl⟩ := List.append_of_mem hy
  obtain ⟨u, cert, signer, conflict, -, hacc, hpost⟩ := h.split
  have hstep := hacc.tableStep
  -- the entry itself put the certificate there
  have hnow : (c.agentFingerprint P.toCrypto).hex P.toCrypto = a ∧
      ∃ x, (u.after P y signer conflict).sessions.sessions[a]? = some x ∧ P.certCid c ∈ x.certs ∧
        ∀ e, y.event.payload.body = .renewal a e c → e ≤ x.epoch := by
    obtain ⟨member, hb⟩ | ⟨e, hb⟩ := hc
    · obtain ⟨inv, -, -, -, hcert, hs'⟩ := hstep.of_start hb
      have hget : (u.after P y signer conflict).sessions.sessions[a]? =
          some (u.sessions.enrolled P (P.eventId y.event) member c y.record.payload.epoch) := by
        rw [hs', Sessions.withStart, BTreeMap.get_insert, if_pos rfl]
      refine ⟨hcert.subject, _, hget, Finset.mem_singleton_self _, fun e hrenewal => ?_⟩
      rw [hb] at hrenewal
      cases hrenewal
    · obtain ⟨hepoch, z, -, -, -, hcert, hs'⟩ := hstep.of_renewal hb
      have hget : (u.after P y signer conflict).sessions.sessions[a]? =
          some { z with
            certs := insert (P.certCid c) z.certs
            epoch := y.record.payload.epoch } := by
        rw [hs', Sessions.withRenewal, BTreeMap.get_insert, if_pos rfl]
      refine ⟨hcert.subject, _, hget, Finset.mem_insert_self _ _, fun e' hrenewal => ?_⟩
      rw [hb] at hrenewal
      cases hrenewal
      exact hepoch.le
  obtain ⟨hsubject, x, hx, hmem, hepoch⟩ := hnow
  obtain ⟨x', hx', hcerts, hle⟩ := (State.later_of_run hpost).grown hx
  exact ⟨hsubject, x', hx', hcerts hmem, fun e he => (hepoch e he).trans hle⟩

theorem Replays.keyed {log : List Sealed} {st : State} (h : Replays P g log st) {a : String}
    {x : Session} (hx : st.sessions.sessions[a]? = some x) :
    (Fingerprint.ofBytes P.toCrypto x.pubkey).hex P.toCrypto = a := by
  refine replays_invariant (fun _ st => ∀ (a : String) (x : Session),
    st.sessions.sessions[a]? = some x →
      (Fingerprint.ofBytes P.toCrypto x.pubkey).hex P.toCrypto = a) ?_ ?_ h a x hx
  · intro user _ a x hx
    simp [State.genesis, Sessions.empty] at hx
  · intro log st y cert signer conflict _ hinv hacc a x hx
    have hsession := hacc.tableStep.session a
    rw [hx] at hsession
    generalize hold : st.sessions.sessions[a]? = before at hsession
    cases hsession with
    | same => exact hinv a x hold
    | started member cert body certified => exact certified.subject
    | ended z | renewed z | handedOff z | activated z => exact hinv a z hold

/-- The author of the server's events. -/
def State.serverAuthor (P : Primitives) (st : State) : String :=
  (Fingerprint.ofBytes P.toCrypto st.chain.serverPub).hex P.toCrypto

theorem lastBy_isSome {log : List Sealed} {x : Sealed} (hx : x ∈ log) {author : String}
    (ha : x.event.payload.author = author) : (lastBy P author log).isSome := by
  rw [lastBy, lastEvent, Option.isSome_map, List.getLast?_isSome]
  have hmem : x ∈ log.filter fun x => decide (x.event.payload.author = author) :=
    List.mem_filter.mpr ⟨hx, decide_eq_true ha⟩
  exact List.ne_nil_of_mem hmem

/-- A flock with a session has heard the server. -/
theorem Replays.server_head {log : List Sealed} {st : State} (h : Replays P g log st) {a : String}
    {x : Session} (hx : st.sessions.sessions[a]? = some x) :
    (st.board.headOf (st.serverAuthor P)).isSome := by
  obtain ⟨y, hy, -, c, hb⟩ := (h.backed hx).started
  rw [h.headOf]
  refine lastBy_isSome hy ?_
  obtain ⟨pre, post, hsplit⟩ := List.append_of_mem hy
  rw [hsplit] at h
  obtain ⟨u, cert, signer, conflict, hu, hacc, -⟩ := h.split
  have hadm := hacc.vetted.admissible
  -- only the server starts a session
  have hkind : y.event.payload.kind = .sessionStart := by
    rw [← hadm.fits, hb]
    rfl
  obtain ⟨member, target, closes, hgate, -⟩ := hadm.table
  have hclass := signerMember_serverKind (by rw [hkind]; rfl) hgate
  have hpub : u.chain.serverPub = st.chain.serverPub :=
    hu.chain_fixed.2.1.trans h.chain_fixed.2.1.symm
  rw [hadm.author, State.serverAuthor, ← hpub]
  cases resolve_ok hacc.vetted.resolved with
  | server key signed =>
    rw [← key]
    rfl
  | device => cases hclass
  | session => cases hclass

theorem Replays.activated {log : List Sealed} {st : State} (h : Replays P g log st) {a : String}
    {x : Session} (hx : st.sessions.sessions[a]? = some x) {id : ContentId}
    (hid : x.activatedBy = some id) :
    ∃ e, st.board.get id = some e ∧ e.event.kind = .handoff := by
  have hact := h.activation a
  rw [hx, Option.bind_some, hid, Flock.activation, lastEvent] at hact
  obtain ⟨y, hy, rfl⟩ := Option.map_eq_some_iff.mp hact.symm
  obtain ⟨hmem, hbody⟩ := List.mem_filter.mp (List.mem_of_getLast? hy)
  obtain ⟨e, he, -, hevent⟩ := h.entry hmem
  refine ⟨e, he, ?_⟩
  rw [hevent]
  obtain ⟨pre, post, rfl⟩ := List.append_of_mem hmem
  obtain ⟨u, cert, signer, conflict, -, hacc, -⟩ := h.split
  rw [← hacc.vetted.admissible.fits]
  rw [Sealed.activates] at hbody
  split at hbody
  · rename_i hb
    rw [hb]
    rfl
  · cases hbody

/-! ### The certificate and its renewal event -/

/-- **The server mints what replay accepts**, for whoever proves its key. -/
theorem Server.certify_session {s : Server P} (hC : P.toCrypto.HonestVerifies)
    (ht : Trusted s.key g) (htop : g.payload.serverCert.metadata.caveats = Caveats.top)
    {challenge : PossessionChallenge} {proof : Signature} (member : String)
    (hissuer : challenge.issuerPubkey = s.key.cert.agentPubkey)
    (hproof : P.toCrypto.verifyStrict challenge.subjectPubkey challenge.signingBytes proof = true) :
    ∃ cert, s.certify challenge proof member = .ok cert ∧
      cert.agentPubkey = challenge.subjectPubkey ∧ cert.rootAgent = s.key.cert.agentPubkey ∧
      SessionCert P cert ((Fingerprint.ofBytes P.toCrypto challenge.subjectPubkey).hex P.toCrypto)
        s.st.chain.epoch s.key.cert.agentPubkey := by
  have hleq : ∀ c : Caveats, c.leq s.key.cert.metadata.caveats = true := by
    intro c
    rw [ht.cert, htop]
    exact Caveats.leq_top c
  simp only [certify, mapError_ok, AgentKey.delegateExternal_ok, AgentKey.certifyPubkey_ok]
  refine ⟨_, ⟨hissuer, hproof, hleq _, rfl⟩, rfl, ht.root, rfl, ?_, ⟨_, rfl⟩, rfl⟩
  refine CertChain.verifyAt_delegated.mpr ⟨?_, rfl, ht.verifies _, ?_, hleq _⟩
  · exact Finset.mem_coe.mpr (Finset.mem_singleton_self _)
  · rw [← s.key.seed_matches]
    exact hC _ _

theorem Resolved.resolve {s : Sessions} {sig : Assertion} {event : ContentId} {server : PubKey}
    {user : UserPublic} {epoch : ℕ} {signer : Signer}
    (h : Resolved P s sig event server user epoch signer) :
    s.resolve P sig event server user epoch = .ok signer := by
  rw [Sessions.resolve]
  cases h with
  | server key signed =>
    rw [if_pos key, signed]
    rfl
  | device key issued registered signed =>
    rw [if_neg key, if_pos issued, ensure_of registered, signed]
    rfl
  | session x key issued known live recorded signed =>
    have hissued : ¬ sig.author.issuedByUser = true := by
      rw [issued]
      exact Bool.false_ne_true
    rw [if_neg key, if_neg hissued, known, signed]
    simp only [okOr, bind, Except.bind, ensure_of live, ensure_of recorded]
    rfl

def renewalSpec (session : String) (x : Session) (epoch : ℕ) (cert : CertChain) : Spec :=
  ⟨.renewal, [("session", x.start)], .renewal session epoch cert⟩

section Renewing

variable {key : AgentKey P.toCrypto} {log : List Sealed} {st : State} {session : String}
  {x : Session} {cert : CertChain}

theorem Replays.renewal_fresh (hinj : P.IdsInjective) (h : Replays P g log st)
    (hx : st.sessions.sessions[session]? = some x) {epoch : ℕ} (hbehind : x.epoch < epoch)
    {node : MerkleNode Event} (hbody : node.payload.body = .renewal session epoch cert) :
    st.board.get (P.eventId node) = none := by
  by_contra hget
  obtain ⟨y, hy, hid⟩ := (h.taken.get_mem _).mp hget
  obtain rfl : y.event = node := hinj.event hid
  obtain ⟨-, x', hx', -, hepoch⟩ := h.recorded hy (.inr ⟨epoch, hbody⟩)
  rw [hx] at hx'
  cases hx'
  exact absurd (hepoch epoch hbody) (Nat.not_le.mpr hbehind)

/-- **The renewal of a live session that is behind passes every check.** -/
theorem State.renewal_vetted (hinj : P.IdsInjective) (hC : P.toCrypto.HonestVerifies)
    (ht : Trusted key g) (hlog : Replays P g log st)
    (hx : st.sessions.sessions[session]? = some x) (hlive : x.status ≠ .ended)
    (hbehind : x.epoch < st.chain.epoch)
    (hcert : SessionCert P cert session st.chain.epoch st.chain.serverPub) :
    let e := st.serverEvent key (renewalSpec session x st.chain.epoch cert)
    st.Vetted P e.1 e.2 st.chain.epoch ⟨key.fingerprint, .server⟩ none ∧
      ∃ c, st.citedCert P (P.certCid e.2.author) = .ok c := by
  obtain ⟨hservercert, hpub, -, -⟩ := hlog.chain_fixed
  rw [← ht.cert] at hservercert hpub
  obtain ⟨y, hy, hstart, -⟩ := (hlog.backed hx).started
  obtain ⟨e, he, -, -⟩ := hlog.entry hy
  rw [hstart] at he
  have hauthor : key.fingerprint.hex P.toCrypto = st.serverAuthor P := by
    rw [State.serverAuthor, hpub]
    rfl
  refine ⟨⟨?_, ⟨hlog.renewal_fresh hinj hx hbehind rfl, rfl, rfl, rfl, rfl, ?_, ?_, rfl, ?_⟩,
    ?_, ?_⟩,
    ?_⟩
  · -- the server signs for itself
    refine Resolved.resolve (.server hpub.symm ?_)
    rw [hpub]
    exact Assertion.verify_sign hC (ht.verifies st.chain.epoch) ht.root
  · intro members roots hb
    cases hb
  · intro f hf
    cases hf
  · refine ⟨none, none, none, rfl, ?_, rfl, rfl⟩
    have hrefs : ∀ cid ∈ [x.start], (st.board.get cid).isSome := by
      intro cid hcid
      rw [List.mem_singleton.mp hcid, he]
      rfl
    exact bind_ok.mpr ⟨(), ensure_of hrefs, rfl⟩
  · show st.sessions.check P st.board _ _ st.chain = .ok ()
    simp only [Sessions.check, State.serverEvent, Event.node, renewalSpec, bind_ok, ensure_ok,
      liveSession_ok, certOk_ok, refsAre]
    exact ⟨x, ⟨hx, hlive⟩, (), ensure_of rfl, (), trivial, (), hbehind, hcert⟩
  · show st.sessions.firstLink st.board _ = .ok ()
    rw [Sessions.firstLink]
    have hhead := hlog.server_head hx
    rw [← hauthor] at hhead
    split
    · rfl
    · exact if_pos hhead
  · refine ⟨st.chain.serverCert, ?_⟩
    rw [State.citedCert, hservercert]
    exact if_pos rfl

/-- The state after the renewal: the session has the certificate, and the epoch
is as it was. -/
theorem State.renewal_sealed (hinj : P.IdsInjective) (hC : P.toCrypto.HonestVerifies)
    (ht : Trusted key g) (hlog : Replays P g log st)
    (hx : st.sessions.sessions[session]? = some x) (hlive : x.status ≠ .ended)
    (hbehind : x.epoch < st.chain.epoch)
    (hcert : SessionCert P cert session st.chain.epoch st.chain.serverPub) :
    ∃ next sealed ids,
      st.sealAll key [renewalSpec session x st.chain.epoch cert] = .ok (next, sealed, ids) ∧
      next.chain.epoch = st.chain.epoch ∧ next.chain.serverPub = st.chain.serverPub ∧
      next.sessions.sessions[session]? =
        some { x with certs := insert (P.certCid cert) x.certs, epoch := st.chain.epoch } := by
  obtain ⟨hvetted, hcited⟩ := State.renewal_vetted hinj hC ht hlog hx hlive hbehind hcert
  let e := st.serverEvent key (renewalSpec session x st.chain.epoch cert)
  let p : Prepared := .of key st e.1 e.2 ⟨key.fingerprint, .server⟩ none
  have hprepare : st.prepare key e.1 e.2 = .ok p :=
    State.prepare_ok.mpr ⟨_, _, hvetted, hcited, rfl⟩
  have hstep : TableStep P st (P.eventId e.1) e.1.payload st.chain.epoch (st.commit P p).sessions :=
    tableStep_of_checked hvetted.checked
  obtain ⟨-, x', hx', -, -, -, hs'⟩ := hstep.of_renewal rfl
  rw [hx] at hx'
  cases hx'
  refine ⟨st.commit P p, [p.sealed], [p.id], ?_, rfl, rfl, ?_⟩
  · simp only [State.sealAll, bind_ok, pure, Except.pure, Except.ok.injEq]
    exact ⟨p, hprepare, _, rfl, rfl⟩
  · rw [hs', Sessions.withRenewal, BTreeMap.get_insert, if_pos rfl]

end Renewing

/-! ### Speaking -/

/-- Under `cert`, session `a` of `member` can speak: an event of any kind that
the member's role may sign, with the session's chain head as `prev`, resolves,
and neither the table nor the first link refuses it for the session. -/
def State.Speaks (P : Primitives) (st : State) (a member : String) (cert : CertChain) : Prop :=
  ∀ (m : Member) (node : MerkleNode Event) (sig : Assertion),
    (st.board.members.find? fun m => decide (m.name = member)) = some m →
    sessionSigns m.role node.payload.kind = true → node.payload.author = a →
    node.payload.prev = st.sessions.chainHead st.board a → sig.author = cert →
    P.toCrypto.verifyStrict cert.agentPubkey (message (P.eventId node)) sig.sig = true →
    ∃ signer, st.sessions.resolve P sig (P.eventId node) st.chain.serverPub st.chain.user
        (st.chain.epochFor node.payload.kind) = .ok signer ∧
      st.sessions.firstLink st.board node.payload = .ok () ∧
      ∀ r, admitEvent P st.board node signer = .refuse r → r.Aside st.board node.payload.body

section Speaking

variable {log : List Sealed} {st : State} {a : String} {x : Session} {ev : Event}

theorem firstLink_of {s : Sessions} {b : Board} (hx : s.sessions[ev.author]? = some x)
    (hprev : b.headOf ev.author = none → ev.prev = x.activatedBy) :
    s.firstLink b ev = .ok () := by
  rw [Sessions.firstLink, hx]
  cases hhead : b.headOf ev.author with
  | some head => rfl
  | none =>
    simp only [hprev hhead, Option.isSome_none, Bool.false_eq_true, if_false]
    cases x.activatedBy with
    | none => rfl
    | some id => exact ensure_of rfl

/-- An event that chains to its author's head or, while there is none, to the
hand-off that activated the session is on its writer's chain. -/
theorem writerChain_of {b : Board} {activatedBy : Option ContentId}
    (hact : ∀ id, activatedBy = some id → ∃ e, b.get id = some e ∧ e.event.kind = .handoff)
    (hprev : ev.prev = (b.headOf ev.author).or activatedBy) {signer : Signer} {member : String}
    {pending : Bool} (hclass : signer.class_ = .session member pending) :
    writerChain b ev signer = .ok () := by
  rw [writerChain, hclass]
  cases hhead : b.headOf ev.author with
  | some head =>
    rw [hhead, Option.some_or] at hprev
    exact if_pos hprev
  | none =>
    rw [hhead, Option.none_or] at hprev
    rw [hprev]
    cases activatedBy with
    | none => exact if_pos rfl
    | some id =>
      obtain ⟨e, he, hkind⟩ := hact id rfl
      simp only [reduceCtorEq, if_false, he]
      exact ensure_of hkind

/-- **A session with a certificate for the current epoch can speak**, if it is
active.  A session whose key is the server's own speaks as the server. -/
theorem State.speaks (h : Replays P g log st) (hx : st.sessions.sessions[a]? = some x)
    (hactive : x.status = .active) {cert : CertChain}
    (hcert : SessionCert P cert a st.chain.epoch st.chain.serverPub)
    (hroot : cert.rootAgent = st.chain.serverPub) (hrec : P.certCid cert ∈ x.certs) :
    st.Speaks P a x.member cert := by
  rintro m node sig hm hrole hauthor hprev rfl hsig
  have hepoch : st.chain.epochFor node.payload.kind = st.chain.epoch := by
    rw [Chain.epochFor, if_neg]
    · rfl
    · intro hkind
      rw [hkind] at hrole
      cases hrole
  have hverify : sig.verify P.toCrypto (P.eventId node) st.chain.serverPub st.chain.epoch =
      .ok () := Assertion.verify_ok.mpr ⟨hcert.verifies, hroot, hsig⟩
  rw [Sessions.chainHead, hx, Option.bind_some, ← hauthor] at hprev
  rw [← hauthor] at hx
  have hlink : st.sessions.firstLink st.board node.payload = .ok () := by
    refine firstLink_of hx fun hhead => ?_
    rw [hprev, hhead, Option.none_or]
  rw [hepoch]
  by_cases hkey : sig.author.agentPubkey = st.chain.serverPub
  · refine ⟨_, Resolved.resolve (.server hkey hverify), hlink, fun r => admitEvent_refused ?_ rfl⟩
    exact .bind (.of_ensure fun _ => rfl) fun _ _ => .ok _
  · have hissued : sig.author.issuedByUser = false := by
      obtain ⟨parent, hissuer⟩ := hcert.issuer
      cases hchain : sig.author with
      | root pk m user s =>
        rw [hchain] at hissuer
        cases hissuer
      | delegated => rfl
    have hknown : st.sessions.sessions[(sig.author.agentFingerprint P.toCrypto).hex P.toCrypto]? =
        some x := by
      rw [hcert.subject, ← hauthor, hx]
    have hlive : x.status ≠ .ended := by
      rw [hactive]
      intro hended
      cases hended
    refine ⟨_, Resolved.resolve (.session x hkey hissued hknown hlive hrec hverify), hlink,
      fun r => admitEvent_refused ?_ (writerChain_of (fun _ => h.activated hx) hprev rfl)⟩
    -- the gate: the session is not pending and its member is on the roster
    have hpending : decide (x.status = .pending) = false := by
      rw [hactive]
      rfl
    rw [signerMember]
    simp only [hm, hpending]
    exact .bind (.of_ensure fun hne => absurd trivial hne) fun _ _ => .bind (.ok m) fun _ _ =>
      .bind (.of_ensure fun _ => rfl) fun _ _ => .bind (.of_ensure fun _ => rfl) fun _ _ => .ok _

end Speaking

/-! ### The two calls -/

namespace Server

variable {s : Server P} {session : String} {x : Session}

theorem live_of (hx : s.st.sessions.sessions[session]? = some x) (hlive : x.status ≠ .ended) :
    s.live session = some ⟨x.member, x.pubkey, x.start, x.status, x.epoch⟩ := by
  rw [live, Sessions.get, hx, Option.map_some]
  exact if_pos (decide_eq_true hlive)

/-- The server with a renewal challenge for session `x` held. -/
def challenging (s : Server P) (session : String) (x : Session) (nonce : BitVec 256) : Server P :=
  (s.issue x.pubkey (.renew session s.st.chain.epoch) nonce).1

/-- **Any recorded certificate of a live session that is behind gets a
challenge.** -/
theorem renewBegin_challenges (hx : s.st.sessions.sessions[session]? = some x)
    (hlive : x.status ≠ .ended) (hbehind : x.epoch < s.st.chain.epoch) {last : CertChain}
    (hsubject : (last.agentFingerprint P.toCrypto).hex P.toCrypto = session)
    (hrec : P.certCid last ∈ x.certs) (io : Io) :
    s.renewBegin last io = (s.challenging session x (io.rand 0),
      .ok (s.key.possessionChallenge x.pubkey (io.rand 0))) := by
  have hissued : s.st.sessions.issued session (P.certCid last) = true := by
    rw [Sessions.issued, hx]
    exact decide_eq_true hrec
  have hrenewable : s.renewable last = .ok ⟨x.member, x.pubkey, x.start, x.status, x.epoch⟩ := by
    simp only [renewable, bind_ok, okOr_ok, ensure_ok, pure, Except.pure, Except.ok.injEq, hsubject]
    exact ⟨_, live_of hx hlive, (), hissued, (), hbehind, rfl⟩
  rw [renewBegin, hrenewable, hsubject]
  rfl

/-- Answered at once, the challenge is consumed and the session renewed. -/
theorem renewFinish_challenged (hx : s.st.sessions.sessions[session]? = some x)
    (hlive : x.status ≠ .ended) (nonce : BitVec 256) (proof : Signature) (io : Io) :
    ∃ challenges, (s.challenging session x nonce).renewFinish
        (s.key.possessionChallenge x.pubkey nonce) proof io =
      ({ s with challenges := challenges } : Server P).renewSession
        (s.key.possessionChallenge x.pubkey nonce) proof session s.st.chain.epoch
        ⟨x.member, x.pubkey, x.start, x.status, x.epoch⟩ io := by
  let c := s.key.possessionChallenge x.pubkey nonce
  let challenges := (s.challenging session x nonce).challenges.erase nonce
  have hheld : (s.challenging session x nonce).challenges[nonce]? =
      some ⟨c, .renew session s.st.chain.epoch⟩ := by
    show (s.challenges.insert nonce _)[nonce]? = _
    rw [BTreeMap.get_insert, if_pos rfl]
  have htake : (s.challenging session x nonce).take c =
      ({ s with challenges := challenges }, .ok (.renew session s.st.chain.epoch)) := by
    have hnonce : c.nonce = nonce := rfl
    rw [take, hnonce, hheld]
    simp only [if_true]
    rfl
  refine ⟨challenges, ?_⟩
  have hlive' : ({ s with challenges := challenges } : Server P).live session =
      some ⟨x.member, x.pubkey, x.start, x.status, x.epoch⟩ := live_of hx hlive
  rw [renewFinish, htake]
  simp only [ne_eq, not_true_eq_false, if_false, hlive']

theorem transact_commits {specs : List Spec} {fault : Option Fault} {next : State}
    {sealed : List Sealed} {ids : List ContentId} (hup : s.poisoned = false)
    (hseal : s.st.sealAll s.key specs = .ok (next, sealed, ids)) (hfits : frameFits P sealed = true)
    (happend : (s.log.append P.frameCodec ⟨sealed⟩ fault).2 = .ok ()) :
    (s.transact specs fault).2 = .ok ids ∧ (s.transact specs fault).1.st = next := by
  have hup' : ¬ s.poisoned = true := by
    rw [hup]
    nofun
  simp only [transact, if_neg hup', hseal, if_pos hfits]
  have hcommit : (s.commitFrame sealed next fault).2 = .ok () := by
    rw [commitFrame, append]
    cases ha : s.log.append P.frameCodec ⟨sealed⟩ fault with
    | mk log r =>
      rw [ha] at happend
      cases happend
      rfl
  exact ⟨returning_ok.mpr ⟨(), hcommit, rfl⟩, commitFrame_st hcommit⟩

theorem renewSession_commits {challenge : PossessionChallenge} {proof : Signature} {io : Io}
    {cert : CertChain} {next : State} {sealed : List Sealed} {ids : List ContentId}
    (hup : s.poisoned = false) (hcert : s.certify challenge proof x.member = .ok cert)
    (hseal : s.st.sealAll s.key [renewalSpec session x s.st.chain.epoch cert] =
      .ok (next, sealed, ids))
    (hfits : frameFits P sealed = true)
    (happend : (s.log.append P.frameCodec ⟨sealed⟩ io.logFault).2 = .ok ()) :
    let r := s.renewSession challenge proof session s.st.chain.epoch
      ⟨x.member, x.pubkey, x.start, x.status, x.epoch⟩ io
    r.2 = .ok cert ∧ r.1.st = next := by
  obtain ⟨hok, hst⟩ := transact_commits hup hseal hfits happend
  simp only [renewSession, hcert]
  exact ⟨returning_ok.mpr ⟨ids, hok, rfl⟩, hst⟩

end Server

/-- **Renewal never locks a session out.**  Over every run from an empty log,
with any calls, crashes and openings: a session that has not ended and is
behind the epoch gets a challenge for any certificate the log recorded for it.
If its key answers at once, the renewal is admitted as soon as its frame fits
and is written; the certificate is recorded, and an active session of a roster
member speaks under it, but for a nudge at a name the roster does not have. -/
theorem renewal_reopens (hinj : P.IdsInjective) (hC : P.toCrypto.HonestVerifies)
    (hframe : P.frameCodec.Lawful) (hrefusal : P.refusalCodec.Lawful)
    {key : AgentKey P.toCrypto} {genesis : SignedGenesis} {s₀ : Server P}
    (htop : genesis.node.payload.serverCert.metadata.caveats = Caveats.top)
    (hopen : Server.open_ key genesis ⟨[], []⟩ ⟨[], []⟩ = .ok s₀) {s : Server P}
    (hrun : World.Run key genesis (.up s₀) (.up s)) (hup : s.poisoned = false)
    {session : String} {x : Session} (hx : s.st.sessions.sessions[session]? = some x)
    (hlive : x.status ≠ .ended) (hbehind : x.epoch < s.st.chain.epoch) {last : CertChain}
    (hlast : ∃ y ∈ s.frames.flatten, y.event.payload.body.Certifies session last) (io : Io) :
    ∃ challenge, (s.renewBegin last io).2 = .ok challenge ∧
      ∀ (proof : Signature) (io' : Io),
        P.toCrypto.verifyStrict x.pubkey challenge.signingBytes proof = true →
        ∃ cert next sealed ids, s.certify challenge proof x.member = .ok cert ∧
          s.st.sealAll s.key [renewalSpec session x s.st.chain.epoch cert] =
            .ok (next, sealed, ids) ∧
          (frameFits P sealed = true →
            (s.log.append P.frameCodec ⟨sealed⟩ io'.logFault).2 = .ok () →
            let r := (s.renewBegin last io).1.renewFinish challenge proof io'
            r.2 = .ok cert ∧ r.1.st = next ∧
              next.sessions.issued session (P.certCid cert) = true ∧
              (x.status = .active → next.Speaks P session x.member cert)) := by
  have hs : World.Keeper key genesis [] s := hrun.keeper hinj hC hframe hrefusal htop hopen
  have hreplays := hs.sound.mirrored.replays
  have ht := hs.sound.mirrored.trusted
  obtain ⟨y, hy, hcertifies⟩ := hlast
  obtain ⟨hsubject, x', hx', hrec, -⟩ := hreplays.recorded hy hcertifies
  rw [hx] at hx'
  cases hx'
  have hbegin := Server.renewBegin_challenges hx hlive hbehind hsubject hrec io
  refine ⟨s.key.possessionChallenge x.pubkey (io.rand 0), congrArg Prod.snd hbegin, ?_⟩
  intro proof io' hproof
  -- what is minted is what replay accepts
  obtain ⟨-, hpub, -, -⟩ := hreplays.chain_fixed
  rw [← ht.cert] at hpub
  have hissuer : (s.key.possessionChallenge x.pubkey (io.rand 0)).issuerPubkey =
      s.key.cert.agentPubkey := rfl
  obtain ⟨cert, hcert, -, hroot, hsession⟩ :=
    Server.certify_session hC ht htop x.member hissuer hproof
  have hkeyed : (Fingerprint.ofBytes P.toCrypto x.pubkey).hex P.toCrypto = session :=
    hreplays.keyed hx
  have hsession' : SessionCert P cert session s.st.chain.epoch s.st.chain.serverPub := by
    rw [hpub, ← hkeyed]
    exact hsession
  obtain ⟨next, sealed, ids, hseal, hepoch, hserver, hnext⟩ :=
    State.renewal_sealed hinj hC ht hreplays hx hlive hbehind hsession'
  refine ⟨cert, next, sealed, ids, hcert, hseal, fun hfits happend => ?_⟩
  obtain ⟨challenges, hfinish⟩ :=
    Server.renewFinish_challenged hx hlive (io.rand 0) proof io'
  obtain ⟨hok, hst⟩ := Server.renewSession_commits (s := { s with challenges := challenges })
    hup hcert hseal hfits happend
  rw [← hfinish] at hok hst
  -- the two calls are moves of the machine, so the state after them is replayed
  have hmoves : World.Run key genesis (.up s)
      (.up ((s.renewBegin last io).1.renewFinish
        (s.key.possessionChallenge x.pubkey (io.rand 0)) proof io').1) := by
    refine .head (.call s (.renewBegin last) io) (.single ?_)
    exact .call _ (.renewFinish (s.key.possessionChallenge x.pubkey (io.rand 0)) proof) io'
  have hs' := World.Run.holds hinj hC hframe hrefusal hmoves hs
  have hreplays' := hs'.sound.mirrored.replays
  rw [hbegin] at hreplays' ⊢
  refine ⟨hok, hst, ?_, fun hactive => ?_⟩
  · rw [Sessions.issued, hnext]
    exact decide_eq_true (Finset.mem_insert_self ..)
  · rw [hst] at hreplays'
    refine State.speaks hreplays' hnext hactive ?_ ?_ (Finset.mem_insert_self ..)
    · rw [hepoch, hserver]
      exact hsession'
    · rw [hserver, hpub, hroot]

namespace Small

/-! `h` is the flock's adapter, and enrolls.  The roster then drops `w`, which
moves the epoch. -/

def adapter : Member := ⟨"h", .adapter, [], false⟩

noncomputable def adapterGenesis : SignedGenesis :=
  ⟨⟨∅, ⟨"genesis", "f", serverCert, [adapter, helper, operator], ""⟩⟩,
    ⟨serverCert, mark 1 (message gid)⟩⟩

noncomputable def dropsHelper : Sealed :=
  entry 2 1 (event .roster "k" (some (eid 1)) [("replaces", gid)] 3
    (.roster [adapter, operator] [])) (rid 1) 3 0 (cid 0)

noncomputable def bumpsHelper : Sealed :=
  entry 3 1 (event .epoch "k" (some (eid 2)) [] 4 (.epoch 1)) (rid 2) 4 1 (cid 0)

noncomputable def renewsAdapter : Sealed :=
  entry 4 1 (event .renewal "k" (some (eid 3)) [("session", eid 1)] 5
    (.renewal "kk" 1 (sessionCert 2 "h" 1))) (rid 3) 5 1 (cid 0)

def nudges (target : String) : MerkleNode Event := event .nudged "kk" none [] 0 (.nudged target)

noncomputable def adapterTables : Tables where
  metadata := metadata
  genesis := adapterGenesis.node
  events := [invited, started, dropsHelper, bumpsHelper, renewsAdapter].map (·.event) ++
    [nudges "o", nudges "z"]
  records := [invited, started, dropsHelper, bumpsHelper, renewsAdapter].map (·.record)
  approvals := []
  certs := certs
  frames := [⟨[invited]⟩, ⟨[started]⟩, ⟨[dropsHelper, bumpsHelper]⟩, ⟨[renewsAdapter]⟩]

noncomputable def adapterKey : AgentKey adapterTables.primitives.toCrypto := ⟨1, serverCert, rfl⟩

/-- The adapter enrolls and misses the bump. -/
def adapterCalls : List (Call × Io) :=
  begun ++ [finish 11 (drawing 0), (.replaceRoster [adapter, operator], drawing 0)]

/-- The adapter signs the `n`-th event under its renewed certificate. -/
noncomputable def adapterSig (n : ℕ) : Assertion := ⟨sessionCert 2 "h" 1, mark 2 (message (eid n))⟩

/-- The session of the adapter, as the bump found it. -/
def adapterSession : Session := ⟨"h", 2, eid 1, .active, {cid 2}, 0, none⟩

end Small

set_option maxRecDepth 100000 in
/-- The adapter is renewed after the bump, and speaks. -/
theorem renewal_reopens_adapter :
    ∃ s, Server.open_ Small.adapterKey Small.adapterGenesis ⟨[], []⟩ ⟨[], []⟩ = .ok s ∧
      let begun := ((s.serve Small.adapterCalls).renewBegin (Small.sessionCert 2 "h" 0)
        (Small.drawing 12))
      begun.2 = .ok (Small.challenge 12) ∧
      let renewed := begun.1.renewFinish (Small.challenge 12)
        (mark 2 (Small.challenge 12).signingBytes) (Small.drawing 0)
      renewed.2 = .ok (Small.sessionCert 2 "h" 1) ∧
      renewed.1.st.Speaks Small.adapterTables.primitives "kk" "h" (Small.sessionCert 2 "h" 1) := by
  obtain ⟨s₀, hopen, hup, hx, hbehind, hframes, hbegin, hcert, r, hr, hfits, happend⟩ :
      ∃ s, Server.open_ Small.adapterKey Small.adapterGenesis ⟨[], []⟩ ⟨[], []⟩ = .ok s ∧
        let s := s.serve Small.adapterCalls
        s.poisoned = false ∧ s.st.sessions.sessions["kk"]? = some Small.adapterSession ∧
        0 < s.st.chain.epoch ∧
        s.frames = [[Small.invited], [Small.started], [Small.dropsHelper, Small.bumpsHelper]] ∧
        (s.renewBegin (Small.sessionCert 2 "h" 0) (Small.drawing 12)).2 =
          .ok (Small.challenge 12) ∧
        s.certify (Small.challenge 12) (mark 2 (Small.challenge 12).signingBytes) "h" =
          .ok (Small.sessionCert 2 "h" 1) ∧
        ∃ r, s.st.sealAll s.key [renewalSpec "kk" Small.adapterSession s.st.chain.epoch
            (Small.sessionCert 2 "h" 1)] = .ok r ∧
          frameFits Small.adapterTables.primitives r.2.1 = true ∧
          (s.log.append Small.adapterTables.primitives.frameCodec ⟨r.2.1⟩ none).2 = .ok () := by
    decide +kernel
  have hlast : ∃ y ∈ (s₀.serve Small.adapterCalls).frames.flatten,
      y.event.payload.body.Certifies "kk" (Small.sessionCert 2 "h" 0) := by
    rw [hframes]
    exact ⟨Small.started, by simp, .inl ⟨_, rfl⟩⟩
  obtain ⟨challenge, hchallenge, hanswer⟩ := renewal_reopens Small.adapterTables.idsInjective
    Small.adapterTables.honestVerifies Small.adapterTables.frameLawful
    Small.adapterTables.refusalLawful rfl hopen (.serve s₀ Small.adapterCalls) hup hx nofun hbehind
    hlast (Small.drawing 12)
  rw [hbegin] at hchallenge
  cases hchallenge
  obtain ⟨cert, next, sealed, ids, hcert', hseal, hrenewed⟩ :=
    hanswer (mark 2 (Small.challenge 12).signingBytes) (Small.drawing 0)
      (Small.adapterTables.honestVerifies 2 _)
  obtain rfl : Small.sessionCert 2 "h" 1 = cert := Except.ok.inj (hcert.symm.trans hcert')
  obtain rfl : r = (next, sealed, ids) := Except.ok.inj (hr.symm.trans hseal)
  obtain ⟨hok, hst, -, hspeaks⟩ := hrenewed hfits happend
  refine ⟨s₀, hopen, hbegin, hok, ?_⟩
  rw [hst]
  exact hspeaks rfl

set_option maxRecDepth 100000 in
/-- **A nudge at a stranger is refused as `unknownMember`**, though the session
was renewed, is active and its member is on the roster; the adapter may sign
nudges, its signature resolves, and the nudge is on its chain head. -/
theorem nudge_refused_after_renewal :
    ∃ s, Server.open_ Small.adapterKey Small.adapterGenesis ⟨[], []⟩ ⟨[], []⟩ = .ok s ∧
      let begun := (s.serve Small.adapterCalls).renewBegin (Small.sessionCert 2 "h" 0)
        (Small.drawing 12)
      let renewed := begun.1.renewFinish (Small.challenge 12)
        (mark 2 (Small.challenge 12).signingBytes) (Small.drawing 0)
      let st := renewed.1.st
      (s.serve Small.adapterCalls).poisoned = false ∧
      begun.2 = .ok (Small.challenge 12) ∧ renewed.2 = .ok (Small.sessionCert 2 "h" 1) ∧
      (st.sessions.get "kk").map (·.status) = some .active ∧ Small.adapter ∈ st.board.members ∧
      sessionSigns Small.adapter.role (Small.nudges "z").payload.kind = true ∧
      (Small.nudges "z").payload.prev = st.sessions.chainHead st.board "kk" ∧
      ∃ signer, st.sessions.resolve Small.adapterTables.primitives (Small.adapterSig 6)
          (Small.adapterTables.primitives.eventId (Small.nudges "z")) st.chain.serverPub
          st.chain.user (st.chain.epochFor (Small.nudges "z").payload.kind) = .ok signer ∧
        admitEvent Small.adapterTables.primitives st.board (Small.nudges "z") signer =
          .refuse .unknownMember := by
  decide +kernel

end Flock
