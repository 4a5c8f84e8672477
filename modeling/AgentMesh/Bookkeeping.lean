/-
The server's own events pass its own checks.

Starting and ending a session, and the epoch bump that follows an end, are
events that the server writes for itself.  It puts them through the same
admission as everybody's events, so an end could in principle be refused and a
session left alive that nobody carries any more.  It never is.

* `State.server_taken` — a fresh event of a bookkeeping kind is admitted when
  the session rules allow it;
* `State.ending_sealed` — the end of a live session, with its bump;
* `session_ends` — ending a live session goes through;
* `enrollment_completes` — so does redeeming an invite.
-/
import AgentMesh.Challenges
import AgentMesh.Renewal
import AgentMesh.Failures

open Std Mesh Framing

namespace Flock

variable {P : Primitives} {g : MerkleNode Genesis}

/-! ### One event -/

theorem applyTable_serverKind {b : Board} {ev : Event} (hk : isServerKind ev.kind = true)
    (member : Option (String × Role)) (target : Option ContentId) :
    applyTable b ev member target = .ok none := by
  rw [applyTable]
  cases hkind : ev.kind <;> rw [hkind] at hk <;> first | rfl | cases hk

theorem serverSigns_serverKind {kind : Kind} (hk : isServerKind kind = true) :
    serverSigns kind = true := by
  cases kind <;> first | rfl | cases hk

section Taking

variable {key : AgentKey P.toCrypto} {log : List Sealed} {st : State} {spec : Spec}

/-- The next event of the server for `spec` may be admitted: nobody has it yet,
what it cites is on the board, the session rules allow it, and if a session has
the server's own key, the server has been heard before. -/
structure State.Allows (st : State) (key : AgentKey P.toCrypto) (spec : Spec) : Prop where
  kind : isServerKind spec.kind = true
  body : spec.body.kind = spec.kind
  fresh : st.board.get (P.eventId (st.serverEvent key spec).1) = none
  refs : ∀ cid ∈ (st.serverEvent key spec).1.payload.refs.values, (st.board.get cid).isSome
  heard : st.sessions.sessions[st.serverAuthor P]? = none ∨
    (st.board.headOf (st.serverAuthor P)).isSome
  check : st.sessions.check P st.board (st.serverEvent key spec).1.payload
    (st.chain.epochFor spec.kind) st.chain = .ok ()

theorem State.Allows.vetted (hC : P.toCrypto.HonestVerifies) (ht : Trusted key g)
    (hlog : Replays P g log st) (h : st.Allows key spec) :
    let e := st.serverEvent key spec
    st.Vetted P e.1 e.2 (st.chain.epochFor spec.kind) ⟨key.fingerprint, .server⟩ none ∧
      ∃ c, st.citedCert P (P.certCid e.2.author) = .ok c := by
  intro e
  obtain ⟨hservercert, hpub, -, -⟩ := hlog.chain_fixed
  rw [← ht.cert] at hservercert hpub
  have hauthor : e.1.payload.author = st.serverAuthor P := by
    rw [State.serverAuthor, hpub]
    rfl
  have hroster : ∀ members roots, e.1.payload.body ≠ .roster members roots := by
    intro members roots hb
    have hkind : Kind.roster = spec.kind := by
      rw [← h.body, ← show e.1.payload.body = spec.body from rfl, hb]
      rfl
    have hserver := h.kind
    rw [← hkind] at hserver
    cases hserver
  refine ⟨⟨?_, ⟨h.fresh, rfl, rfl, rfl, h.body, ?_, ?_, rfl, ?_⟩, h.check, ?_⟩, ?_⟩
  · -- the server signs for itself
    refine Resolved.resolve (.server hpub.symm ?_)
    rw [hpub]
    exact Assertion.verify_sign hC (ht.verifies _) ht.root
  · exact fun members roots hb => absurd hb (hroster members roots)
  · intro f hf
    cases hf
  · refine ⟨none, none, none, ?_, ?_, applyTable_serverKind h.kind none none, rfl⟩
    · exact bind_ok.mpr ⟨(), ensure_of (serverSigns_serverKind h.kind), rfl⟩
    · rw [checkRefs, show e.1.payload.kind = spec.kind from rfl, if_pos h.kind]
      exact bind_ok.mpr ⟨(), ensure_of h.refs, rfl⟩
  · rw [Sessions.firstLink, hauthor]
    rcases h.heard with hnone | hhead
    · rw [hnone]
    · split
      · rfl
      · exact if_pos hhead
  · refine ⟨st.chain.serverCert, ?_⟩
    rw [State.citedCert, hservercert]
    exact if_pos rfl

/-- **An allowed event is admitted**, and replay accepts it where it is. -/
theorem State.server_taken (hinj : P.IdsInjective) (hC : P.toCrypto.HonestVerifies)
    (ht : Trusted key g) (hlog : Replays P g log st) (h : st.Allows key spec) :
    let e := st.serverEvent key spec
    ∃ p, st.prepare key e.1 e.2 = .ok p ∧ p.sealed.event = e.1 ∧
      Replays P g (log ++ [p.sealed]) (st.commit P p) ∧
      (st.commit P p).chain.epoch = st.chain.epochFor spec.kind ∧
      TableStep P st (P.eventId e.1) e.1.payload (st.chain.epochFor spec.kind)
        (st.commit P p).sessions := by
  intro e
  obtain ⟨hvetted, hcited⟩ := h.vetted hC ht hlog
  let p : Prepared := .of key st e.1 e.2 ⟨key.fingerprint, .server⟩ none
  have hprepare : st.prepare key e.1 e.2 = .ok p :=
    State.prepare_ok.mpr ⟨_, _, hvetted, hcited, rfl⟩
  have hreplay := State.Seals.replay hinj hC ht hlog (.prepared hprepare)
  obtain ⟨st₀, hst₀, hrun⟩ := hlog
  refine ⟨p, hprepare, rfl, ⟨st₀, hst₀, Steps.run_snoc.mpr ⟨st, hrun, hreplay⟩⟩, rfl, ?_⟩
  exact tableStep_of_checked hvetted.checked

end Taking

theorem TableStep.of_offTable {st : State} {id : ContentId} {ev : Event} {epoch : ℕ}
    {s' : Sessions} (h : TableStep P st id ev epoch s') (hbody : ev.body.offTable = true) :
    s' = st.sessions := by
  cases h with
  | other body => rfl
  | invite _ _ body | start _ _ _ _ body | end_ _ _ _ body | renewal _ _ _ body
  | device _ body | handoff _ _ _ _ _ _ _ _ body =>
    rw [body] at hbody
    cases hbody

/-! ### Ending a session -/

def endSpec (session : String) (x : Session) (reason : EndReason) : Spec :=
  ⟨.sessionEnd, [("session", x.start)], .sessionEnd session reason⟩

section Ending

variable {key : AgentKey P.toCrypto} {log : List Sealed} {st : State} {session : String}
  {x : Session}

theorem Replays.end_fresh (hinj : P.IdsInjective) (h : Replays P g log st)
    (hx : st.sessions.sessions[session]? = some x) (hlive : x.status ≠ .ended)
    {node : MerkleNode Event} {reason : EndReason}
    (hbody : node.payload.body = .sessionEnd session reason) :
    st.board.get (P.eventId node) = none := by
  by_contra hget
  obtain ⟨y, hy, hid⟩ := (h.taken.get_mem _).mp hget
  obtain rfl : y.event = node := hinj.event hid
  have hends : y.endedSession = some session := by
    rw [Sealed.endedSession, hbody]
  obtain ⟨m, hm⟩ := h.ended hy hends
  rw [Sessions.claims_of hx, Option.some.injEq, Prod.mk.injEq] at hm
  exact hlive ((Status.phase_inj (b := .ended)).mp hm.2)

theorem Replays.epoch_fresh (hinj : P.IdsInjective) (h : Replays P g log st) {epoch : ℕ}
    (hepoch : st.chain.epoch < epoch) {node : MerkleNode Event}
    (hbody : node.payload.body = .epoch epoch) : st.board.get (P.eventId node) = none := by
  by_contra hget
  obtain ⟨y, hy, hid⟩ := (h.taken.get_mem _).mp hget
  obtain rfl : y.event = node := hinj.event hid
  obtain ⟨pre, post, rfl⟩ := List.append_of_mem hy
  obtain ⟨u, cert, signer, conflict, hu, hacc, -⟩ := h.split
  have hcheck := hacc.vetted.checked
  simp only [Sessions.check, hbody, bind_ok, ensure_ok] at hcheck
  obtain ⟨_, -, hrecord⟩ := hcheck
  -- the bump's record counts the epoch events up to it, of which the log has no more
  have hle : epochCount (pre ++ [y]) ≤ epochCount (pre ++ y :: post) := by
    rw [show pre ++ y :: post = (pre ++ [y]) ++ post by simp, epochCount_append (pre ++ [y])]
    exact Nat.le_add_right ..
  rw [hu.record_epoch hacc] at hrecord
  rw [h.epoch] at hepoch
  omega

/-- **The end of a live session and its bump are admitted.** -/
theorem State.ending_sealed (hinj : P.IdsInjective) (hC : P.toCrypto.HonestVerifies)
    (ht : Trusted key g) (hlog : Replays P g log st)
    (hx : st.sessions.sessions[session]? = some x) (hlive : x.status ≠ .ended)
    (reason : EndReason) :
    ∃ next sealed ids,
      st.sealAll key [endSpec session x reason, st.bumpSpec] = .ok (next, sealed, ids) ∧
      next.chain.epoch = st.chain.epoch + 1 ∧
      next.sessions.sessions[session]? = some { x with status := .ended } := by
  obtain ⟨y, hy, hstart, -⟩ := (hlog.backed hx).started
  obtain ⟨e, he, -, -⟩ := hlog.entry hy
  rw [hstart] at he
  have hends : st.Allows key (endSpec session x reason) := by
    refine ⟨rfl, rfl, hlog.end_fresh hinj hx hlive rfl, ?_, .inr (hlog.server_head hx), ?_⟩
    · have hrefs : ∀ cid ∈ [x.start], (st.board.get cid).isSome := by
        intro cid hcid
        rw [List.mem_singleton.mp hcid, he]
        rfl
      exact hrefs
    · simp only [Sessions.check, State.serverEvent, Event.node, endSpec, bind_ok, liveSession_ok,
        refsAre]
      exact ⟨x, ⟨hx, hlive⟩, ensure_of rfl⟩
  obtain ⟨p, hp, hevent, hmid, hepoch, hstep⟩ := State.server_taken hinj hC ht hlog hends
  have hepoch' : (st.commit P p).chain.epoch = st.chain.epoch := hepoch
  obtain ⟨x', hx', -, hsessions⟩ := hstep.of_end rfl
  rw [hx] at hx'
  cases hx'
  have hended : (st.commit P p).sessions.sessions[session]? =
      some { x with status := .ended } := by
    rw [hsessions, Sessions.withEnd, BTreeMap.get_insert, if_pos rfl]
  -- the bump, in the state the end left
  have hbump : (st.commit P p).Allows key st.bumpSpec := by
    refine ⟨rfl, rfl, ?_, ?_, .inr (hmid.server_head hended), ?_⟩
    · exact hmid.epoch_fresh hinj (by rw [hepoch']; exact Nat.lt_succ_self _) rfl
    · intro cid hcid
      cases hcid
    · simp only [Sessions.check, State.serverEvent, Event.node, State.bumpSpec, bind_ok, refsAre]
      refine ⟨(), ensure_of rfl, ensure_of ?_⟩
      rw [Chain.epochFor, hepoch']
      rfl
  obtain ⟨q, hq, -, -, hlast, hstep'⟩ := State.server_taken hinj hC ht hmid hbump
  refine ⟨(st.commit P p).commit P q, [p.sealed, q.sealed], [p.id, q.id], ?_, ?_, ?_⟩
  · simp only [State.sealAll, bind_ok, pure, Except.pure, Except.ok.injEq]
    exact ⟨p, hp, _, ⟨q, hq, _, rfl, rfl⟩, rfl⟩
  · rw [hlast, Chain.epochFor, hepoch']
    rfl
  · rw [hstep'.of_offTable rfl]
    exact hended

end Ending

/-! ### Starting a session -/

def startSpec (invite : InviteInfo) (session : String) (cert : CertChain) : Spec :=
  ⟨.sessionStart, [("invite", invite.event)], .sessionStart invite.member session cert⟩

section Starting

variable {key : AgentKey P.toCrypto} {log : List Sealed} {st : State} {session : String}
  {cert : CertChain} {invite : InviteInfo}

/-- A flock whose log has a bookkeeping event has heard the server. -/
theorem Replays.server_heard (h : Replays P g log st) {y : Sealed} (hy : y ∈ log)
    (hk : isServerKind y.event.payload.kind = true) :
    (st.board.headOf (st.serverAuthor P)).isSome := by
  rw [h.headOf]
  refine lastBy_isSome hy ?_
  obtain ⟨pre, post, hsplit⟩ := List.append_of_mem hy
  rw [hsplit] at h
  obtain ⟨u, c, signer, conflict, hu, hacc, -⟩ := h.split
  have hadm := hacc.vetted.admissible
  obtain ⟨member, target, closes, hgate, -⟩ := hadm.table
  have hclass := signerMember_serverKind hk hgate
  have hpub : u.chain.serverPub = st.chain.serverPub :=
    hu.chain_fixed.2.1.trans h.chain_fixed.2.1.symm
  rw [hadm.author, State.serverAuthor, ← hpub]
  cases resolve_ok hacc.vetted.resolved with
  | server key signed =>
    rw [← key]
    rfl
  | device => cases hclass
  | session => cases hclass

theorem Replays.invite_heard (h : Replays P g log st) {id : ContentId} {v : Invite}
    (hi : st.sessions.invites[id]? = some v) :
    (st.board.get id).isSome ∧ (st.board.headOf (st.serverAuthor P)).isSome := by
  obtain ⟨y, hy, hid, verifier, hb⟩ := h.taken.invite_mem hi
  obtain ⟨e, he, -, -⟩ := h.entry hy
  have hkind : y.event.payload.kind = .invite := by
    obtain ⟨pre, post, rfl⟩ := List.append_of_mem hy
    obtain ⟨u, c, signer, conflict, -, hacc, -⟩ := h.split
    rw [← hacc.vetted.admissible.fits, hb]
    rfl
  refine ⟨?_, h.server_heard hy (by rw [hkind]; rfl)⟩
  rw [← hid, he]
  rfl

theorem Replays.start_fresh (hinj : P.IdsInjective) (h : Replays P g log st)
    (hnew : st.sessions.sessions[session]? = none) {node : MerkleNode Event} {member : String}
    (hbody : node.payload.body = .sessionStart member session cert) :
    st.board.get (P.eventId node) = none := by
  by_contra hget
  obtain ⟨y, hy, hid⟩ := (h.taken.get_mem _).mp hget
  obtain rfl : y.event = node := hinj.event hid
  obtain ⟨-, x, hx, -, -⟩ := h.recorded hy (.inl ⟨member, hbody⟩)
  rw [hnew] at hx
  cases hx

/-- **The start of a session is admitted**, for a key that is not enrolled and
an invite that nobody used. -/
theorem State.starting_sealed (hinj : P.IdsInjective) (hC : P.toCrypto.HonestVerifies)
    (ht : Trusted key g) (hlog : Replays P g log st)
    (hinvite : st.sessions.invites[invite.event]? = some ⟨invite.member, false⟩)
    (hnew : st.sessions.sessions[session]? = none)
    (hcert : SessionCert P cert session st.chain.epoch st.chain.serverPub) :
    ∃ next sealed ids id,
      st.sealAll key [startSpec invite session cert] = .ok (next, sealed, ids) ∧
      next.chain.epoch = st.chain.epoch ∧
      next.sessions =
        st.sessions.withStart P id invite.event invite.member session cert st.chain.epoch := by
  obtain ⟨hboard, hheard⟩ := hlog.invite_heard hinvite
  have hcites : (st.serverEvent key (startSpec invite session cert)).1.payload.refs["invite"]? =
      some invite.event := by
    show ((∅ : BTreeMap String ContentId).insert "invite" invite.event)["invite"]? = _
    rw [BTreeMap.get_insert, if_pos rfl]
  have hstarts : st.Allows key (startSpec invite session cert) := by
    refine ⟨rfl, rfl, hlog.start_fresh hinj hnew rfl, ?_, .inr hheard, ?_⟩
    · have hone : ∀ cid ∈ [invite.event], (st.board.get cid).isSome := by
        intro cid hcid
        rw [List.mem_singleton.mp hcid]
        exact hboard
      exact hone
    · simp only [Sessions.check, State.serverEvent, Event.node, startSpec, bind_ok, ensure_ok,
        okOr_ok, certOk_ok, refsAre]
      refine ⟨(invite.event, ⟨invite.member, false⟩), ?_, (), ensure_of rfl, (), rfl, (), rfl, (),
        ?_, hcert⟩
      · refine (congrArg (Option.bind · _) hcites).trans ?_
        rw [Option.bind_some, hinvite]
        rfl
      · simpa using hnew
  obtain ⟨p, hp, -, -, hepoch, hstep⟩ := State.server_taken hinj hC ht hlog hstarts
  obtain ⟨inv, hinv, -, -, -, hs'⟩ := hstep.of_start rfl
  obtain rfl : invite.event = inv := Option.some.inj (hcites.symm.trans hinv)
  refine ⟨st.commit P p, [p.sealed], [p.id], _, ?_, hepoch, hs'⟩
  simp only [State.sealAll, bind_ok, pure, Except.pure, Except.ok.injEq]
  exact ⟨p, hp, _, rfl, rfl⟩

end Starting

/-! ### The call -/

namespace Server

variable {s : Server P} {session : String} {x : Session}

/-- What ending a live session does, by what the server would write. -/
theorem endSession_eq (hx : s.st.sessions.sessions[session]? = some x)
    (hlive : x.status ≠ .ended) (reason : EndReason) (io : Io) :
    s.endSession session reason io = returning (fun _ => ())
      (s.transact [endSpec session x reason, s.st.bumpSpec] io.logFault) := by
  rw [endSession, live_of hx hlive]
  rfl

theorem transact_ok {specs : List Spec} {fault : Option Fault} {ids : List ContentId}
    (h : (s.transact specs fault).2 = .ok ids) :
    ∃ next sealed, s.st.sealAll s.key specs = .ok (next, sealed, ids) ∧ s.poisoned = false ∧
      frameFits P sealed = true ∧ (s.log.append P.frameCodec ⟨sealed⟩ fault).2 = .ok () ∧
      (s.transact specs fault).1.st = next := by
  have hup : s.poisoned = false := by
    by_contra hp
    rw [transact_poisoned (by simpa using hp)] at h
    cases h
  cases hseal : s.st.sealAll s.key specs with
  | error e =>
    simp [transact, hup, hseal] at h
  | ok r =>
    obtain ⟨next, sealed, ids'⟩ := r
    by_cases hfits : frameFits P sealed = true
    · have happend : (s.log.append P.frameCodec ⟨sealed⟩ fault).2 = .ok () := by
        simp only [transact, hup, hseal, hfits, Bool.false_eq_true, if_false, if_true,
          returning_ok, commitFrame, append] at h
        obtain ⟨_, hcommit, -⟩ := h
        generalize s.log.append P.frameCodec ⟨sealed⟩ fault = r at hcommit
        obtain ⟨log, r⟩ := r
        cases r with
        | ok u => rfl
        | error e => cases hcommit
      obtain ⟨hok, hst⟩ := transact_commits hup hseal hfits happend
      rw [hok] at h
      cases h
      exact ⟨next, sealed, rfl, hup, hfits, happend, hst⟩
    · simp [transact, hup, hseal, hfits] at h

/-- A transaction goes through exactly if the server is up, its frame fits and
the frame is written. -/
theorem transact_iff {specs : List Spec} {fault : Option Fault} {next : State}
    {sealed : List Sealed} {ids : List ContentId}
    (hseal : s.st.sealAll s.key specs = .ok (next, sealed, ids)) :
    (∃ ids, (s.transact specs fault).2 = .ok ids) ↔ s.poisoned = false ∧
      frameFits P sealed = true ∧ (s.log.append P.frameCodec ⟨sealed⟩ fault).2 = .ok () := by
  constructor
  · rintro ⟨ids', h⟩
    obtain ⟨next', sealed', hseal', hup, hfits, happend, -⟩ := transact_ok h
    rw [hseal] at hseal'
    cases hseal'
    exact ⟨hup, hfits, happend⟩
  · rintro ⟨hup, hfits, happend⟩
    exact ⟨ids, (transact_commits hup hseal hfits happend).1⟩

theorem transact_st {specs : List Spec} {fault : Option Fault} {next : State}
    {sealed : List Sealed} {ids ids' : List ContentId}
    (hseal : s.st.sealAll s.key specs = .ok (next, sealed, ids))
    (h : (s.transact specs fault).2 = .ok ids') : (s.transact specs fault).1.st = next := by
  obtain ⟨next', sealed', hseal', -, -, -, hst⟩ := transact_ok h
  rw [hseal] at hseal'
  cases hseal'
  exact hst

end Server

/-- **A live session can always be ended.**  Over every run from an empty log,
with any calls, crashes and openings: the server's own admission lets the end
of a session that has not ended pass, with its epoch bump.  The call returns
`ok` exactly if the server is up, the frame fits and is written; then the epoch
is one more, and the session is ended in every later state.  Otherwise nothing
has changed but for a stopped server. -/
theorem session_ends (hinj : P.IdsInjective) (hC : P.toCrypto.HonestVerifies)
    (hframe : P.frameCodec.Lawful) (hrefusal : P.refusalCodec.Lawful)
    {key : AgentKey P.toCrypto} {genesis : SignedGenesis} {s₀ : Server P}
    (htop : genesis.node.payload.serverCert.metadata.caveats = Caveats.top)
    (hopen : Server.open_ key genesis ⟨[], []⟩ ⟨[], []⟩ = .ok s₀) {s : Server P}
    (hrun : World.Run key genesis (.up s₀) (.up s)) {session : String} {x : Session}
    (hx : s.st.sessions.sessions[session]? = some x) (hlive : x.status ≠ .ended)
    (reason : EndReason) (io : Io) :
    ∃ next sealed ids,
      s.st.sealAll s.key [endSpec session x reason, s.st.bumpSpec] = .ok (next, sealed, ids) ∧
      ((s.endSession session reason io).2 = .ok () ↔ s.poisoned = false ∧
        frameFits P sealed = true ∧
        (s.log.append P.frameCodec ⟨sealed⟩ io.logFault).2 = .ok ()) ∧
      ((s.endSession session reason io).2 = .ok () →
        (s.endSession session reason io).1.st = next ∧
        next.chain.epoch = s.st.chain.epoch + 1 ∧
        ∀ st', State.Later P next st' →
          ∃ x', st'.sessions.sessions[session]? = some x' ∧ x'.status = .ended) ∧
      ((s.endSession session reason io).2 ≠ .ok () →
        (s.endSession session reason io).1.st = s.st) := by
  have hs : World.Keeper key genesis [] s := hrun.keeper hinj hC hframe hrefusal htop hopen
  have hreplays := hs.sound.mirrored.replays
  obtain ⟨next, sealed, ids, hseal, hepoch, hended⟩ := State.ending_sealed hinj hC
    hs.sound.mirrored.trusted hreplays hx hlive reason
  have hcall := Server.endSession_eq hx hlive reason io
  have hok : (s.endSession session reason io).2 = .ok () ↔
      ∃ ids, (s.transact [endSpec session x reason, s.st.bumpSpec] io.logFault).2 = .ok ids := by
    rw [hcall, Server.returning_ok]
    exact exists_congr fun _ => and_iff_left rfl
  refine ⟨next, sealed, ids, hseal, hok.trans (Server.transact_iff hseal), fun h => ?_, fun h => ?_⟩
  · obtain ⟨ids', hids⟩ := hok.mp h
    have hst := Server.transact_st hseal hids
    have hnext : (s.endSession session reason io).1.st = next := by
      rw [hcall, Server.returning_fst, hst]
    refine ⟨hnext, hepoch, fun st' hlater => ?_⟩
    -- the table is well formed, so what is ended stays so
    have hreached : next.sessions.WellFormed := by
      have hlater := (s.endSession_outcome session reason io).does.later
      rw [hnext] at hlater
      obtain ⟨st₀, hst₀, hbefore⟩ := hreplays.reached
      exact (State.Reached.table ⟨st₀, hst₀, hbefore.trans hlater⟩)
    have hclaims : next.sessions.register.claims session = some (x.member, .ended) :=
      Sessions.claims_of hended
    obtain ⟨x', hx', -, hp⟩ := Sessions.claims_some (hlater.ended hreached hclaims)
    exact ⟨x', hx', (Status.phase_inj (b := .ended)).mp hp⟩
  · cases hr : (s.endSession session reason io).2 with
    | ok u => exact absurd hr h
    | error e => exact ((Server.endSession_tries session reason io).failed hr).st

namespace Small

/-! Key 2 enrolls as a session of `h`, and the session is ended. -/

noncomputable def lifeEnded (reason : EndReason) (n : ℕ) : Sealed :=
  entry n 1 (event .sessionEnd "k" (some (eid 1)) [("session", eid 1)] 3 (.sessionEnd "kk" reason))
    (rid 1) 3 0 (cid 0)

noncomputable def lifeBump (n : ℕ) : Sealed :=
  entry n 1 (event .epoch "k" (some (eid (n - 1))) [] 4 (.epoch 1)) (rid (n - 1)) 4 1 (cid 0)

noncomputable def lifeSealed : List Sealed :=
  [invited, started, lifeEnded .lost 2, lifeBump 3, lifeEnded .closed 4, lifeBump 5]

noncomputable def lifeTables : Tables where
  metadata := metadata
  genesis := genesis
  events := lifeSealed.map (·.event)
  records := lifeSealed.map (·.record)
  approvals := []
  certs := certs
  frames := [⟨[invited]⟩, ⟨[started]⟩, ⟨[lifeEnded .lost 2, lifeBump 3]⟩,
    ⟨[lifeEnded .closed 4, lifeBump 5]⟩]

noncomputable def lifeKey : AgentKey lifeTables.primitives.toCrypto := ⟨1, serverCert, rfl⟩

theorem life_isOk : (Server.open_ lifeKey signedGenesis ⟨[], []⟩ ⟨[], []⟩).isOk = true := by
  decide +kernel

noncomputable def life : Server lifeTables.primitives := okValue _ life_isOk

theorem life_open : Server.open_ lifeKey signedGenesis ⟨[], []⟩ ⟨[], []⟩ = .ok life :=
  eq_okValue life_isOk

def lifeCalls : List (Call × Io) := begun ++ [finish 11 (drawing 0)]

def lifeSession : Session := ⟨"h", 2, eid 1, .active, {cid 2}, 0, none⟩

end Small

set_option maxRecDepth 100000 in
/-- The session of the small flock's key 2 is ended. -/
theorem session_ends_closed :
    ∃ s, Server.open_ Small.lifeKey Small.signedGenesis ⟨[], []⟩ ⟨[], []⟩ = .ok s ∧
      let r := (s.serve Small.lifeCalls).endSession "kk" .closed (Small.drawing 0)
      r.2 = .ok () ∧ r.1.st.chain.epoch = 1 ∧
        ∀ st', State.Later Small.lifeTables.primitives r.1.st st' →
          ∃ x, st'.sessions.sessions["kk"]? = some x ∧ x.status = .ended := by
  have hx : (Small.life.serve Small.lifeCalls).st.sessions.sessions["kk"]? =
      some Small.lifeSession := by
    decide +kernel
  have hlive : Small.lifeSession.status ≠ .ended := by
    intro h
    cases h
  obtain ⟨next, sealed, ids, -, -, hended, -⟩ := session_ends Small.lifeTables.idsInjective
    Small.lifeTables.honestVerifies Small.lifeTables.frameLawful Small.lifeTables.refusalLawful rfl
    Small.life_open (.serve _ Small.lifeCalls) hx hlive .closed (Small.drawing 0)
  obtain ⟨hst, -, hlater⟩ := hended (by decide +kernel)
  refine ⟨Small.life, Small.life_open, by decide +kernel, by decide +kernel, ?_⟩
  rw [hst]
  exact hlater

/-! ### Redeeming an invite -/

namespace Server

variable {s : Server P} {challenge : PossessionChallenge} {proof : Signature} {invite : InviteInfo}
  {cert : CertChain}

theorem take_held {purpose : Purpose}
    (hheld : s.challenges[challenge.nonce]? = some ⟨challenge, purpose⟩) :
    s.take challenge = ({ s with challenges := s.challenges.erase challenge.nonce },
      .ok purpose) := by
  rw [take, hheld]
  simp

/-- What answering an enrollment challenge does once the key is certified, by
what the server would write. -/
theorem enrollFinish_eq
    (hheld : s.challenges[challenge.nonce]? = some ⟨challenge, .enroll invite⟩)
    (hcert : s.certify challenge proof invite.member = .ok cert) (io : Io) :
    let session := (cert.agentFingerprint P.toCrypto).hex P.toCrypto
    let r := ({ s with challenges := s.challenges.erase challenge.nonce } : Server P).transact
      [startSpec invite session cert] io.logFault
    ∃ pending : Bool,
      (∀ x, r.1.st.sessions.sessions[session]? = some x → pending = decide (x.status = .pending)) ∧
      s.enrollFinish challenge proof io = returning (fun _ => ⟨session, cert, pending⟩) r := by
  have htake := take_held hheld
  have hcert' : certify ({ s with challenges := s.challenges.erase challenge.nonce } : Server P)
      challenge proof invite.member = .ok cert := hcert
  intro session r
  simp only [enrollFinish, htake, startSession, hcert']
  refine ⟨_, fun x hx => ?_, rfl⟩
  have hget : r.1.st.sessions.get session =
      some ⟨x.member, x.pubkey, x.start, x.status, x.epoch⟩ := by
    rw [Sessions.get, hx]
    rfl
  simp only [r, startSpec] at hget
  simp only [session] at hget
  rw [hget]

end Server

section Issuer

variable {key : AgentKey P.toCrypto} {genesis : SignedGenesis}

/-- The machine runs under `key` and holds challenges of that key only. -/
def World.Own (key : AgentKey P.toCrypto) : World P → Prop
  | .up s => s.key = key ∧ s.HoldsOwn key.cert.agentPubkey
  | .down _ _ => True

theorem World.own_of_open {lf rf : File} {s : Server P}
    (hopen : Server.open_ key genesis lf rf = .ok s) : World.Own key (.up s) := by
  obtain ⟨-, -, _, _, _, _, _, _, _, _, _, -, -, -, -, rfl⟩ := Server.open_ok.mp hopen
  exact ⟨rfl, fun n h hheld => by simp at hheld⟩

/-- **Over every run a server holds challenges of its own key only**; an opening
forgets them all. -/
theorem World.Run.own {w w' : World P} (hrun : World.Run key genesis w w')
    (h : World.Own key w) : World.Own key w' := by
  induction hrun with
  | refl => exact h
  | tail _ hstep ih =>
    cases hstep with
    | call s c io =>
      obtain ⟨rfl, hown⟩ := ih
      refine ⟨?_, hown.call c io⟩
      refine (s.call_outcome c io).does.invariant (fun t => t.key = s.key) ?_ rfl
      intro t t' he ht
      cases he <;> exact ht
    | crash | again => exact trivial
    | reopen hopen => exact World.own_of_open hopen

end Issuer

/-- **An invite that nobody used can be redeemed.**  Over every run from an
empty log, with any calls, crashes and openings: as long as the server still
holds an enrollment challenge, whatever else happened since it was issued, if the
invite is not consumed, the key is not enrolled and the proof is the key's, the
server certifies the key and its own admission lets the `session-start` pass.
The call returns `ok` exactly if the server is up, the frame fits and is written;
then the session is in the table, pending exactly if the member had one before,
and the invite is consumed. -/
theorem enrollment_completes (hinj : P.IdsInjective) (hC : P.toCrypto.HonestVerifies)
    (hframe : P.frameCodec.Lawful) (hrefusal : P.refusalCodec.Lawful)
    {key : AgentKey P.toCrypto} {genesis : SignedGenesis} {s₀ : Server P}
    (htop : genesis.node.payload.serverCert.metadata.caveats = Caveats.top)
    (hopen : Server.open_ key genesis ⟨[], []⟩ ⟨[], []⟩ = .ok s₀) {s : Server P}
    (hrun : World.Run key genesis (.up s₀) (.up s)) {challenge : PossessionChallenge}
    {proof : Signature} {invite : InviteInfo}
    (hheld : s.challenges[challenge.nonce]? = some ⟨challenge, .enroll invite⟩)
    (hproof : P.toCrypto.verifyStrict challenge.subjectPubkey challenge.signingBytes proof = true)
    (hinvite : s.st.sessions.invites[invite.event]? = some ⟨invite.member, false⟩)
    (hnew : s.st.sessions.sessions[(Fingerprint.ofBytes P.toCrypto challenge.subjectPubkey).hex
      P.toCrypto]? = none) (io : Io) :
    let session := (Fingerprint.ofBytes P.toCrypto challenge.subjectPubkey).hex P.toCrypto
    let r := s.enrollFinish challenge proof io
    ∃ cert next sealed ids, s.certify challenge proof invite.member = .ok cert ∧
      s.st.sealAll s.key [startSpec invite session cert] = .ok (next, sealed, ids) ∧
      ((∃ e, r.2 = .ok e) ↔ s.poisoned = false ∧ frameFits P sealed = true ∧
        (s.log.append P.frameCodec ⟨sealed⟩ io.logFault).2 = .ok ()) ∧
      ∀ e, r.2 = .ok e →
        e = ⟨session, cert, decide (invite.member ∈ s.st.sessions.seen)⟩ ∧ r.1.st = next ∧
        (∃ x, next.sessions.sessions[session]? = some x ∧ x.member = invite.member ∧
          x.pubkey = challenge.subjectPubkey ∧ x.epoch = s.st.chain.epoch ∧
          (x.status = .pending ↔ invite.member ∈ s.st.sessions.seen)) ∧
        next.sessions.invites[invite.event]? = some ⟨invite.member, true⟩ := by
  intro session r
  have hs : World.Keeper key genesis [] s := hrun.keeper hinj hC hframe hrefusal htop hopen
  have hreplays := hs.sound.mirrored.replays
  have ht := hs.sound.mirrored.trusted
  obtain ⟨-, hpub, -, -⟩ := hreplays.chain_fixed
  rw [← ht.cert] at hpub
  have hissuer : challenge.issuerPubkey = s.key.cert.agentPubkey := by
    rw [hs.key]
    exact (hrun.own (World.own_of_open hopen)).2 _ _ hheld
  obtain ⟨cert, hcert, hkey, -, hsession⟩ :=
    Server.certify_session hC ht htop invite.member hissuer hproof
  rw [← hpub] at hsession
  have hname : (cert.agentFingerprint P.toCrypto).hex P.toCrypto = session := hsession.subject
  obtain ⟨next, sealed, ids, id, hseal, -, hsessions⟩ :=
    State.starting_sealed hinj hC ht hreplays hinvite hnew hsession
  have hcall := Server.enrollFinish_eq hheld hcert io
  rw [hname] at hcall
  obtain ⟨pending, hpending, hcall⟩ := hcall
  -- the transaction is of the server with the challenge consumed, which writes the same
  set t : Server P := { s with challenges := s.challenges.erase challenge.nonce }
  have hseal' : t.st.sealAll t.key [startSpec invite session cert] = .ok (next, sealed, ids) :=
    hseal
  have htable : next.sessions.sessions[session]? =
      some (s.st.sessions.enrolled P id invite.member cert s.st.chain.epoch) := by
    rw [hsessions, Sessions.withStart, BTreeMap.get_insert, if_pos rfl]
  refine ⟨cert, next, sealed, ids, hcert, hseal, ?_, fun e he => ?_⟩
  · refine Iff.trans ?_ (Server.transact_iff (s := t) hseal')
    show (∃ e, (s.enrollFinish challenge proof io).2 = .ok e) ↔ _
    rw [hcall]
    constructor
    · rintro ⟨e, he⟩
      obtain ⟨ids', hids, -⟩ := Server.returning_ok.mp he
      exact ⟨ids', hids⟩
    · rintro ⟨ids', hids⟩
      exact ⟨_, Server.returning_ok.mpr ⟨ids', hids, rfl⟩⟩
  · have he' : (s.enrollFinish challenge proof io).2 = .ok e := he
    rw [hcall] at he'
    obtain ⟨ids', hids, rfl⟩ := Server.returning_ok.mp he'
    have hst := Server.transact_st hseal' hids
    have hstatus : (s.st.sessions.enrolled P id invite.member cert s.st.chain.epoch).status =
        .pending ↔ invite.member ∈ s.st.sessions.seen := by
      by_cases hseen : invite.member ∈ s.st.sessions.seen
      · simp [Sessions.enrolled, hseen]
      · simp [Sessions.enrolled, hseen]
    refine ⟨?_, ?_, ⟨_, htable, rfl, hkey, rfl, hstatus⟩, ?_⟩
    · rw [hpending _ (by rw [hst]; exact htable), decide_eq_decide.mpr hstatus]
    · show (s.enrollFinish challenge proof io).1.st = next
      rw [hcall, Server.returning_fst, hst]
    · rw [hsessions, Sessions.withStart, BTreeMap.get_modify, if_pos rfl, hinvite]
      rfl

set_option maxRecDepth 100000 in
/-- Key 2 of the small flock redeems its invite. -/
theorem enrollment_completes_small :
    ∃ s, Server.open_ Small.lifeKey Small.signedGenesis ⟨[], []⟩ ⟨[], []⟩ = .ok s ∧
      let r := (s.serve Small.begun).enrollFinish (Small.challenge 11)
        (mark 2 (Small.challenge 11).signingBytes) (Small.drawing 0)
      r.2 = .ok ⟨"kk", Small.sessionCert 2 "h" 0, false⟩ ∧
        r.1.st.sessions.invites[Small.eid 0]? = some ⟨"h", true⟩ := by
  obtain ⟨s₀, hopen, hheld, hinvite, hnew, hseen, hcert, hok⟩ :
      ∃ s, Server.open_ Small.lifeKey Small.signedGenesis ⟨[], []⟩ ⟨[], []⟩ = .ok s ∧
        let s := s.serve Small.begun
        s.challenges[(Small.challenge 11).nonce]? =
          some ⟨Small.challenge 11, .enroll ⟨Small.eid 0, "h", false⟩⟩ ∧
        s.st.sessions.invites[Small.eid 0]? = some ⟨"h", false⟩ ∧
        s.st.sessions.sessions["kk"]? = none ∧ "h" ∉ s.st.sessions.seen ∧
        s.certify (Small.challenge 11) (mark 2 (Small.challenge 11).signingBytes) "h" =
          .ok (Small.sessionCert 2 "h" 0) ∧
        ∃ e, (s.enrollFinish (Small.challenge 11) (mark 2 (Small.challenge 11).signingBytes)
          (Small.drawing 0)).2 = .ok e ∧ e.session = "kk" := by
    decide +kernel
  obtain ⟨e, hok, hname⟩ := hok
  obtain ⟨cert, next, sealed, ids, hcert', -, -, hdone⟩ := enrollment_completes
    Small.lifeTables.idsInjective Small.lifeTables.honestVerifies Small.lifeTables.frameLawful
    Small.lifeTables.refusalLawful rfl hopen (.serve s₀ Small.begun) hheld
    (Small.lifeTables.honestVerifies 2 _) hinvite hnew (Small.drawing 0)
  obtain rfl : Small.sessionCert 2 "h" 0 = cert := Except.ok.inj (hcert.symm.trans hcert')
  obtain ⟨he, hst, -, hused⟩ := hdone e hok
  refine ⟨s₀, hopen, ?_, ?_⟩
  · rw [hok, he, decide_eq_false hseen]
    rfl
  · exact (congrArg (fun st => st.sessions.invites[Small.eid 0]?) hst).trans hused

end Flock
