/-
Every session event is written by a live, currently certified session.

A certificate counts only if a `session-start` or `renewal` put it into the
log, and such a certificate is bounded to the one epoch of that entry.  So a
session-class signature at epoch `e` leads back to an entry at epoch `e`: an
epoch bump silences every session until it is renewed.

* `Replays.backed` — every session of the table, and every certificate it may
  use, stands in the log;
* `Replays.ended` — an entry that ended a session still has it ended;
* `session_events_certified` — what an admitted session event leads back to.
-/
import AgentMesh.SingleUse

open Std Mesh

namespace Flock

variable {P : Primitives} {g : MerkleNode Genesis}

/-! ### Where sessions and certificates come from -/

/-- The body puts certificate `c` of session `a` into the log. -/
def Body.Certifies (b : Body) (a : String) (c : CertChain) : Prop :=
  (∃ member, b = .sessionStart member a c) ∨ ∃ epoch, b = .renewal a epoch c

/-- What the log holds for session `a`: its start, and an entry for every
certificate it may use, issued by `server` for the epoch of that entry. -/
structure Session.Backed (P : Primitives) (server : PubKey) (log : List Sealed) (a : String)
    (x : Session) : Prop where
  started : ∃ y ∈ log, P.eventId y.event = x.start ∧
    ∃ c, y.event.payload.body = .sessionStart x.member a c
  certified : ∀ cid ∈ x.certs, ∃ y ∈ log, ∃ c, y.event.payload.body.Certifies a c ∧
    P.certCid c = cid ∧ SessionCert P c a y.record.payload.epoch server

/-- More log backs as well, and the status of a session does not matter. -/
theorem Session.Backed.mono {server : PubKey} {log more : List Sealed} {a : String}
    {x x' : Session} (h : x.Backed P server log a) (hstart : x'.start = x.start)
    (hmember : x'.member = x.member) (hcerts : x'.certs = x.certs) :
    x'.Backed P server (log ++ more) a := by
  constructor
  · obtain ⟨y, hy, hid, hb⟩ := h.started
    rw [hstart, hmember]
    exact ⟨y, List.mem_append_left _ hy, hid, hb⟩
  · intro cid hcid
    rw [hcerts] at hcid
    obtain ⟨y, hy, hc⟩ := h.certified cid hcid
    exact ⟨y, List.mem_append_left _ hy, hc⟩

/-- **Every session of the table is backed by the log.** -/
theorem Replays.backed {log : List Sealed} {st : State} (h : Replays P g log st) {a : String}
    {x : Session} (hx : st.sessions.sessions[a]? = some x) :
    x.Backed P st.chain.serverPub log a := by
  refine replays_invariant (fun log st => ∀ (a : String) (x : Session),
    st.sessions.sessions[a]? = some x → x.Backed P st.chain.serverPub log a) ?_ ?_ h a x hx
  · intro user _ a x hx
    simp [State.genesis, Sessions.empty] at hx
  · intro log st y cert signer conflict _ hinv hacc a x hx
    have hpub : (st.after P y signer conflict).chain.serverPub = st.chain.serverPub := rfl
    have hkept : ∀ {z : Session}, st.sessions.sessions[a]? = some z →
        z.Backed P st.chain.serverPub (log ++ [y]) a := fun hz => (hinv a _ hz).mono rfl rfl rfl
    have hsession := hacc.tableStep.session a
    rw [hx] at hsession
    rw [hpub]
    generalize st.sessions.sessions[a]? = before at hsession hkept
    cases hsession with
    | same => exact hkept rfl
    | started member c body certified =>
      refine ⟨⟨y, by simp, rfl, c, body⟩, fun cid hcid => ?_⟩
      rw [Sessions.enrolled, Finset.mem_singleton] at hcid
      exact ⟨y, by simp, c, by rw [body]; exact .inl ⟨member, rfl⟩, hcid.symm, certified⟩
    | renewed z c body behind certified =>
      have hz := hkept rfl
      refine ⟨hz.started, fun cid hcid => ?_⟩
      rcases Finset.mem_insert.mp hcid with rfl | hcid
      · exact ⟨y, by simp, c, by rw [body]; exact .inr ⟨_, rfl⟩, rfl, certified⟩
      · exact hz.certified cid hcid
    | ended z | handedOff z | activated z => exact ⟨(hkept rfl).started, (hkept rfl).certified⟩

/-! ### Ends are final -/

/-- The session an entry ends: its own end, or a hand-off away from it. -/
def Sealed.endedSession (x : Sealed) : Option String :=
  match x.event.payload.body with
  | .sessionEnd session _ => some session
  | .handoff from_ _ _ _ _ _ => some from_
  | _ => none

theorem State.Accepts.ended {st : State} {x : Sealed} {cert : CertChain} {signer : Signer}
    {conflict : Option ConflictKind} (h : st.Accepts P x cert signer conflict)
    (hwf : st.sessions.WellFormed) {a : String} (ha : x.endedSession = some a) :
    ∃ m, (st.after P x signer conflict).sessions.register.claims a = some (m, .ended) := by
  rw [Sealed.endedSession] at ha
  split at ha
  · rename_i session reason hb
    cases ha
    obtain ⟨y, -, -, hs'⟩ := h.tableStep.of_end hb
    refine ⟨y.member, ?_⟩
    rw [Sessions.claims_insert (by rw [hs']; rfl), if_pos rfl]
    rfl
  · rename_i from_ to_ resume context approval approvalSig hb
    rw [Option.some.injEq] at ha
    subst ha
    obtain ⟨f, t, hok, hs'⟩ := h.tableStep.of_handoff hb
    -- the holder is not pending, so it is not the session it hands off to
    have hne : to_ ≠ from_ := by
      intro he
      obtain ⟨p, hp, hpend⟩ := hwf.exclusive.holder_claims hok.holder
      rw [← he, Sessions.claims_of hok.toKnown, hok.pending, Option.some.injEq,
        Prod.mk.injEq] at hp
      exact hpend hp.2.symm
    refine ⟨f.member, ?_⟩
    rw [hs', Sessions.register_claims, Sessions.withHandoff, BTreeMap.get_insert, if_neg hne,
      BTreeMap.get_insert, if_pos rfl]
    rfl
  · cases ha

/-- **A session once ended or handed off from is ended.** -/
theorem Replays.ended {log : List Sealed} {st : State} (h : Replays P g log st) {x : Sealed}
    (hx : x ∈ log) {a : String} (ha : x.endedSession = some a) :
    ∃ m, st.sessions.register.claims a = some (m, .ended) := by
  refine replays_invariant (fun log st => ∀ x ∈ log, ∀ a, x.endedSession = some a →
    ∃ m, st.sessions.register.claims a = some (m, .ended)) ?_ ?_ h x hx a ha
  · intro _ _ x hx
    cases hx
  · intro log st y cert signer conflict hlog hinv hacc x hx a ha
    have hwf := hlog.reached.table
    rcases List.mem_append.mp hx with hx | hx
    · obtain ⟨m, hm⟩ := hinv x hx a ha
      exact ⟨m, (hacc.tableStep.step hwf).ended_stays hm⟩
    · rw [List.mem_singleton.mp hx] at ha
      exact hacc.ended hwf ha

/-! ### The certificate behind a session's signature -/

/-- A verified certificate bounded to one epoch was verified at that epoch. -/
theorem SessionCert.epoch_eq {cert : CertChain} {a : String} {e e' : ℕ} {server : PubKey}
    (h : SessionCert P cert a e server) (hv : cert.verifyAt P.toCrypto e' = .ok ()) : e' = e := by
  have hgen : cert.metadata.caveats.validForGeneration = .only {e} := by
    rw [h.caveats]
    rfl
  exact Finset.mem_singleton.mp (CertChain.verifyAt_generation hv _ hgen)

/-- The entry that certified a session signature: recorded at the same epoch
as the signature is checked at, with the very certificate it was made under. -/
theorem Replays.certifying {log : List Sealed} {st : State} (h : Replays P g log st)
    (hinj : P.IdsInjective) {a : String} {x : Session} {sig : Assertion} {event : ContentId}
    {epoch : ℕ} (hx : st.sessions.sessions[a]? = some x) (hrec : P.certCid sig.author ∈ x.certs)
    (hsig : sig.verify P.toCrypto event st.chain.serverPub epoch = .ok ()) :
    ∃ y ∈ log, y.event.payload.body.Certifies a sig.author ∧ y.record.payload.epoch = epoch ∧
      SessionCert P sig.author a epoch g.payload.serverCert.agentPubkey := by
  obtain ⟨y, hy, c, hcert, hcid, hc⟩ := (h.backed hx).certified _ hrec
  have hce : c = sig.author := hinj.cert hcid
  subst hce
  have he := hc.epoch_eq (Assertion.verify_ok.mp hsig).1
  rw [h.chain_fixed.2.1, ← he] at hc
  exact ⟨y, hy, hcert, he.symm, hc⟩

theorem Replays.epoch_lt {p q : List Sealed} {y z : Sealed} {st : State}
    (h : Replays P g (p ++ z :: q) st) (hz : z.kind = .epoch) (hy : y ∈ p) :
    y.record.payload.epoch < st.chain.epoch := by
  obtain ⟨p₁, p₂, rfl⟩ := List.append_of_mem hy
  rw [h.epoch]
  rw [List.append_assoc, List.cons_append] at h
  obtain ⟨u, cert, signer, conflict, hu, hacc, -⟩ := h.split
  have hone : epochCount [z] = 1 := by rw [epochCount_single, if_pos hz]
  have hsplit : epochCount (p₁ ++ y :: p₂ ++ z :: q) =
      epochCount (p₁ ++ [y]) + epochCount p₂ + epochCount [z] + epochCount q := by
    rw [← epochCount_append, ← epochCount_append, ← epochCount_append]
    simp
  rw [hu.record_epoch hacc, hsplit]
  omega

/-- The entry that certifies the author of `y` after an epoch event is a
renewal, if the session was started before it. -/
theorem Replays.certifies_after {p q : List Sealed} {y z : Sealed} {st : State} {a : String}
    {c : CertChain} (h : Replays P g (p ++ z :: q) st) (hz : z.kind = .epoch)
    (hy : y ∈ p ++ z :: q) (hcert : y.event.payload.body.Certifies a c)
    (he : y.record.payload.epoch = st.chain.epoch) :
    y ∈ q ∧ ((∃ w ∈ p, w.startedSession = some a) →
      y.event.payload.body = .renewal a st.chain.epoch c) := by
  have hq : y ∈ q := by
    rcases List.mem_append.mp hy with hp | hy
    · exact absurd he (h.epoch_lt hz hp).ne
    · rcases List.mem_cons.mp hy with rfl | hq
      · -- the epoch event itself certifies nobody
        obtain ⟨u, cert, signer, conflict, -, hacc, -⟩ := h.split
        have hfits := hacc.vetted.admissible.fits
        rw [← Sealed.kind, hz] at hfits
        obtain ⟨m, hb⟩ | ⟨e, hb⟩ := hcert <;> rw [hb] at hfits <;> cases hfits
      · exact hq
  refine ⟨hq, fun ⟨w, hw, hstart⟩ => ?_⟩
  obtain ⟨q₁, q₂, rfl⟩ := List.append_of_mem hq
  have hsplit : p ++ z :: (q₁ ++ y :: q₂) = (p ++ z :: q₁) ++ y :: q₂ := by simp
  rw [hsplit] at h
  obtain ⟨u, cert, signer, conflict, hu, hacc, -⟩ := h.split
  obtain ⟨member, hb⟩ | ⟨e, hb⟩ := hcert
  · -- a second start of the session is refused
    obtain ⟨inv, -, -, hfresh, -, -⟩ := hacc.tableStep.of_start hb
    exact absurd (hu.taken.sessions_once.2 a (List.mem_filterMap.mpr
      ⟨w, List.mem_append_left _ hw, hstart⟩)) hfresh
  · obtain ⟨rfl, -⟩ := hacc.tableStep.of_renewal hb
    rw [hb, he]

/-- What a session-class signature on an accepted entry says about its author
in the state the entry was accepted in. -/
structure SessionSigned (P : Primitives) (st : State) (x : Sealed) (cert : CertChain)
    (member : String) (s : Session) : Prop where
  known : st.sessions.sessions[x.event.payload.author]? = some s
  active : s.status = .active
  serves : s.member = member
  recorded : P.certCid cert ∈ s.certs
  signed : (⟨cert, x.eventSig⟩ : Assertion).verify P.toCrypto (P.eventId x.event)
    st.chain.serverPub x.record.payload.epoch = .ok ()
  listed : ∃ m ∈ st.board.members, m.name = member
  /-- A session moves no epoch. -/
  epoch : x.record.payload.epoch = st.chain.epoch

theorem Status.active_of_live {status : Status} (hpending : decide (status = .pending) = false)
    (hlive : status ≠ .ended) : status = .active := by
  cases status with
  | active => rfl
  | pending => cases hpending
  | ended => exact absurd rfl hlive

theorem State.Accepts.sessionSigned {st : State} {x : Sealed} {cert : CertChain} {signer : Signer}
    {conflict : Option ConflictKind} (h : st.Accepts P x cert signer conflict) {member : String}
    {pending : Bool} (hclass : signer.class_ = .session member pending) :
    ∃ s, SessionSigned P st x cert member s := by
  have hadm := h.vetted.admissible
  obtain ⟨m, -, -, hm, -, -, -⟩ := hadm.table
  obtain ⟨hpending, r, hr, hsigns⟩ := signerMember_session hclass hm
  have hauthor := hadm.author
  cases resolve_ok h.vetted.resolved with
  | server | device => cases hclass
  | session s key issued known live recorded signed =>
    cases hclass
    rw [← hauthor] at known
    have hactive : s.status = .active := Status.active_of_live hpending live
    have hkind : x.event.payload.kind ≠ .epoch := fun hk => by
      rw [hk] at hsigns
      cases hsigns
    refine ⟨s, known, hactive, rfl, recorded, signed,
      ⟨r, List.mem_of_find?_eq_some hr, by simpa using List.find?_some hr⟩, ?_⟩
    rw [h.extend.epoch, Chain.epochFor, if_neg hkind, Nat.add_zero]

/-- **Session events are certified.**  An admitted event of class session, at
record epoch `e`, was signed under a certificate that an earlier start or
renewal of that session put into the log for exactly `e`; the session was its
member's active holder, never ended nor handed off from, and its member was on
the roster.  After an epoch event the certifying entry comes after it, and is
a renewal if the session is older than the event. -/
theorem session_events_certified (hinj : P.IdsInjective) {frames : List (List Sealed)}
    {f : Follower} (h : Follower.Reaches P g frames f) {pre post : List Sealed} {x : Sealed}
    (hlog : frames.flatten = pre ++ x :: post) :
    ∃ st cert signer conflict, Replays P g pre st ∧ st.Accepts P x cert signer conflict ∧
      ∀ member pending, signer.class_ = .session member pending →
        (∃ y ∈ pre, y.event.payload.body.Certifies x.event.payload.author cert ∧
          y.record.payload.epoch = x.record.payload.epoch) ∧
        SessionCert P cert x.event.payload.author x.record.payload.epoch
          g.payload.serverCert.agentPubkey ∧
        P.verifyStrict cert.agentPubkey (message (P.eventId x.event)) x.eventSig = true ∧
        (∃ s, st.sessions.sessions[x.event.payload.author]? = some s ∧ s.status = .active ∧
          s.member = member ∧ st.sessions.holders[member]? = some x.event.payload.author) ∧
        (∀ y ∈ pre, y.endedSession ≠ some x.event.payload.author) ∧
        (∃ m ∈ st.board.members, m.name = member) ∧
        ∀ p z q, pre = p ++ z :: q → z.kind = .epoch →
          ∃ y ∈ q, y.event.payload.body.Certifies x.event.payload.author cert ∧
            y.record.payload.epoch = x.record.payload.epoch ∧
            ((∃ w ∈ p, w.startedSession = some x.event.payload.author) →
              y.event.payload.body =
                .renewal x.event.payload.author x.record.payload.epoch cert) := by
  have hrep := h.replays
  rw [hlog] at hrep
  obtain ⟨st, cert, signer, conflict, hpre, hacc, -⟩ := hrep.split
  refine ⟨st, cert, signer, conflict, hpre, hacc, fun member pending hclass => ?_⟩
  obtain ⟨s, hs⟩ := hacc.sessionSigned hclass
  obtain ⟨y, hy, hcert, hepoch, hsc⟩ := hpre.certifying hinj hs.known hs.recorded hs.signed
  have hclaims : st.sessions.register.claims x.event.payload.author = some (member, .active) := by
    rw [Sessions.claims_of hs.known, hs.active, hs.serves]
    rfl
  have hholds := hpre.reached.table.exclusive.active_holds hclaims
  refine ⟨⟨y, hy, hcert, hepoch⟩, hsc, (Assertion.verify_ok.mp hs.signed).2.2,
    ⟨s, hs.known, hs.active, hs.serves, hholds⟩, fun z hz hend => ?_, hs.listed, ?_⟩
  · obtain ⟨m, hm⟩ := hpre.ended hz hend
    rw [hclaims] at hm
    cases hm
  · intro p z q hpz hz
    rw [hs.epoch] at hepoch ⊢
    subst hpz
    obtain ⟨hq, hren⟩ := hpre.certifies_after hz hy hcert hepoch
    exact ⟨y, hq, hcert, hepoch, hren⟩

set_option maxRecDepth 100000 in
/-- In the small flock, the second session speaks after the bump because it was
renewed. -/
theorem session_events_certified_handover :
    ∃ f pre, Follower.Reaches Small.P Small.genesis Small.handover f ∧
      Small.handover.flatten = pre ++ [Small.spokenNext] ∧
      ∃ y ∈ pre, ∃ cert, y.event.payload.body = .renewal "kkk" 1 cert ∧
        SessionCert Small.P cert "kkk" 1 1 := by
  obtain ⟨f, hf, -⟩ := Small.handover_reached
  let p := Small.beforeHandoff.flatten ++ [Small.handedOff]
  obtain ⟨st, cert, signer, conflict, hpre, hacc, hall⟩ :=
    session_events_certified Small.ids_injective hf
      (show Small.handover.flatten = (p ++ [Small.bumped, Small.renewed]) ++
        Small.spokenNext :: [] from rfl)
  have hsigner : signerOf Small.P Small.genesis (p ++ [Small.bumped, Small.renewed])
      Small.spokenNext = some ⟨⟨3⟩, .session "h" false⟩ := by
    decide +kernel
  rw [hacc.signerOf hpre] at hsigner
  obtain ⟨-, hcert, -, -, -, -, hepoch⟩ := hall "h" false (by rw [Option.some.inj hsigner])
  obtain ⟨y, hy, -, -, hrenewal⟩ := hepoch p Small.bumped [Small.renewed] rfl rfl
  refine ⟨f, _, hf, rfl, y, List.mem_append_right p (List.mem_cons_of_mem _ hy), cert, ?_, hcert⟩
  exact hrenewal ⟨Small.startedNext, by simp [p, Small.beforeHandoff], rfl⟩

end Flock
