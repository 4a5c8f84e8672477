/-
A connection is the life of the session it carries.

A session that enrolls on a connection is carried by it: by no other, and as
the only one, until the connection's thread has ended it.  So as long as the
server is up, a session that some connection carried is live only while that
connection is served, whatever the other connections do in between; and once
the service is stopped, none of them is.

* `Server.endSession_settles`, `Server.enrollFinish_starts` — the two calls that
  begin and end a life;
* `Turned`, `Access.turned` — what an access does to the session carried;
* `connection_carries_session` — the life of a session, over every interleaving;
* `stop_ends_sessions` — nothing is left when the service is stopped.
-/
import AgentMesh.Challenges
import AgentMesh.ConnectionSteps

open Std Mesh Framing

namespace Flock

variable {P : Primitives}

/-! ### Sessions of the server -/

namespace Server

def Knows (s : Server P) (a : String) : Prop := ∃ x, s.st.sessions.sessions[a]? = some x

/-- The session has ended, or the server has stopped. -/
def Settled (s : Server P) (a : String) : Prop :=
  (∃ x, s.st.sessions.sessions[a]? = some x ∧ x.status = .ended) ∨ s.poisoned = true

/-- In every state the server may be in, the frame of a session's end fits. -/
def EndsFit (P : Primitives) (key : AgentKey P.toCrypto) (g : MerkleNode Genesis) : Prop :=
  ∀ (log : List Sealed) (st next : State) (session : String) (x : Session) (reason : EndReason)
    (sealed : List Sealed) (ids : List ContentId), Replays P g log st →
    st.sealAll key [endSpec session x reason, st.bumpSpec] = .ok (next, sealed, ids) →
    frameFits P sealed = true

variable {s s' : Server P} {a : String} {key : AgentKey P.toCrypto} {genesis : SignedGenesis}

theorem Does.knows (h : s.Does s') (hs : s.Knows a) : s'.Knows a := by
  obtain ⟨x, hx⟩ := hs
  obtain ⟨y, hy, -, -⟩ := h.later.grown hx
  exact ⟨y, hy⟩

theorem Does.poisoned (h : s.Does s') (hp : s.poisoned = true) : s'.poisoned = true := by
  rw [h.of_poisoned hp]
  exact hp

theorem Does.settled (h : s.Does s') (hs : s.Sound genesis) (hsettled : s.Settled a) :
    s'.Settled a := by
  rcases hsettled with ⟨x, hx, hended⟩ | hp
  · have hclaims : s.st.sessions.register.claims a = some (x.member, .ended) := by
      rw [Sessions.claims_of hx, hended]
      rfl
    have hwf := hs.mirrored.replays.reached.table
    obtain ⟨x', hx', -, hphase⟩ := Sessions.claims_some (h.later.ended hwf hclaims)
    exact .inl ⟨x', hx', (Status.phase_inj (b := .ended)).mp hphase⟩
  · exact .inr (h.poisoned hp)

theorem transact_breaks {specs : List Spec} {fault : Option Fault} {next : State}
    {sealed : List Sealed} {ids : List ContentId}
    (hseal : s.st.sealAll s.key specs = .ok (next, sealed, ids))
    (hfits : frameFits P sealed = true) {e : ServerError}
    (happend : (s.log.append P.frameCodec ⟨sealed⟩ fault).2 = .error e) :
    (s.transact specs fault).1.poisoned = true := by
  rw [transact]
  split
  · rename_i hp
    exact hp
  · simp only [hseal, hfits, if_true, returning_fst, commitFrame, append]
    generalize s.log.append P.frameCodec ⟨sealed⟩ fault = r at happend
    obtain ⟨log, r⟩ := r
    cases happend
    rfl

/-- **Ending a session leaves it ended, or the server stopped.** -/
theorem endSession_settles (hinj : P.IdsInjective) (hC : P.toCrypto.HonestVerifies)
    (hs : World.Keeper key genesis [] s) (hfit : EndsFit P key genesis.node) (ha : s.Knows a)
    (reason : EndReason) (io : Io) : (s.endSession a reason io).1.Settled a := by
  obtain ⟨x, hx⟩ := ha
  have hreplays := hs.sound.mirrored.replays
  by_cases hended : x.status = .ended
  · exact (s.endSession_outcome a reason io).does.settled hs.sound (.inl ⟨x, hx, hended⟩)
  · obtain ⟨next, sealed, ids, hseal, -, hnext⟩ := State.ending_sealed hinj hC
      hs.sound.mirrored.trusted hreplays hx hended reason
    have hkey : s.st.sealAll key [endSpec a x reason, s.st.bumpSpec] = .ok (next, sealed, ids) := by
      rw [← hs.key]
      exact hseal
    have hfits := hfit _ _ _ _ _ _ _ _ hreplays hkey
    rw [endSession_eq hx hended, returning_fst]
    cases happend : (s.log.append P.frameCodec ⟨sealed⟩ io.logFault).2 with
    | error e => exact .inr (transact_breaks hseal hfits happend)
    | ok u =>
      by_cases hup : s.poisoned = true
      · rw [transact_poisoned hup]
        exact .inr hup
      · obtain ⟨-, hst⟩ := transact_commits (by simpa using hup) hseal hfits happend
        exact .inl ⟨{ x with status := .ended }, by rw [hst]; exact hnext, rfl⟩

theorem startSession_starts {challenge : PossessionChallenge} {proof : Signature}
    {invite : InviteInfo} {io : Io} {e : Enrolled}
    (h : (s.startSession challenge proof invite io).2 = .ok e) :
    ¬ s.Knows e.session ∧ (s.startSession challenge proof invite io).1.Knows e.session := by
  cases hcert : s.certify challenge proof invite.member with
  | error e => simp [startSession, hcert] at h
  | ok cert =>
    simp only [startSession, hcert] at h ⊢
    obtain ⟨ids, hids, rfl⟩ := returning_ok.mp h
    obtain ⟨next, sealed, hseal, -, -, -, hst⟩ := transact_ok hids
    obtain ⟨y, mid, more, ids', -, hseals, -, hbody, hrest⟩ := State.sealAll_cons hseal
    obtain ⟨-, rfl⟩ := State.sealAll_nil hrest
    obtain ⟨epoch, hstep⟩ := hseals.takes.tableStep
    obtain ⟨inv, -, -, hfresh, -, hs'⟩ := hstep.of_start hbody
    rw [returning_fst]
    constructor
    · rintro ⟨x, hx⟩
      rw [ExtTreeMap.getElem?_eq_none hfresh] at hx
      cases hx
    · refine ⟨s.st.sessions.enrolled P (P.eventId y.event) invite.member cert epoch, ?_⟩
      rw [hst, hs', Sessions.withStart, BTreeMap.get_insert, if_pos rfl]

/-- **An enrollment that finishes starts a session that was not there.** -/
theorem enrollFinish_starts {challenge : PossessionChallenge} {proof : Signature} {io : Io}
    {e : Enrolled} (h : (s.enrollFinish challenge proof io).2 = .ok e) :
    ¬ s.Knows e.session ∧ (s.enrollFinish challenge proof io).1.Knows e.session := by
  obtain ⟨invite, hheld, -⟩ := enrollFinish_ok h
  simp only [enrollFinish, take_held hheld] at h ⊢
  obtain ⟨hfresh, hknown⟩ := startSession_starts h
  exact ⟨hfresh, hknown⟩

end Server

/-! ### Cursors -/

theorem Journal.cursorFrom_panicked {frames : List Published} {from_ : Option Head}
    (h : Journal.cursorFrom P frames from_ = .panicked) : frames = [] := by
  cases from_ with
  | none => cases h
  | some head =>
    simp only [Journal.cursorFrom] at h
    split at h
    · cases h
    · rename_i hle
      split at h
      · rename_i hnone
        by_contra hne
        -- the last frame does not end before the token, so the search stops at it or before
        have hlast : ¬ lastIndex (frames.getLast hne).1 < head.index := by
          rw [Journal.len, List.getLast?_eq_some_getLast hne] at hle
          simpa using hle
        have hall : ∀ p ∈ frames, lastIndex p.1 < head.index := by
          have hlen := List.getElem?_eq_none_iff.mp hnone
          have heq : (frames.takeWhile fun p => decide (lastIndex p.1 < head.index)) = frames :=
            (List.takeWhile_prefix _).eq_of_length_le hlen
          intro p hp
          rw [← heq] at hp
          simpa using List.mem_takeWhile_imp hp
        exact hlast (hall _ (List.getLast_mem hne))
      · split at h
        · cases h
        · split at h <;> cases h

theorem Server.journal_of_knows {s : Server P} {genesis : SignedGenesis} (hs : s.Sound genesis)
    {a : String} (ha : s.Knows a) : s.journal ≠ [] := by
  obtain ⟨x, hx⟩ := ha
  obtain ⟨y, hy, -⟩ := (hs.mirrored.replays.backed hx).started
  rintro hnil
  rw [Server.frames, hnil] at hy
  cases hy

/-! ### What an access does to the session carried -/

def Stage.closing : Stage → Bool
  | .failing _ (some (_, more)) => !more
  | .answering _ more => !more
  | .failing _ none | .leaving | .gone => true
  | .reading | .locating .. | .opening .. | .streaming _ => false

theorem Service.answered_closing (result : Except ServerError Answer) (more : Bool) :
    (Service.answered result more).closing = !more := by
  unfold Service.answered
  split
  · rfl
  · split <;> rfl

theorem Conn.follow_bound (c : Conn) (k : Worker) : (c.follow k).bound = c.bound := by
  rw [Conn.follow]
  split <;> rfl

theorem Conn.follow_stage (c : Conn) (k : Worker) :
    (c.follow k).stage = .leaving ∨ (c.follow k).stage = .streaming k := by
  rw [Conn.follow]
  split
  · exact .inl rfl
  · exact .inr rfl

/-- What holds of every connection: the server knows the session it carries and
has a journal for the stream it opens; when the thread has ended the session,
that is settled. -/
structure Conn.Sane (s : Server P) (c : Conn) : Prop where
  known : ∀ a, c.bound = some a → s.Knows a
  opening : ∀ session from_, c.stage = .opening session from_ → s.journal ≠ []
  gone : c.stage = .gone → ∀ a, c.bound = some a → s.Settled a
  failing : ∀ why, c.stage = .failing why none → ∀ a, c.bound = some a → s.Settled a

/-- What an access does to the session the connection carries. -/
inductive Turned (x : Service P) (c : Conn) (y : Service P) (c' : Conn) : Prop where
  | kept (bound : c'.bound = c.bound) (closing : c.stage.closing = true → c'.stage.closing = true)
  /-- It said goodbye. -/
  | parted (a : String) (bound : c.bound = some a) (unbound : c'.bound = none)
      (closing : c'.stage.closing = true) (settled : y.server.Settled a)
  /-- It carries a session that is new to the server. -/
  | enrolled (a : String) (unbound : c.bound = none) (reading : c.stage = .reading)
      (bound : c'.bound = some a) (fresh : ¬ x.server.Knows a) (known : y.server.Knows a)

section Turning

variable {key : AgentKey P.toCrypto} {genesis : SignedGenesis} {x y : Service P} {c c' : Conn}
  {act : ThreadAct}

theorem Access.turned (hinj : P.IdsInjective) (hC : P.toCrypto.HonestVerifies)
    (hfit : Server.EndsFit P key genesis.node) (hs : World.Keeper key genesis [] x.server)
    (hc : c.Sane x.server) (h : Access x c act y c') : Turned x c y c' := by
  -- a thread that waits for a request or streams is not closing
  have hnot : ∀ {stage}, c.stage = stage → stage.closing = false →
      c.stage.closing = true → c'.stage.closing = true := by
    intro stage hstage hopen hclosing
    rw [hstage, hopen] at hclosing
    cases hclosing
  cases h with
  | still => exact .kept rfl id
  | declined reading | challenged reading | watched reading | proved reading | unproved reading
  | unread reading | located reading | farewell reading | hungUp reading =>
    exact .kept rfl (hnot reading rfl)
  | read _ _ _ locating => exact .kept rfl (hnot locating rfl)
  | panicked _ _ opening => exact .kept rfl (hnot opening rfl)
  | placed _ _ opening => exact .kept (c.follow_bound _) (hnot opening rfl)
  | worked _ streaming => exact .kept (c.follow_bound _) (hnot streaming rfl)
  | cancelled _ streaming => exact .kept rfl (hnot streaming rfl)
  | recorded why answer more failing =>
    refine .kept rfl fun hclosing => ?_
    rw [failing] at hclosing
    exact hclosing
  | recordedLast | left => exact .kept rfl fun _ => rfl
  | wrote answer more answering w =>
    refine .kept rfl fun hclosing => ?_
    rw [answering] at hclosing
    have hmore : more = false := by simpa [Stage.closing] using hclosing
    simp [hmore, Stage.closing]
  | lost leaving session bound io ends =>
    refine .kept rfl fun _ => ?_
    rcases ends with rfl | ⟨e, -, rfl, -⟩ <;> rfl
  | closed reading session bound io =>
    refine .parted session bound rfl (Service.answered_closing _ _) ?_
    exact Server.endSession_settles hinj hC hs hfit (hc.known _ bound) .closed io
  | handled reading req io =>
    rcases handle_bound x.server req c.bound io with
      hsame | ⟨challenge, proof, e, -, hunbound, hok, hserver, hbound⟩
    · exact .kept hsame (hnot reading rfl)
    · obtain ⟨hfresh, hknown⟩ := Server.enrollFinish_starts hok
      refine .enrolled e.session hunbound reading hbound hfresh ?_
      show (handle x.server req c.bound io).server.Knows e.session
      rw [hserver]
      exact hknown

/-- Nothing was left to the session's end, and no stream is opened. -/
def Stage.quiet : Stage → Bool
  | .opening .. | .gone | .failing _ none => false
  | .reading | .locating .. | .streaming _ | .failing _ (some _) | .answering .. | .leaving => true

theorem Conn.Sane.of_quiet {s : Server P} (hknown : ∀ a, c.bound = some a → s.Knows a)
    (hquiet : c.stage.quiet = true) : c.Sane s := by
  refine ⟨hknown, fun session from_ h => ?_, fun h => ?_, fun why h => ?_⟩ <;>
    (rw [h] at hquiet; cases hquiet)

theorem Service.answered_quiet (result : Except ServerError Answer) (more : Bool) :
    (Service.answered result more).quiet = true := by
  unfold Service.answered
  split
  · rfl
  · split <;> rfl

theorem Conn.follow_quiet (c : Conn) (k : Worker) : (c.follow k).stage.quiet = true := by
  rw [Conn.follow]
  split <;> rfl

theorem Conn.Sane.grown {s s' : Server P} (hs : s.Sound genesis) (h : s.Does s') (hc : c.Sane s) :
    c.Sane s' := by
  refine ⟨fun a ha => h.knows (hc.known a ha), fun session from_ hstage hnil => ?_,
    fun hstage a ha => h.settled hs (hc.gone hstage a ha),
    fun why hstage a ha => h.settled hs (hc.failing why hstage a ha)⟩
  have hgrows := h.journal_grows
  rw [hnil] at hgrows
  exact hc.opening session from_ hstage (List.prefix_nil.mp hgrows)

theorem Access.does (h : Access x c act y c') : x.server.Does y.server := by
  rcases h.server_calls with hsame | ⟨call, io, hcall⟩
  · rw [hsame]
    exact .refl
  · rw [hcall]
    exact (x.server.call_outcome call io).does

/-- **An access leaves its connection sane.** -/
theorem Access.sane (hinj : P.IdsInjective) (hC : P.toCrypto.HonestVerifies)
    (hfit : Server.EndsFit P key genesis.node) (hs : World.Keeper key genesis [] x.server)
    (hc : c.Sane x.server) (h : Access x c act y c') : c'.Sane y.server := by
  have hknown : ∀ a, c'.bound = some a → y.server.Knows a := by
    intro a ha
    cases h.turned hinj hC hfit hs hc with
    | kept bound => exact h.does.knows (hc.known a (bound ▸ ha))
    | parted b bound unbound =>
      rw [unbound] at ha
      cases ha
    | enrolled b unbound reading bound fresh known =>
      rw [bound] at ha
      cases ha
      exact known
  cases h with
  | still => exact hc
  | declined | challenged | proved | unproved | unread | located | farewell | hungUp | read
  | cancelled | recorded => exact .of_quiet hknown rfl
  | closed | handled => exact .of_quiet hknown (Service.answered_quiet _ _)
  | placed | worked => exact .of_quiet hknown (c.follow_quiet _)
  | wrote answer more answering w =>
    refine .of_quiet hknown ?_
    show (if w = .done ∧ more = true then Stage.reading else .leaving).quiet = true
    split <;> rfl
  | watched reading from_ proof ch id session held named shown =>
    -- the session that may open a stream is in the log
    obtain ⟨z, hz, -⟩ := State.mem_eligible.mp (Server.authorizeStream_eligible shown)
    refine ⟨hknown, fun _ _ _ => Server.journal_of_knows hs.sound ⟨z, hz⟩, ?_, ?_⟩ <;>
      (intros; contradiction)
  | panicked session from_ opening lost =>
    exact absurd (Journal.cursorFrom_panicked lost) (hc.opening session from_ opening)
  | recordedLast why failing =>
    exact ⟨hknown, fun _ _ h => Stage.noConfusion h, fun _ => hc.failing why failing,
      fun _ h => Stage.noConfusion h⟩
  | left leaving unbound =>
    refine ⟨hknown, fun _ _ h => Stage.noConfusion h, fun _ a ha => ?_,
      fun _ h => Stage.noConfusion h⟩
    rw [show c.bound = some a from ha] at unbound
    cases unbound
  | lost leaving session bound io ends =>
    have hsettled : ∀ a, c.bound = some a →
        (x.server.endSession session .lost io).1.Settled a := by
      intro a ha
      rw [bound] at ha
      cases ha
      exact Server.endSession_settles hinj hC hs hfit (hc.known _ bound) .lost io
    refine ⟨hknown, fun session' from_ h => ?_, fun _ => hsettled, fun _ _ => hsettled⟩
    rcases ends with rfl | ⟨e, -, rfl, -⟩ <;> cases h

end Turning

/-! ### The life of a session -/

/-- What holds of a service over every interleaving. -/
structure Service.Upheld (key : AgentKey P.toCrypto) (genesis : SignedGenesis) (x : Service P) :
    Prop where
  keeper : World.Keeper key genesis [] x.server
  sane : ∀ c ∈ x.conns, c.Sane x.server
  /-- No two connections carry one session. -/
  alone : ∀ (i j : ℕ) (c d : Conn) (a : String), x.conns[i]? = some c → x.conns[j]? = some d →
    c.bound = some a → d.bound = some a → i = j

/-- Session `a` has been carried by connection `id`. -/
structure Life (x : Service P) (id : ℕ) (a : String) : Prop where
  known : x.server.Knows a
  /-- The connection carries it, or has said goodbye for it. -/
  carried : ∃ c, x.conns[id]? = some c ∧
    (c.bound = some a ∨ (c.bound = none ∧ c.stage.closing = true ∧ x.server.Settled a))
  alone : ∀ (j : ℕ) (c : Conn), x.conns[j]? = some c → c.bound = some a → j = id

section Living

variable {key : AgentKey P.toCrypto} {genesis : SignedGenesis} {x y : Service P} {a : Service.Act}

theorem Service.Upheld.life (h : x.Upheld key genesis) {id : ℕ} {c : Conn} {a : String}
    (hc : x.conns[id]? = some c) (ha : c.bound = some a) : Life x id a where
  known := (h.sane c (List.mem_of_getElem? hc)).known a ha
  carried := ⟨c, hc, .inl ha⟩
  alone j d hd hda := h.alone j id d c a hd hc hda ha

/-- A step that leaves the server and the connections as they are, but for new
ones. -/
theorem Service.Upheld.extends (h : x.Upheld key genesis) (hserver : y.server = x.server)
    {fresh : List Conn} (hconns : y.conns = x.conns ++ fresh)
    (hfresh : ∀ c ∈ fresh, c.bound = none ∧
      c.stage = .reading) : y.Upheld key genesis := by
  have hold : ∀ {i : ℕ} {c : Conn} {a : String}, y.conns[i]? = some c → c.bound = some a →
      x.conns[i]? = some c := by
    intro i c a hi ha
    rw [hconns, List.getElem?_append] at hi
    split at hi
    · exact hi
    · have hnone := (hfresh c (List.mem_of_getElem? hi)).1
      rw [ha] at hnone
      cases hnone
  refine ⟨by rw [hserver]; exact h.keeper, fun c hc => ?_, fun i j c d a hi hj hc hd => ?_⟩
  · rw [hserver]
    rw [hconns] at hc
    rcases List.mem_append.mp hc with hc | hc
    · exact h.sane c hc
    · obtain ⟨hbound, hstage⟩ := hfresh c hc
      refine .of_quiet (fun a ha => ?_) (by rw [hstage]; rfl)
      rw [hbound] at ha
      cases ha
  · exact h.alone i j c d a (hold hi hc) (hold hj hd) hc hd

theorem Life.extends {id : ℕ} {a : String} (h : Life x id a) (hserver : y.server = x.server)
    {fresh : List Conn} (hconns : y.conns = x.conns ++ fresh)
    (hfresh : ∀ c ∈ fresh, c.bound = none) : Life y id a := by
  obtain ⟨c, hc, hcarried⟩ := h.carried
  refine ⟨by rw [hserver]; exact h.known, ⟨c, ?_, by rw [hserver]; exact hcarried⟩,
    fun j d hj hd => ?_⟩
  · rw [hconns, List.getElem?_append_left (List.getElem?_eq_some_iff.mp hc).1]
    exact hc
  · rw [hconns, List.getElem?_append] at hj
    split at hj
    · exact h.alone j d hj hd
    · rw [hfresh d (List.mem_of_getElem? hj)] at hd
      cases hd

/-- What is at a place after one place was set. -/
theorem getElem?_set_cases {α : Type} {l : List α} {i j : ℕ} {u v : α}
    (h : (l.set i u)[j]? = some v) : (j = i ∧ v = u) ∨ (j ≠ i ∧ l[j]? = some v) := by
  by_cases hij : i = j
  · subst hij
    rw [List.getElem?_set_self'] at h
    obtain ⟨w, -, hw⟩ := Option.map_eq_some_iff.mp h
    exact .inl ⟨rfl, hw.symm⟩
  · rw [List.getElem?_set_ne hij] at h
    exact .inr ⟨fun e => hij e.symm, h⟩

section Accessing

variable {id : ℕ} {c c' : Conn} {act : ThreadAct}

theorem Service.Upheld.accesses (hinj : P.IdsInjective) (hC : P.toCrypto.HonestVerifies)
    (hfit : Server.EndsFit P key genesis.node) (h : x.Upheld key genesis)
    (known : x.conns[id]? = some c) (access : Access x c act y c') :
    Upheld key genesis { y with conns := x.conns.set id c' } := by
  have hc := h.sane c (List.mem_of_getElem? known)
  have hsane := access.sane hinj hC hfit h.keeper hc
  have hothers : ∀ {j : ℕ} {d : Conn}, x.conns[j]? = some d → d.Sane x.server :=
    fun hj => h.sane _ (List.mem_of_getElem? hj)
  refine ⟨?_, fun d hd => ?_, ?_⟩
  · exact access.does.invariant _ (fun he h => h.effect hinj hC he) h.keeper
  · obtain ⟨j, hj⟩ := List.getElem?_of_mem hd
    rcases getElem?_set_cases hj with ⟨-, rfl⟩ | ⟨-, hold⟩
    · exact hsane
    · exact (hothers hold).grown h.keeper.sound access.does
  · -- a session that is new to the server is carried by nobody else
    have hapart : ∀ {j : ℕ} {d : Conn} {a : String}, j ≠ id → x.conns[j]? = some d →
        d.bound = some a → c'.bound ≠ some a := by
      intro j d a hne hj hd ha
      cases access.turned hinj hC hfit h.keeper hc with
      | kept bound => exact hne (h.alone j id d c a hj known hd (bound ▸ ha))
      | parted b bound unbound =>
        rw [unbound] at ha
        cases ha
      | enrolled b unbound reading bound fresh =>
        rw [bound] at ha
        cases ha
        exact fresh ((hothers hj).known _ hd)
    intro i j d e a hi hj hd he
    rcases getElem?_set_cases hi with ⟨rfl, rfl⟩ | ⟨hni, hi'⟩ <;>
      rcases getElem?_set_cases hj with ⟨rfl, rfl⟩ | ⟨hnj, hj'⟩
    · rfl
    · exact absurd hd (hapart hnj hj' he)
    · exact absurd he (hapart hni hi' hd)
    · exact h.alone i j d e a hi' hj' hd he

theorem Life.accesses (hinj : P.IdsInjective) (hC : P.toCrypto.HonestVerifies)
    (hfit : Server.EndsFit P key genesis.node) (h : x.Upheld key genesis)
    (known : x.conns[id]? = some c) (access : Access x c act y c') {i : ℕ} {a : String}
    (hlife : Life x i a) : Life { y with conns := x.conns.set id c' } i a := by
  have hturned := access.turned hinj hC hfit h.keeper (h.sane c (List.mem_of_getElem? known))
  have hsettled : x.server.Settled a → y.server.Settled a := access.does.settled h.keeper.sound
  obtain ⟨d, hd, hcarried⟩ := hlife.carried
  refine ⟨access.does.knows hlife.known, ?_, fun j e hj he => ?_⟩
  · by_cases hi : id = i
    · subst hi
      rw [known] at hd
      cases hd
      refine ⟨c', List.getElem?_set_self (List.getElem?_eq_some_iff.mp known).1, ?_⟩
      rcases hcarried with hbound | ⟨hunbound, hclosing, hdone⟩
      · cases hturned with
        | kept bound => exact .inl (bound.trans hbound)
        | parted b bound unbound closing settled =>
          rw [hbound] at bound
          cases bound
          exact .inr ⟨unbound, closing, settled⟩
        | enrolled b unbound =>
          rw [hbound] at unbound
          cases unbound
      · cases hturned with
        | kept bound closing =>
          exact .inr ⟨bound.trans hunbound, closing hclosing, hsettled hdone⟩
        | parted b bound =>
          rw [hunbound] at bound
          cases bound
        | enrolled b unbound reading =>
          -- a thread that said goodbye reads no further request
          rw [reading] at hclosing
          cases hclosing
    · refine ⟨d, (List.getElem?_set_ne hi).trans hd, hcarried.imp_right fun hleft => ?_⟩
      exact ⟨hleft.1, hleft.2.1, hsettled hleft.2.2⟩
  · rcases getElem?_set_cases hj with ⟨rfl, rfl⟩ | ⟨-, hj⟩
    · cases hturned with
      | kept bound => exact hlife.alone j c known (bound ▸ he)
      | parted b bound unbound =>
        rw [unbound] at he
        cases he
      | enrolled b unbound reading bound fresh =>
        rw [bound] at he
        cases he
        exact absurd hlife.known fresh
    · exact hlife.alone j e hj he

end Accessing

theorem Moves.upheld (hinj : P.IdsInjective) (hC : P.toCrypto.HonestVerifies)
    (hfit : Server.EndsFit P key genesis.node) (hmove : Moves x a y) (h : x.Upheld key genesis) :
    y.Upheld key genesis := by
  cases hmove with
  | accesses id act known access => exact h.accesses hinj hC hfit known access
  | accepts k class_ =>
    refine h.extends rfl rfl fun c hc => ?_
    rw [List.mem_singleton.mp hc]
    exact ⟨rfl, rfl⟩
  | idle | takes | ends | drops | flagged | drained | stopped =>
    exact h.extends rfl (List.append_nil _).symm fun c hc => absurd hc List.not_mem_nil

theorem Moves.life (hinj : P.IdsInjective) (hC : P.toCrypto.HonestVerifies)
    (hfit : Server.EndsFit P key genesis.node) (hmove : Moves x a y) (h : x.Upheld key genesis)
    {i : ℕ} {b : String} (hlife : Life x i b) : Life y i b := by
  cases hmove with
  | accesses id act known access => exact hlife.accesses hinj hC hfit h known access
  | accepts k class_ =>
    refine hlife.extends rfl rfl fun c hc => ?_
    rw [List.mem_singleton.mp hc]
    rfl
  | idle | takes | ends | drops | flagged | drained | stopped =>
    exact hlife.extends rfl (List.append_nil _).symm fun c hc => absurd hc List.not_mem_nil

/-- **Over every interleaving** the service is upheld and lives go on. -/
theorem Service.Upheld.run (hinj : P.IdsInjective) (hC : P.toCrypto.HonestVerifies)
    (hfit : Server.EndsFit P key genesis.node) (h : x.Upheld key genesis)
    (acts : List Service.Act) : (x.run acts).Upheld key genesis :=
  run_invariant _ (fun {x a} h => (x.step_moves a).upheld hinj hC hfit h) h acts

theorem Life.run (hinj : P.IdsInjective) (hC : P.toCrypto.HonestVerifies)
    (hfit : Server.EndsFit P key genesis.node) (h : x.Upheld key genesis) {i : ℕ} {b : String}
    (hlife : Life x i b) (acts : List Service.Act) : Life (x.run acts) i b := by
  have hboth : (x.run acts).Upheld key genesis ∧ Life (x.run acts) i b := by
    refine Service.run_invariant (fun x => x.Upheld key genesis ∧ Life x i b) ?_ ⟨h, hlife⟩ acts
    intro x a hx
    have hmove := x.step_moves a
    exact ⟨hmove.upheld hinj hC hfit hx.1, hmove.life hinj hC hfit hx.1 hx.2⟩
  exact hboth.2

end Living

/-! ### Starting and stopping -/

theorem Service.start_upheld {key : AgentKey P.toCrypto} {genesis : SignedGenesis} {s : Server P}
    (hs : World.Keeper key genesis [] s) (rootPaths : BTreeMap String String)
    (contentId : MerkleNode StreamChallenge → Except String ContentId) (classes : List Class) :
    (Service.start s rootPaths contentId classes).Upheld key genesis where
  keeper := hs
  sane c hc := absurd hc List.not_mem_nil
  alone i j c d a hi := by
    cases hi

/-- How far the stop of a service got, and what that says of its threads. -/
structure Service.Draining (x : Service P) : Prop where
  loops : x.stopping ≠ .no → ∀ l ∈ x.loops, l.2 = .ended
  conns : x.stopping = .stopped → ∀ c ∈ x.conns, c.stage = .gone

section Stopping

variable {x y : Service P} {a : Service.Act} {c c' : Conn} {act : ThreadAct}

theorem Access.of_gone (h : Access x c act y c') (hgone : c.stage = .gone) : y = x ∧ c' = c := by
  cases h with
  | still => exact ⟨rfl, rfl⟩
  | declined at_ | challenged at_ | watched at_ | proved at_ | unproved at_ | unread at_
  | located at_ | farewell at_ | closed at_ | handled at_ | hungUp at_ | read _ _ _ at_
  | panicked _ _ at_ | placed _ _ at_ | worked _ at_ | cancelled _ at_ | recorded _ _ _ at_
  | recordedLast _ at_ | wrote _ _ at_ | left at_ | lost at_ =>
    rw [hgone] at at_
    cases at_

/-- **A stopped service does not move**, but for its flag. -/
theorem Moves.of_stopped (hmove : Moves x a y) (h : x.Draining) (hstopped : x.stopping = .stopped) :
    y = { x with flag := y.flag } := by
  have hended : ∀ {k : ℕ} {class_ : Class} {at_ : Accepting}, x.loops[k]? = some (class_, at_) →
      at_ = .ended := by
    intro k class_ at_ hk
    exact h.loops (by rw [hstopped]; exact Stopping.noConfusion) _ (List.mem_of_getElem? hk)
  cases hmove with
  | idle | flagged => rfl
  | takes k class_ waiting | ends k class_ waiting => cases hended waiting
  | drops k class_ taken | accepts k class_ taken => cases hended taken
  | drained running =>
    rw [hstopped] at running
    cases running
  | stopped draining =>
    rw [hstopped] at draining
    cases draining
  | @accesses id act c c' z known access =>
    obtain ⟨hz, hc'⟩ := access.of_gone (h.conns hstopped c (List.mem_of_getElem? known))
    have hsame : x.conns.set id c' = x.conns := by
      obtain ⟨hlt, hget⟩ := List.getElem?_eq_some_iff.mp known
      rw [hc', ← hget]
      exact List.set_getElem_self hlt
    rw [hsame, hz]

theorem Moves.draining (hmove : Moves x a y) (h : x.Draining) : y.Draining := by
  -- a loop that ended is not set to anything else
  have hset : ∀ {k : ℕ} {class_ : Class} {at_ next : Accepting} {conns : List Conn},
      x.loops[k]? = some (class_, at_) → at_ ≠ .ended →
      Service.Draining { x with loops := x.loops.set k (class_, next), conns := conns } := by
    intro k class_ at_ next conns hk hne
    have hno : x.stopping = .no := by
      by_contra hstop
      exact hne (h.loops hstop _ (List.mem_of_getElem? hk))
    refine ⟨fun hstop => absurd hno hstop, fun hstop => ?_⟩
    rw [show x.stopping = .stopped from hstop] at hno
    cases hno
  cases hmove with
  | idle => exact h
  | takes k class_ waiting => exact hset waiting Accepting.noConfusion
  | ends k class_ waiting => exact hset waiting Accepting.noConfusion
  | drops k class_ taken => exact hset taken Accepting.noConfusion
  | accepts k class_ taken => exact hset taken Accepting.noConfusion
  | flagged => exact ⟨h.loops, h.conns⟩
  | drained running ended => exact ⟨fun _ => ended, fun hstop => Stopping.noConfusion hstop⟩
  | stopped draining gone =>
    refine ⟨fun _ => h.loops ?_, fun _ => gone⟩
    rw [draining]
    exact Stopping.noConfusion
  | @accesses id act c c' y known access =>
    have hframed := access.framed
    refine ⟨fun hstop => ?_, fun hstop d hd => ?_⟩
    · show ∀ l ∈ y.loops, _
      rw [hframed.loops]
      exact h.loops (hframed.stopping ▸ hstop)
    · have hgone := h.conns (hframed.stopping ▸ hstop)
      obtain ⟨-, rfl⟩ := access.of_gone (hgone c (List.mem_of_getElem? known))
      obtain ⟨j, hj⟩ := List.getElem?_of_mem hd
      rcases getElem?_set_cases hj with ⟨-, rfl⟩ | ⟨-, hj⟩
      · exact hgone d (List.mem_of_getElem? known)
      · exact hgone d (List.mem_of_getElem? hj)

theorem Service.Draining.run (h : x.Draining) (acts : List Service.Act) : (x.run acts).Draining :=
  run_invariant _ (fun {x a} h => (x.step_moves a).draining h) h acts

theorem Service.start_draining (s : Server P) (rootPaths : BTreeMap String String)
    (contentId : MerkleNode StreamChallenge → Except String ContentId) (classes : List Class) :
    (Service.start s rootPaths contentId classes).Draining :=
  ⟨fun h => absurd rfl h, fun h => by cases h⟩

theorem Service.run_of_stopped (h : x.Draining) (hstopped : x.stopping = .stopped)
    (acts : List Service.Act) :
    (x.run acts).server = x.server ∧ (x.run acts).conns = x.conns := by
  have hall : (x.run acts).Draining ∧ (x.run acts).stopping = .stopped ∧
      (x.run acts).server = x.server ∧ (x.run acts).conns = x.conns := by
    refine run_invariant (fun y => y.Draining ∧ y.stopping = .stopped ∧ y.server = x.server ∧
      y.conns = x.conns) ?_ ⟨h, hstopped, rfl, rfl⟩ acts
    intro y a hy
    obtain ⟨hdraining, hstop, hserver, hconns⟩ := hy
    have hmove := y.step_moves a
    have hsame := hmove.of_stopped hdraining hstop
    refine ⟨hmove.draining hdraining, ?_, ?_, ?_⟩
    · rw [hsame]
      exact hstop
    · rw [hsame]
      exact hserver
    · rw [hsame]
      exact hconns
  exact hall.2.2

end Stopping

/-! ### A small service -/

theorem Tables.endsFit (T : Tables) (key : AgentKey T.primitives.toCrypto)
    (g : MerkleNode Genesis) :
    Server.EndsFit T.primitives key g := by
  intro log st next session x reason sealed ids _ hseal
  obtain ⟨y, mid, more, ids', rfl, -, -, -, hrest⟩ := State.sealAll_cons hseal
  obtain ⟨z, last, more', ids'', rfl, -, -, -, hrest⟩ := State.sealAll_cons hrest
  obtain ⟨rfl, -⟩ := State.sealAll_nil hrest
  rfl

deriving instance Countable for StreamChallenge

namespace Small

/-- Stream challenges with short ids. -/
def streamed : List (MerkleNode StreamChallenge) := [⟨∅, ⟨gid, 7⟩⟩, ⟨∅, ⟨gid, 8⟩⟩]

noncomputable def contentId (n : MerkleNode StreamChallenge) : Except String ContentId :=
  .ok ⟨6 :: tabled streamed n⟩

/-- Key 2 enrolls over the connection with its invite's token. -/
def enrolls : List Service.Act :=
  [.incoming 0, .spawn 0 true,
    .thread 0 (.request (.invite "h") (drawing 5)), .thread 0 (.write .done),
    .thread 0 (.request (.enrollBegin "kkkkk" "h" 2) (drawing 11)), .thread 0 (.write .done),
    .thread 0 (.request (.enrollFinish (challenge 11) (mark 2 (challenge 11).signingBytes))
      (drawing 0)), .thread 0 (.write .done)]

/-- The peer goes away and the thread ends its session. -/
def hangsUp : List Service.Act := [.thread 0 .hangUp, .thread 0 (.leave (drawing 0))]

/-- The service is stopped, which cuts the connection. -/
def stops : List Service.Act := [.stop, .incoming 0, .joinLoops] ++ hangsUp ++ [.joinConns]

set_option maxRecDepth 100000 in
theorem carried : ((Service.start life ∅ contentId [.owner]).run enrolls).conns[0]?.bind
    (·.bound) = some "kk" := by
  decide +kernel

end Small

/-! ### The results -/

/-- **A connection is the life of the session it carries.**  Serve a server that
any run led to, on any sockets, and let its threads interleave in any way: from
the moment connection `id` carries session `a`, it carries no other session, and
no other connection carries `a`.  As long as the session has not ended and the
server is up, the connection's thread is there and carries it. -/
theorem connection_carries_session (hinj : P.IdsInjective) (hC : P.toCrypto.HonestVerifies)
    (hframe : P.frameCodec.Lawful) (hrefusal : P.refusalCodec.Lawful)
    {key : AgentKey P.toCrypto} {genesis : SignedGenesis} {s₀ : Server P}
    (htop : genesis.node.payload.serverCert.metadata.caveats = Caveats.top)
    (hopen : Server.open_ key genesis ⟨[], []⟩ ⟨[], []⟩ = .ok s₀) {s : Server P}
    (hrun : World.Run key genesis (.up s₀) (.up s)) (hfit : Server.EndsFit P key genesis.node)
    (rootPaths : BTreeMap String String)
    (contentId : MerkleNode StreamChallenge → Except String ContentId) (classes : List Class)
    (acts acts' : List Service.Act) {id : ℕ} {c : Conn} {a : String}
    (hc : ((Service.start s rootPaths contentId classes).run acts).conns[id]? = some c)
    (ha : c.bound = some a) :
    let y := ((Service.start s rootPaths contentId classes).run acts).run acts'
    (∃ c', y.conns[id]? = some c' ∧ (c'.bound = some a ∨ c'.bound = none)) ∧
    (∀ (j : ℕ) (d : Conn), y.conns[j]? = some d → d.bound = some a → j = id) ∧
    (∀ x, y.server.st.sessions.sessions[a]? = some x → x.status ≠ .ended →
      y.server.poisoned = false →
      ∃ c', y.conns[id]? = some c' ∧ c'.bound = some a ∧ c'.stage ≠ .gone) := by
  have hs : World.Keeper key genesis [] s := hrun.keeper hinj hC hframe hrefusal htop hopen
  have hup := (Service.start_upheld hs rootPaths contentId classes).run hinj hC hfit acts
  have hup' := hup.run hinj hC hfit acts'
  obtain ⟨-, ⟨c', hc', hcarried⟩, halone⟩ := (hup.life hc ha).run hinj hC hfit hup acts'
  intro y
  -- neither ended nor stopped: not settled
  have hlive : ∀ {x : Session}, y.server.st.sessions.sessions[a]? = some x → x.status ≠ .ended →
      y.server.poisoned = false → ¬ y.server.Settled a := by
    rintro x hx hne hpoisoned (⟨x', hx', hended⟩ | hp)
    · rw [hx] at hx'
      cases hx'
      exact hne hended
    · rw [hpoisoned] at hp
      cases hp
  refine ⟨⟨c', hc', hcarried.imp_right (·.1)⟩, halone, fun x hx hne hpoisoned => ?_⟩
  rcases hcarried with hbound | ⟨-, -, hsettled⟩
  · refine ⟨c', hc', hbound, fun hgone => hlive hx hne hpoisoned ?_⟩
    exact (hup'.sane c' (List.mem_of_getElem? hc')).gone hgone a hbound
  · exact absurd hsettled (hlive hx hne hpoisoned)

set_option maxRecDepth 100000 in
/-- The small flock's session is carried by the connection it enrolled on, as
long as nobody hangs up. -/
theorem connection_carries_session_small :
    ∃ s, Server.open_ Small.lifeKey Small.signedGenesis ⟨[], []⟩ ⟨[], []⟩ = .ok s ∧
      let y := ((Service.start s ∅ Small.contentId [.owner]).run Small.enrolls).run
        [.thread 0 (.request .hello (Small.drawing 0))]
      ∃ c, y.conns[0]? = some c ∧ c.bound = some "kk" ∧ c.stage ≠ .gone := by
  obtain ⟨c, hc, hbound⟩ := Option.bind_eq_some_iff.mp Small.carried
  obtain ⟨-, -, hthere⟩ := connection_carries_session Small.lifeTables.idsInjective
    Small.lifeTables.honestVerifies Small.lifeTables.frameLawful Small.lifeTables.refusalLawful rfl
    Small.life_open .refl (Small.lifeTables.endsFit _ _) ∅ Small.contentId [.owner] Small.enrolls
    [.thread 0 (.request .hello (Small.drawing 0))] hc hbound
  exact ⟨Small.life, Small.life_open, hthere Small.lifeSession (by decide +kernel)
    (by intro h; cases h) (by decide +kernel)⟩

/-- **Stopping the service ends what it carried.**  When every thread was waited
for, each session that any connection carried at any moment of the run has ended,
or the server has stopped on a failed append; and whatever is still tried, server
and connections stay as they are. -/
theorem stop_ends_sessions (hinj : P.IdsInjective) (hC : P.toCrypto.HonestVerifies)
    (hframe : P.frameCodec.Lawful) (hrefusal : P.refusalCodec.Lawful)
    {key : AgentKey P.toCrypto} {genesis : SignedGenesis} {s₀ : Server P}
    (htop : genesis.node.payload.serverCert.metadata.caveats = Caveats.top)
    (hopen : Server.open_ key genesis ⟨[], []⟩ ⟨[], []⟩ = .ok s₀) {s : Server P}
    (hrun : World.Run key genesis (.up s₀) (.up s)) (hfit : Server.EndsFit P key genesis.node)
    (rootPaths : BTreeMap String String)
    (contentId : MerkleNode StreamChallenge → Except String ContentId) (classes : List Class)
    (acts acts' : List Service.Act)
    (hstopped : (((Service.start s rootPaths contentId classes).run acts).run acts').stopping =
      .stopped) :
    let x := (Service.start s rootPaths contentId classes).run acts
    let y := x.run acts'
    (∀ (id : ℕ) (c : Conn) (a : String), x.conns[id]? = some c → c.bound = some a →
      (∃ z, y.server.st.sessions.sessions[a]? = some z ∧ z.status = .ended) ∨
        y.server.poisoned = true) ∧
    ∀ more, (y.run more).server = y.server ∧ (y.run more).conns = y.conns := by
  have hs : World.Keeper key genesis [] s := hrun.keeper hinj hC hframe hrefusal htop hopen
  have hup := (Service.start_upheld hs rootPaths contentId classes).run hinj hC hfit acts
  have hup' := hup.run hinj hC hfit acts'
  have hdraining := ((Service.start_draining s rootPaths contentId classes).run acts).run acts'
  intro x y
  refine ⟨fun id c a hc ha => ?_, Service.run_of_stopped hdraining hstopped⟩
  obtain ⟨-, ⟨c', hc', hcarried⟩, -⟩ := (hup.life hc ha).run hinj hC hfit hup acts'
  rcases hcarried with hbound | ⟨-, -, hsettled⟩
  · have hmem := List.mem_of_getElem? hc'
    exact (hup'.sane c' hmem).gone (hdraining.conns hstopped c' hmem) a hbound
  · exact hsettled

set_option maxRecDepth 100000 in
/-- The small flock's session is over when its service was stopped. -/
theorem stop_ends_sessions_small :
    ∃ s, Server.open_ Small.lifeKey Small.signedGenesis ⟨[], []⟩ ⟨[], []⟩ = .ok s ∧
      let y := ((Service.start s ∅ Small.contentId [.owner]).run Small.enrolls).run Small.stops
      y.stopping = .stopped ∧
        ∃ z, y.server.st.sessions.sessions["kk"]? = some z ∧ z.status = .ended := by
  obtain ⟨c, hc, hbound⟩ := Option.bind_eq_some_iff.mp Small.carried
  obtain ⟨hover, -⟩ := stop_ends_sessions Small.lifeTables.idsInjective
    Small.lifeTables.honestVerifies Small.lifeTables.frameLawful Small.lifeTables.refusalLawful rfl
    Small.life_open .refl (Small.lifeTables.endsFit _ _) ∅ Small.contentId [.owner] Small.enrolls
    Small.stops (by decide +kernel)
  refine ⟨Small.life, Small.life_open, by decide +kernel, ?_⟩
  exact (hover 0 c "kk" hc hbound).resolve_right (by decide +kernel)

end Flock
