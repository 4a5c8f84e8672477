/-
Challenges lead to one finish each.

A run of calls is a run of single-use tickets, with the nonces as keys: begin
calls issue them, finish calls redeem them.

* `Turn.lawful` — each call is a lawful turn of tickets;
* `State.Later.live_between` — a session live now was live ever since it was
  enrolled;
* `single_use` — what a log uses once, and what a challenge leads to at most
  once.
-/
import AgentMesh.SingleUse
import AgentMesh.Challenges
import AgentMesh.Tickets

open Std Mesh Framing

namespace Flock

variable {P : Primitives} {g : MerkleNode Genesis}

/-! ### Runs of calls -/

/-- One call of a run, with the server it found. -/
structure Turn (P : Primitives) where
  before : Server P
  call : Call
  io : Io

namespace Turn

def after (t : Turn P) : Server P := (t.before.call t.call t.io).1

def reply (t : Turn P) : Except ServerError Reply := (t.before.call t.call t.io).2

def issued (t : Turn P) : List PossessionChallenge := Server.handedOut t.reply

/-- The challenge the turn finished with success. -/
def finished (t : Turn P) : Option PossessionChallenge :=
  match t.reply with
  | .ok _ => t.call.answers
  | .error _ => none

def ticket (t : Turn P) : Tickets.Turn (BitVec 256) Held where
  before n := t.before.challenges[n]?
  after n := t.after.challenges[n]?
  issued := t.before.issues t.io t.call
  redeemed := t.finished.bind fun c => t.before.challenges[c.nonce]?

theorem issued_eq (t : Turn P) : t.issued = t.ticket.issued.map (·.challenge) := by
  cases hc : t.call.answers with
  | none => exact (t.before.call_issues t.io hc).2
  | some c =>
    obtain ⟨-, hissues, hout⟩ := t.before.call_answers t.io hc
    rw [ticket, hissues]
    exact hout

theorem finished_some {t : Turn P} {c : PossessionChallenge} (h : t.finished = some c) :
    (∃ proof e invite, t.call = .enrollFinish c proof ∧ t.reply = .ok (.enrolled e) ∧
      t.before.challenges[c.nonce]? = some ⟨c, .enroll invite⟩ ∧
      P.verifyStrict c.subjectPubkey c.signingBytes proof = true ∧
      e.cert.agentPubkey = c.subjectPubkey ∧
      e.session = (Fingerprint.ofBytes P.toCrypto c.subjectPubkey).hex P.toCrypto) ∨
    ∃ proof cert session info, t.call = .renewFinish c proof ∧ t.reply = .ok (.cert cert) ∧
      t.before.challenges[c.nonce]? = some ⟨c, .renew session t.before.st.chain.epoch⟩ ∧
      t.before.live session = some info ∧
      P.verifyStrict c.subjectPubkey c.signingBytes proof = true ∧
      cert.agentPubkey = c.subjectPubkey := by
  obtain ⟨s, call, io⟩ := t
  rw [finished] at h
  split at h
  · rename_i r hr
    have hr' := hr
    simp only [reply] at hr'
    cases call with
    | enrollFinish c' proof =>
      cases h
      obtain ⟨e, he, rfl⟩ := Server.returning_ok.mp hr'
      obtain ⟨invite, hheld, hproof, hkey, hsession⟩ := Server.enrollFinish_ok he
      exact .inl ⟨proof, e, invite, rfl, hr, hheld, hproof, hkey, hsession⟩
    | renewFinish c' proof =>
      cases h
      obtain ⟨cert, hcert, rfl⟩ := Server.returning_ok.mp hr'
      obtain ⟨session, info, hheld, hlive, hproof, hkey⟩ := Server.renewFinish_ok hcert
      exact .inr ⟨proof, cert, session, info, rfl, hr, hheld, hlive, hproof, hkey⟩
    | _ => cases h
  · cases h

theorem finished_held {t : Turn P} {c : PossessionChallenge} (h : t.finished = some c) :
    ∃ purpose, t.before.challenges[c.nonce]? = some ⟨c, purpose⟩ ∧ t.call.answers = some c := by
  rcases finished_some h with ⟨_, _, invite, hcall, -, hheld, -⟩ | ⟨_, _, _, _, hcall, -, hheld, -⟩
  · exact ⟨_, hheld, by rw [hcall]; rfl⟩
  · exact ⟨_, hheld, by rw [hcall]; rfl⟩

theorem redeemed_nonce (t : Turn P) :
    t.ticket.redeemed.map (·.challenge.nonce) = t.finished.map (·.nonce) := by
  cases hf : t.finished with
  | none => simp [ticket, hf]
  | some c =>
    obtain ⟨purpose, hheld, -⟩ := finished_held hf
    simp [ticket, hf, hheld]

/-- **Each call is a lawful turn of tickets.** -/
theorem lawful (t : Turn P) : t.ticket.Lawful (·.challenge.nonce) where
  held := by
    intro n h hn
    cases hc : t.call.answers with
    | none =>
      have hafter := (t.before.call_issues t.io hc).1
      rw [show t.ticket.after n = t.after.challenges[n]? from rfl, after, hafter] at hn
      exact get_hold_some hn
    | some c =>
      have hafter := (t.before.call_answers t.io hc).1
      rw [show t.ticket.after n = t.after.challenges[n]? from rfl, after, hafter,
        BTreeMap.get_erase] at hn
      split at hn
      · cases hn
      · exact .inl hn
  taken := by
    intro h hr
    obtain ⟨c, hf, hc⟩ := Option.bind_eq_some_iff.mp hr
    obtain ⟨purpose, hheld, hanswers⟩ := finished_held hf
    rw [hheld, Option.some.injEq] at hc
    subst hc
    refine ⟨hheld, ?_⟩
    have hafter := (t.before.call_answers t.io hanswers).1
    rw [show t.ticket.after c.nonce = t.after.challenges[c.nonce]? from rfl, after, hafter,
      BTreeMap.get_erase, if_pos rfl]

end Turn

def Server.turns : Server P → List (Call × Io) → List (Turn P)
  | _, [] => []
  | s, c :: calls => ⟨s, c.1, c.2⟩ :: turns (s.call c.1 c.2).1 calls

theorem Server.turns_linked (s : Server P) (calls : List (Call × Io)) :
    Tickets.Linked (·.challenge.nonce) (fun n => s.challenges[n]?)
      ((s.turns calls).map Turn.ticket) := by
  induction calls generalizing s with
  | nil => trivial
  | cons c calls ih => exact ⟨rfl, Turn.lawful _, ih _⟩

theorem Server.turns_split {s : Server P} {calls : List (Call × Io)} {pre post : List (Turn P)}
    {t : Turn P} (h : s.turns calls = pre ++ t :: post) :
    ∃ calls', post = t.after.turns calls' := by
  induction pre generalizing s calls with
  | nil =>
    cases calls with
    | nil => cases h
    | cons c calls =>
      cases h
      exact ⟨calls, rfl⟩
  | cons u pre ih =>
    cases calls with
    | nil => cases h
    | cons c calls => exact ih (List.cons.inj h).2

theorem Server.turns_later {s : Server P} {calls : List (Call × Io)} {t : Turn P}
    (h : t ∈ s.turns calls) : State.Later P s.st t.before.st := by
  induction calls generalizing s with
  | nil => cases h
  | cons c calls ih =>
    rcases List.mem_cons.mp h with rfl | h
    · exact .refl
    · exact (s.call_outcome c.1 c.2).does.later.trans (ih h)

theorem Server.turns_ordered {s : Server P} {calls : List (Call × Io)} {pre post : List (Turn P)}
    {t u : Turn P} (h : s.turns calls = pre ++ t :: post) (hu : u ∈ post) :
    State.Later P t.before.st u.before.st := by
  obtain ⟨calls', rfl⟩ := turns_split h
  exact (t.before.call_outcome t.call t.io).does.later.trans (turns_later hu)

/-! ### What holds between two turns -/

theorem State.Takes.epoch_le {st st' : State} {node : MerkleNode Event}
    (h : st.Takes P node st') : st.chain.epoch ≤ st'.chain.epoch := by
  cases h with
  | replayed h =>
    obtain ⟨cert, signer, conflict, hacc, rfl⟩ := State.replay_ok.mp h
    rw [State.after, Chain.advance_epoch, hacc.extend.epoch]
    exact Nat.le_add_right ..
  | committed h =>
    obtain ⟨signer, conflict, hv, -, rfl⟩ := State.prepare_ok.mp h
    rw [State.commit_of hv]
    exact Nat.le_add_right ..

theorem State.Later.epoch_le {st st' : State} (h : State.Later P st st') :
    st.chain.epoch ≤ st'.chain.epoch :=
  h.rel (R := fun s t => s.chain.epoch ≤ t.chain.epoch) (fun _ => Nat.le_refl _)
    (fun hab hbc => hab.trans hbc) (fun hx => hx.epoch_le)

theorem State.Later.known {st st' : State} (h : State.Later P st st') {a : String}
    (ha : a ∈ st.sessions.sessions) : a ∈ st'.sessions.sessions :=
  h.rel (R := fun s t => a ∈ s.sessions.sessions → a ∈ t.sessions.sessions) (fun _ h => h)
    (fun hab hbc h => hbc (hab h)) (fun hx h => by
      obtain ⟨epoch, hstep⟩ := hx.tableStep
      exact hstep.grows.sessions a h) ha

/-- A session that is live at the end of a stretch was live all along it. -/
theorem State.Later.live_between {st u st' : State} (hu : u.sessions.WellFormed)
    (h : State.Later P st u) (h' : State.Later P u st') {a : String}
    (ha : a ∈ st.sessions.sessions) {x' : Session} (hx' : st'.sessions.sessions[a]? = some x')
    (hlive : x'.status ≠ .ended) :
    ∃ x, u.sessions.sessions[a]? = some x ∧ x.status ≠ .ended := by
  obtain ⟨x, hx⟩ := Option.isSome_iff_exists.mp (ExtTreeMap.mem_iff_isSome_getElem?.mp (h.known ha))
  refine ⟨x, hx, fun hended => hlive ?_⟩
  have hclaims : u.sessions.register.claims a = some (x.member, .ended) := by
    rw [Sessions.claims_of hx, hended]
    rfl
  obtain ⟨y, hy, -, hp⟩ := Sessions.claims_some (h'.ended hu hclaims)
  rw [hx'] at hy
  cases hy
  exact (Status.phase_inj (b := .ended)).mp hp

/-! ### The guarantee -/

/-- What a finish of `c` at turn `t` rests on, after the turns `pre`.  The
holder of the subject key made the proof, and the certificate is for that key. -/
inductive Answered (signed : PubKey → Bytes → Prop) (pre : List (Turn P)) (t : Turn P)
    (c : PossessionChallenge) : Prop where
  /-- It was issued by `enroll_begin`, for the key it names. -/
  | enrollment {a b : List (Turn P)} {t₀ : Turn P} {token member : String} {proof : Signature}
      {e : Enrolled} (split : pre = a ++ t₀ :: b) (issued : c ∈ t₀.issued)
      (begun : t₀.call = .enrollBegin token member c.subjectPubkey)
      (finish : t.call = .enrollFinish c proof) (reply : t.reply = .ok (.enrolled e))
      (proved : signed c.subjectPubkey c.signingBytes)
      (certified : e.cert.agentPubkey = c.subjectPubkey)
      (session : e.session = (Fingerprint.ofBytes P.toCrypto c.subjectPubkey).hex P.toCrypto)
  /-- It was issued for a session's renewal; since then the epoch has not moved
  and the session has not ended. -/
  | renewal {a b : List (Turn P)} {t₀ : Turn P} {session : String} {x : Session}
      {proof : Signature} {cert : CertChain} (split : pre = a ++ t₀ :: b) (issued : c ∈ t₀.issued)
      (begun : t₀.call = .renewalChallenges ∨ ∃ last, t₀.call = .renewBegin last ∧
        session = (last.agentFingerprint P.toCrypto).hex P.toCrypto)
      (known : t₀.before.st.sessions.sessions[session]? = some x)
      (key : x.pubkey = c.subjectPubkey)
      (finish : t.call = .renewFinish c proof) (reply : t.reply = .ok (.cert cert))
      (proved : signed c.subjectPubkey c.signingBytes)
      (certified : cert.agentPubkey = c.subjectPubkey)
      (epoch : ∀ u ∈ b ++ [t], u.before.st.chain.epoch = t₀.before.st.chain.epoch)
      (live : ∀ u ∈ b ++ [t], ∃ y, u.before.st.sessions.sessions[session]? = some y ∧
        y.status ≠ .ended)

/-- The turn that issued what a turn redeemed. -/
theorem Server.turns_issued {s : Server P} {calls : List (Call × Io)} (h0 : s.challenges = ∅)
    {pre post : List (Turn P)} {t : Turn P} (hsplit : s.turns calls = pre ++ t :: post)
    {c : PossessionChallenge} {purpose : Purpose} (hf : t.finished = some c)
    (hheld : t.before.challenges[c.nonce]? = some ⟨c, purpose⟩) :
    ∃ a t₀ b, pre = a ++ t₀ :: b ∧ ⟨c, purpose⟩ ∈ t₀.before.issues t₀.io t₀.call ∧
      c ∈ t₀.issued := by
  have hlinked := s.turns_linked calls
  rw [hsplit, List.map_append, List.map_cons] at hlinked
  have hredeemed : t.ticket.redeemed = some ⟨c, purpose⟩ := by
    rw [Turn.ticket, hf]
    exact hheld
  rcases Tickets.redeemed_issued hlinked hredeemed with hstart | ⟨p, u, q, hpre, hmem⟩
  · simp [h0] at hstart
  · obtain ⟨a, rest, rfl, -, hrest⟩ := List.map_eq_append_iff.mp hpre
    obtain ⟨t₀, b, rfl, rfl, -⟩ := List.map_eq_cons_iff.mp hrest
    refine ⟨a, t₀, b, rfl, hmem, ?_⟩
    rw [Turn.issued_eq]
    exact List.mem_map_of_mem hmem

theorem Server.turns_answered {signed : PubKey → Bytes → Prop}
    (hunf : P.toCrypto.Unforgeable signed)
    {s : Server P} {calls : List (Call × Io)} (hs : State.Reached P g s.st)
    (h0 : s.challenges = ∅) {pre post : List (Turn P)} {t : Turn P}
    (hsplit : s.turns calls = pre ++ t :: post) {c : PossessionChallenge}
    (hf : t.finished = some c) : Answered signed pre t c := by
  rcases Turn.finished_some hf with
    ⟨proof, e, invite, hcall, hreply, hheld, hproof, hkey, hsession⟩ |
    ⟨proof, cert, session, info, hcall, hreply, hheld, hlive, hproof, hkey⟩
  · obtain ⟨a, t₀, b, rfl, hissues, hissued⟩ := turns_issued h0 hsplit hf hheld
    obtain ⟨token, member, hbegun⟩ := issues_enroll hissues
    exact .enrollment rfl hissued hbegun hcall hreply (hunf _ _ _ (.inl hproof)) hkey hsession
  · obtain ⟨a, t₀, b, rfl, hissues, hissued⟩ := turns_issued h0 hsplit hf hheld
    obtain ⟨hepoch, ⟨x, hx, -, hpub⟩, hbegun⟩ := issues_renew hissues
    obtain ⟨y, hy, hylive, -⟩ := live_some hlive
    rw [List.append_assoc, List.cons_append] at hsplit
    -- every turn since the issue lies between it and the finish
    have hbetween : ∀ u ∈ b ++ [t], State.Later P t₀.before.st u.before.st ∧
        State.Later P u.before.st t.before.st ∧ u.before.st.sessions.WellFormed := by
      intro u hu
      have hafter : u ∈ b ++ t :: post := by
        rw [List.append_cons]
        exact List.mem_append_left _ hu
      obtain ⟨st₀, hst₀, hreach⟩ := hs
      have hlater := (turns_later (by rw [hsplit]; simp : t₀ ∈ s.turns calls)).trans
        (turns_ordered hsplit hafter)
      refine ⟨turns_ordered hsplit hafter, ?_, State.Reached.table ⟨st₀, hst₀, hreach.trans hlater⟩⟩
      rcases List.mem_append.mp hu with hu | hu
      · obtain ⟨b₁, b₂, rfl⟩ := List.append_of_mem hu
        have hsplit' : s.turns calls = (a ++ t₀ :: b₁) ++ u :: (b₂ ++ t :: post) := by
          rw [hsplit]
          simp
        exact turns_ordered hsplit' (by simp)
      · rw [List.mem_singleton.mp hu]
        exact .refl
    refine .renewal rfl hissued hbegun hx hpub hcall hreply (hunf _ _ _ (.inl hproof)) hkey
      (fun u hu => ?_) fun u hu => ?_
    · obtain ⟨h₁, h₂, -⟩ := hbetween u hu
      exact Nat.le_antisymm (hepoch ▸ h₂.epoch_le) h₁.epoch_le
    · obtain ⟨h₁, h₂, hwf⟩ := hbetween u hu
      exact State.Later.live_between hwf h₁ h₂
        (ExtTreeMap.mem_iff_isSome_getElem?.mpr (by rw [hx]; rfl)) hy hylive

theorem Server.turns_finished_nodup {s : Server P} {calls : List (Call × Io)}
    (h0 : s.challenges = ∅)
    (hnonces : (((s.turns calls).flatMap Turn.issued).map (·.nonce)).Nodup) :
    ((s.turns calls).filterMap Turn.finished).Nodup := by
  have hnonces' : (Tickets.nonces (·.challenge.nonce) ((s.turns calls).map Turn.ticket)).Nodup := by
    have heq : Tickets.nonces (·.challenge.nonce) ((s.turns calls).map Turn.ticket) =
        ((s.turns calls).flatMap Turn.issued).map (·.nonce) := by
      simp only [Tickets.nonces, List.flatMap_map, List.map_flatMap, Turn.issued_eq, List.map_map]
      rfl
    rw [heq]
    exact hnonces
  have hnodup := Tickets.redeemed_nodup (s.turns_linked calls) hnonces'
    (fun n v hv => by simp [h0] at hv)
  rw [List.filterMap_map, List.map_filterMap] at hnodup
  simp only [Function.comp_apply, Turn.redeemed_nonce] at hnodup
  rw [← List.map_filterMap] at hnodup
  exact List.Nodup.of_map _ hnodup

/-- **Single use.**  In every log a follower accepts, an invite is cited by at
most one `session-start`, a verifier is carried by at most one invite, a session
key is enrolled at most once and an approval is consumed by at most one
hand-off.  On a server, over any calls whose challenges have distinct nonces, a
challenge is finished at most once, and only as it was issued for. -/
theorem single_use {signed : PubKey → Bytes → Prop} (hunf : P.toCrypto.Unforgeable signed) :
    (∀ (g : MerkleNode Genesis) (frames : List (List Sealed)) (f : Follower),
      Follower.Reaches P g frames f →
        (frames.flatten.filterMap Sealed.citedInvite).Nodup ∧
        (frames.flatten.filterMap Sealed.verifier).Nodup ∧
        (frames.flatten.filterMap Sealed.startedSession).Nodup ∧
        (frames.flatten.filterMap (Sealed.consumedApproval P)).Nodup) ∧
    ∀ (key : AgentKey P.toCrypto) (genesis : SignedGenesis) (logFile refusalFile : File)
      (s : Server P) (calls : List (Call × Io)),
      Server.open_ key genesis logFile refusalFile = .ok s →
      (((s.turns calls).flatMap Turn.issued).map (·.nonce)).Nodup →
        ((s.turns calls).filterMap Turn.finished).Nodup ∧
        ∀ pre t post c, s.turns calls = pre ++ t :: post → t.finished = some c →
          Answered signed pre t c := by
  refine ⟨fun g frames f h => ?_, fun key genesis lf rf s calls hopen hnonces => ?_⟩
  · have hlog := h.replays.taken
    exact ⟨hlog.invites_once.1, hlog.verifiers_once, hlog.sessions_once.1, hlog.approvals_once.1⟩
  · have hreached := (Server.open_replays hopen).reached
    have h0 : s.challenges = ∅ := by
      obtain ⟨-, -, _, _, _, _, _, _, _, _, _, -, -, -, -, rfl⟩ := Server.open_ok.mp hopen
      rfl
    exact ⟨Server.turns_finished_nodup h0 hnonces,
      fun pre t post c hsplit hf => Server.turns_answered hunf hreached h0 hsplit hf⟩

set_option maxRecDepth 100000 in
/-- Of two enrollments begun with one token, one finishes. -/
theorem single_use_enrolled_twice :
    ∃ s, Server.open_ Small.key Small.signedGenesis ⟨[], []⟩ ⟨[], []⟩ = .ok s ∧
      ((s.turns Small.enrolledTwice).flatMap Turn.issued).map (·.nonce) = [11, 12] ∧
      (s.turns Small.enrolledTwice).filterMap Turn.finished = [Small.challenge 11] ∧
      ∀ pre t post c, s.turns Small.enrolledTwice = pre ++ t :: post → t.finished = some c →
        Answered (Vouched Small.P.toCrypto) pre t c := by
  obtain ⟨s, hopen, hissued, hfinished⟩ :
      ∃ s, Server.open_ Small.key Small.signedGenesis ⟨[], []⟩ ⟨[], []⟩ = .ok s ∧
        ((s.turns Small.enrolledTwice).flatMap Turn.issued).map (·.nonce) = [11, 12] ∧
        (s.turns Small.enrolledTwice).filterMap Turn.finished = [Small.challenge 11] := by
    decide +kernel
  obtain ⟨-, hserver⟩ := single_use (unforgeable_vouched Small.P.toCrypto)
  obtain ⟨-, hanswered⟩ := hserver Small.key Small.signedGenesis ⟨[], []⟩ ⟨[], []⟩ s
    Small.enrolledTwice hopen (by rw [hissued]; decide)
  exact ⟨s, hopen, hissued, hfinished, hanswered⟩

end Flock
