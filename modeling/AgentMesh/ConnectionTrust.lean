/-
What a connection has to show.

A peer that wants to watch the log or to read files proves which session it is,
by a signature over a challenge that the server issued on this connection.  A
challenge is spent by the first proof it is tried with.

* `Service.conns_induction` — induction over what one connection goes through,
  while all the others go on;
* `stream_proofs_fresh` — every proof that is accepted answers a challenge of its
  own connection, which no other proof was accepted for, and is good for no other
  challenge; and only who showed such a proof watches or reads;
* `files_shown_to_members` — what a file request sends.
-/
import AgentMesh.ConnectionLife
import AgentMesh.Tickets

open Std Mesh Framing

namespace Flock

variable {P : Primitives}

/-! ### One connection among all -/

namespace Service

variable {x : Service P}

theorem run_snoc (x : Service P) (acts : List Service.Act) (a : Service.Act) :
    x.run (acts ++ [a]) = (x.run acts).step a := by
  rw [run_append]
  rfl

/-- **Induction over what a connection goes through**: what holds of a new
connection, is kept by whatever happens elsewhere and by each access of its own
thread, holds of every connection after every interleaving. -/
theorem conns_induction (hx : x.conns = []) (Q : List Service.Act → ℕ → Conn → Prop)
    (hnew : ∀ acts id class_, Q acts id (Conn.new class_))
    (hkept : ∀ acts a id c, Q acts id c → Q (acts ++ [a]) id c)
    (haccess : ∀ acts id act c y c', (x.run acts).conns[id]? = some c →
      Access (x.run acts) c act y c' → Q acts id c → Q (acts ++ [.thread id act]) id c') :
    ∀ acts id c, (x.run acts).conns[id]? = some c → Q acts id c := by
  intro acts
  induction acts using List.reverseRecOn with
  | nil =>
    intro id c hc
    rw [run_nil, hx] at hc
    cases hc
  | append_singleton acts a ih =>
    intro id c hc
    rw [run_snoc] at hc
    generalize hy : (x.run acts).step a = y at hc
    have hmove := (x.run acts).step_moves a
    rw [hy] at hmove
    cases hmove with
    | idle | takes | ends | drops | flagged | drained | stopped => exact hkept _ _ _ _ (ih id c hc)
    | accepts k class_ =>
      have hc' : (_ ++ _)[id]? = some c := hc
      rw [List.getElem?_append] at hc'
      split at hc'
      · exact hkept _ _ _ _ (ih id c hc')
      · rw [List.mem_singleton.mp (List.mem_of_getElem? hc')]
        exact hnew _ _ _
    | @accesses id' act d d' z known access =>
      rcases getElem?_set_cases hc with ⟨rfl, rfl⟩ | ⟨-, hold⟩
      · exact haccess acts id act d z c known access (ih id d known)
      · exact hkept _ _ _ _ (ih id c hold)

end Service

/-! ### Challenges and proofs -/

/-- A proof that was accepted. -/
structure Grant where
  conn : ℕ
  challenge : StreamChallenge
  proof : Assertion
  session : String
  deriving DecidableEq

def Req.proof : Req → Option Assertion
  | .watch _ proof => some proof
  | .prove proof => some proof
  | _ => none

namespace Service

/-- The challenge a step issues, and on which connection. -/
def issued (x : Service P) : Service.Act → List (ℕ × StreamChallenge)
  | .thread id (.request .watchBegin io) =>
    if x.conns[id]?.map (·.stage) = some .reading then
      [(id, ⟨x.server.st.board.flock, io.rand 0⟩)]
    else []
  | _ => []

/-- The proof a step accepts. -/
def granted (x : Service P) : Service.Act → Option Grant
  | .thread id (.request req _) => do
    let proof ← req.proof
    let c ← x.conns[id]?
    if c.stage = .reading then
      let ch ← c.challenge
      let session ← (x.authorize c proof).2.toOption
      return ⟨id, ch, proof, session⟩
    else none
  | _ => none

/-- What a run issues, in order. -/
def issues : Service P → List Service.Act → List (ℕ × StreamChallenge)
  | _, [] => []
  | x, a :: acts => x.issued a ++ (x.step a).issues acts

/-- What a run accepts, in order. -/
def grants : Service P → List Service.Act → List Grant
  | _, [] => []
  | x, a :: acts => (x.granted a).toList ++ (x.step a).grants acts

variable {x : Service P} {a : Service.Act} {g : Grant}

theorem authorize_ok {c : Conn} {proof : Assertion} {session : String} :
    (x.authorize c proof).2 = .ok session ↔ ∃ ch id, c.challenge = some ch ∧
      ch.id x.contentId = .ok id ∧ x.server.authorizeStream proof id = .ok session := by
  constructor
  · intro h
    rcases authorize_cases x c proof with ⟨y, e, -, hauth⟩ | ⟨ch, id, session', hch, hid, hs, hauth⟩
    · rw [hauth] at h
      cases h
    · rw [hauth] at h
      cases h
      exact ⟨ch, id, hch, hid, hs⟩
  · rintro ⟨ch, id, hch, hid, hs⟩
    simp only [authorize, hch, hid, with_, hs]

theorem granted_some : x.granted a = some g ↔
    ∃ req io c id, a = .thread g.conn (.request req io) ∧ req.proof = some g.proof ∧
      x.conns[g.conn]? = some c ∧ c.stage = .reading ∧ c.challenge = some g.challenge ∧
      g.challenge.id x.contentId = .ok id ∧
      x.server.authorizeStream g.proof id = .ok g.session := by
  constructor
  · intro h
    unfold granted at h
    split at h
    · rename_i conn req io
      simp only [Option.bind_eq_bind, Option.bind_eq_some_iff] at h
      obtain ⟨proof, hproof, c, hc, h⟩ := h
      split at h
      · rename_i hreading
        simp only [Option.pure_def, Option.bind_eq_some_iff] at h
        obtain ⟨ch, hch, session, hsession, h⟩ := h
        cases h
        have hauth : (x.authorize c proof).2 = .ok session := by
          cases hr : (x.authorize c proof).2 with
          | error e =>
            rw [hr] at hsession
            cases hsession
          | ok session' =>
            rw [hr] at hsession
            cases hsession
            rfl
        obtain ⟨ch', id, hch', hid, hs⟩ := authorize_ok.mp hauth
        rw [hch] at hch'
        cases hch'
        exact ⟨req, io, c, id, rfl, hproof, hc, hreading, hch, hid, hs⟩
      · cases h
    · cases h
  · rintro ⟨req, io, c, id, rfl, hproof, hc, hreading, hch, hid, hs⟩
    have hauth := authorize_ok.mpr ⟨_, id, hch, hid, hs⟩
    simp [granted, hproof, hc, hreading, hch, hauth, Except.toOption]

theorem mem_issued {v : ℕ × StreamChallenge} : v ∈ x.issued a ↔
    ∃ io c, a = .thread v.1 (.request .watchBegin io) ∧ x.conns[v.1]? = some c ∧
      c.stage = .reading ∧ v.2 = ⟨x.server.st.board.flock, io.rand 0⟩ := by
  constructor
  · intro h
    unfold issued at h
    split at h
    · rename_i id io
      split at h
      · rename_i hreading
        obtain ⟨c, hc, hstage⟩ := Option.map_eq_some_iff.mp hreading
        rw [List.mem_singleton.mp h]
        exact ⟨io, c, rfl, hc, hstage, rfl⟩
      · cases h
    · cases h
  · rintro ⟨io, c, rfl, hc, hstage, hv⟩
    simp [issued, hc, hstage, ← hv]

theorem mem_issues {x : Service P} {acts : List Service.Act} {v : ℕ × StreamChallenge} :
    v ∈ x.issues acts ↔ ∃ p b q, acts = p ++ b :: q ∧ v ∈ (x.run p).issued b := by
  induction acts generalizing x with
  | nil => simp [issues]
  | cons a acts ih =>
    rw [issues, List.mem_append, ih]
    constructor
    · rintro (h | ⟨p, b, q, rfl, h⟩)
      · exact ⟨[], a, acts, rfl, h⟩
      · exact ⟨a :: p, b, q, rfl, h⟩
    · rintro ⟨p, b, q, hsplit, h⟩
      cases p with
      | nil =>
        cases hsplit
        exact .inl h
      | cons a' p =>
        cases hsplit
        exact .inr ⟨p, b, q, rfl, h⟩

/-! ### Challenges as tickets -/

/-- The challenge that each connection holds. -/
def held (x : Service P) (at_ : ℕ × BitVec 256) : Option (ℕ × StreamChallenge) :=
  ((x.conns[at_.1]?.bind (·.challenge)).filter fun ch => decide (ch.nonce = at_.2)).map
    fun ch => (at_.1, ch)

/-- The connection and the nonce of a challenge. -/
def ticketNonce (v : ℕ × StreamChallenge) : ℕ × BitVec 256 := (v.1, v.2.nonce)

/-- A step, as a turn of tickets. -/
def turn (x : Service P) (a : Service.Act) :
    Tickets.Turn (ℕ × BitVec 256) (ℕ × StreamChallenge) where
  before := x.held
  after := (x.step a).held
  issued := x.issued a
  redeemed := (x.granted a).map fun g => (g.conn, g.challenge)

theorem held_some {at_ : ℕ × BitVec 256} {v : ℕ × StreamChallenge} :
    x.held at_ = some v ↔
      ticketNonce v = at_ ∧ ∃ c, x.conns[v.1]? = some c ∧ c.challenge = some v.2 := by
  obtain ⟨id, n⟩ := at_
  obtain ⟨id', ch⟩ := v
  rw [held, Option.map_eq_some_iff]
  simp only [Option.filter_eq_some_iff, Option.bind_eq_some_iff, decide_eq_true_eq, ticketNonce,
    Prod.mk.injEq]
  constructor
  · rintro ⟨ch', ⟨⟨c, hc, hch⟩, hn⟩, rfl, rfl⟩
    exact ⟨⟨rfl, hn⟩, c, hc, hch⟩
  · rintro ⟨⟨rfl, hn⟩, c, hc, hch⟩
    exact ⟨ch, ⟨⟨c, hc, hch⟩, hn⟩, rfl, rfl⟩

end Service

theorem Req.proof_some {req : Req} {proof : Assertion} (h : req.proof = some proof) :
    req.ordinary = false ∧ (∀ class_, offered class_ req = true) ∧ req ≠ .watchBegin ∧
      req ≠ .end_ ∧ ∀ root path cited, req ≠ fileReq root path cited := by
  cases req with
  | watch | prove =>
    refine ⟨rfl, fun class_ => by cases class_ <;> rfl, Req.noConfusion, Req.noConfusion, ?_⟩
    intro root path cited
    cases cited <;> exact Req.noConfusion
  | hello | genesis | invite | registerDevice | enrollBegin | enrollFinish | renew | renewFinish
  | head | admitNode | end_ | watchBegin | fileStat | file => cases h

/-- **A proof spends the challenge**, accepted or not. -/
theorem Access.spends {x y : Service P} {c c' : Conn} {req : Req} {io : Io}
    (h : Access x c (.request req io) y c') (hreading : c.stage = .reading) {proof : Assertion}
    (hproof : req.proof = some proof) : c'.challenge = none := by
  obtain ⟨hordinary, hoffered, hbegin, hend, hfile⟩ := Req.proof_some hproof
  generalize hact : ThreadAct.request req io = act at h
  cases h with
  | still unfit =>
    rw [← hact, hreading] at unfit
    cases unfit
  | watched | proved | unproved => rfl
  | declined reading req' closed =>
    cases hact
    rw [hoffered] at closed
    cases closed
  | challenged =>
    cases hact
    exact absurd rfl hbegin
  | farewell | closed =>
    cases hact
    exact absurd rfl hend
  | unread | located =>
    obtain ⟨hreq, -⟩ := ThreadAct.request.inj hact
    exact absurd hreq (hfile _ _ _)
  | handled reading req' io' allowed ordinary =>
    cases hact
    rw [hordinary] at ordinary
    cases ordinary
  | hungUp | read | panicked | placed | worked | cancelled | recorded | recordedLast | wrote | left
  | lost => cases hact

theorem Access.challenge {x y : Service P} {c c' : Conn} {act : ThreadAct}
    (h : Access x c act y c') : c'.challenge = c.challenge ∨ c'.challenge = none ∨
      ∃ io, act = .request .watchBegin io ∧ c.stage = .reading ∧
        c'.challenge = some ⟨x.server.st.board.flock, io.rand 0⟩ := by
  cases h with
  | challenged reading io => exact .inr (.inr ⟨io, rfl, reading, rfl⟩)
  | watched | proved | unproved => exact .inr (.inl rfl)
  | placed | worked =>
    refine .inl ?_
    rw [Conn.follow]
    split <;> rfl
  | still | declined | unread | located | farewell | closed | handled | hungUp | read | panicked
  | cancelled | recorded | recordedLast | wrote | left | lost => exact .inl rfl

namespace Service

variable {x : Service P}

/-- **A step is a lawful turn**: what a connection holds it held before or got
now, and what is accepted is taken from it. -/
theorem turn_lawful (x : Service P) (a : Service.Act) : (x.turn a).Lawful ticketNonce where
  held {at_ v} h := by
    obtain ⟨hn, d, hd, hch⟩ := held_some.mp (show (x.step a).held at_ = some v from h)
    have hsame : (∃ c, x.conns[v.1]? = some c ∧ c.challenge = some v.2) →
        x.held at_ = some v := fun hc => held_some.mpr ⟨hn, hc⟩
    generalize hy : x.step a = y at hd
    have hmove := x.step_moves a
    rw [hy] at hmove
    cases hmove with
    | idle | takes | ends | drops | flagged | drained | stopped => exact .inl (hsame ⟨d, hd, hch⟩)
    | accepts k class_ =>
      have hd' : (_ ++ _)[v.1]? = some d := hd
      rw [List.getElem?_append] at hd'
      split at hd'
      · exact .inl (hsame ⟨d, hd', hch⟩)
      · rw [List.mem_singleton.mp (List.mem_of_getElem? hd')] at hch
        cases hch
    | @accesses id act c c' z known access =>
      rcases getElem?_set_cases hd with ⟨hid, rfl⟩ | ⟨-, hold⟩
      · rw [← hid] at known
        rcases access.challenge with hkept | hspent | ⟨io, rfl, hreading, hnew⟩
        · exact .inl (hsame ⟨c, known, hkept ▸ hch⟩)
        · rw [hspent] at hch
          cases hch
        · rw [hnew] at hch
          have hv := (Option.some.inj hch).symm
          have hmem : v ∈ x.issued (.thread id (.request .watchBegin io)) :=
            mem_issued.mpr ⟨io, c, by rw [hid], known, hreading, hv⟩
          exact .inr ⟨hmem, hn⟩
      · exact .inl (hsame ⟨d, hold, hch⟩)
  taken {v} h := by
    obtain ⟨g, hg, rfl⟩ := Option.map_eq_some_iff.mp (show (x.granted a).map _ = some v from h)
    obtain ⟨req, io, c, id, rfl, hproof, hc, hreading, hch, hid, hs⟩ := granted_some.mp hg
    refine ⟨held_some.mpr ⟨rfl, c, hc, hch⟩, ?_⟩
    obtain ⟨y, c', haccess, hstep⟩ := step_thread hc (.request req io)
    have hspent := haccess.spends hreading hproof
    show (x.step (.thread g.conn (.request req io))).held _ = none
    rw [hstep, Option.eq_none_iff_forall_not_mem]
    intro v hv
    obtain ⟨hn, d, hd, hdch⟩ := held_some.mp hv
    have hconn : v.1 = g.conn := congrArg Prod.fst hn
    rcases getElem?_set_cases hd with ⟨-, rfl⟩ | ⟨hne, -⟩
    · rw [hspent] at hdch
      cases hdch
    · exact hne hconn

def turns : Service P → List Service.Act →
    List (Tickets.Turn (ℕ × BitVec 256) (ℕ × StreamChallenge))
  | _, [] => []
  | x, a :: acts => x.turn a :: (x.step a).turns acts

theorem turns_linked (x : Service P) (acts : List Service.Act) :
    Tickets.Linked ticketNonce x.held (x.turns acts) := by
  induction acts generalizing x with
  | nil => trivial
  | cons a acts ih => exact ⟨rfl, turn_lawful x a, ih _⟩

theorem turns_append (x : Service P) (acts acts' : List Service.Act) :
    x.turns (acts ++ acts') = x.turns acts ++ (x.run acts).turns acts' := by
  induction acts generalizing x with
  | nil => rfl
  | cons a acts ih =>
    rw [List.cons_append, turns, turns, ih]
    rfl

theorem nonces_turns (x : Service P) (acts : List Service.Act) :
    Tickets.nonces ticketNonce (x.turns acts) = (x.issues acts).map ticketNonce := by
  induction acts generalizing x with
  | nil => rfl
  | cons a acts ih =>
    rw [turns, Tickets.nonces_cons, ih, issues, List.map_append]
    rfl

theorem redeemed_turns (x : Service P) (acts : List Service.Act) :
    (x.turns acts).filterMap Tickets.Turn.redeemed =
      (x.grants acts).map fun g => (g.conn, g.challenge) := by
  induction acts generalizing x with
  | nil => rfl
  | cons a acts ih =>
    rw [turns, grants, List.map_append, ← ih]
    cases hg : x.granted a with
    | none => rw [List.filterMap_cons_none (by rw [turn, hg]; rfl)]; rfl
    | some g => rw [List.filterMap_cons_some (by rw [turn, hg]; rfl)]; rfl

theorem turns_split {acts : List Service.Act}
    {p q : List (Tickets.Turn (ℕ × BitVec 256) (ℕ × StreamChallenge))}
    {u : Tickets.Turn (ℕ × BitVec 256) (ℕ × StreamChallenge)} (h : x.turns acts = p ++ u :: q) :
    ∃ pre a post, acts = pre ++ a :: post ∧ u = (x.run pre).turn a := by
  induction acts generalizing x p with
  | nil => simp [turns] at h
  | cons a acts ih =>
    cases p with
    | nil =>
      rw [turns, List.nil_append, List.cons.injEq] at h
      exact ⟨[], a, acts, rfl, h.1.symm⟩
    | cons t p =>
      rw [turns, List.cons_append, List.cons.injEq] at h
      obtain ⟨pre, b, post, rfl, hu⟩ := ih h.2
      exact ⟨a :: pre, b, post, rfl, hu⟩

end Service

/-! ### Who watches and who reads -/

def Stage.watcher : Stage → Option String
  | .opening session _ => some session
  | .streaming k => some k.session
  | _ => none

/-- The connection acts for `session`: it showed that it is, or streams to it. -/
def Conn.Uses (c : Conn) (session : String) : Prop :=
  c.proven = some session ∨ c.stage.watcher = some session

theorem Service.answered_watcher (result : Except ServerError Answer) (more : Bool) :
    (Service.answered result more).watcher = none := by
  unfold Service.answered
  split
  · rfl
  · split <;> rfl

theorem Conn.follow_uses {c : Conn} {k : Worker} {session : String}
    (h : (c.follow k).Uses session) : c.proven = some session ∨ k.session = session := by
  rw [Conn.follow] at h
  split at h
  · rcases h with h | h
    · exact .inl h
    · cases h
  · exact h.imp_right Option.some.inj

theorem stream_session (P : Primitives) (frames : List Published) (session : String)
    (from_ : Option Head) (w : Sock) : (stream P frames session from_ w).session = session := by
  rw [stream]
  split <;> rfl

theorem Worker.step_session (k : Worker) (s : Server P) (stopped : Bool) (w w' : Sock) :
    (k.step s stopped w w').session = k.session := by
  rw [Worker.step]
  split <;> rfl

/-- **A connection acts for a session only after a proof.** -/
theorem Access.uses {x y : Service P} {c c' : Conn} {act : ThreadAct} (h : Access x c act y c')
    {session : String} (huses : c'.Uses session) : c.Uses session ∨
      ∃ req io proof ch id, act = .request req io ∧ req.proof = some proof ∧ c.stage = .reading ∧
        c.challenge = some ch ∧ ch.id x.contentId = .ok id ∧
        x.server.authorizeStream proof id = .ok session := by
  -- a stage that streams to nobody leaves what was shown before
  have hidle : c'.proven = c.proven → c'.stage.watcher = none → c.Uses session := by
    intro hproven hwatcher
    rcases huses with hshown | hstage
    · exact .inl (hproven ▸ hshown)
    · rw [hwatcher] at hstage
      cases hstage
  cases h with
  | still => exact .inl huses
  | declined | challenged | unproved | unread | located | farewell | hungUp | read | panicked
  | recorded | recordedLast | left => exact .inl (hidle rfl rfl)
  | closed | handled => exact .inl (hidle rfl (Service.answered_watcher _ _))
  | wrote answer more answering w =>
    refine .inl (hidle rfl ?_)
    show (if w = .done ∧ more = true then Stage.reading else .leaving).watcher = none
    split <;> rfl
  | lost leaving session' bound io ends =>
    refine .inl (hidle rfl ?_)
    rcases ends with rfl | ⟨e, -, rfl, -⟩ <;> rfl
  | watched reading from_ proof ch id session' held named shown =>
    rcases huses with hshown | hstage
    · exact .inl (.inl hshown)
    · cases hstage
      exact .inr ⟨_, _, proof, ch, id, rfl, rfl, reading, held, named, shown⟩
  | proved reading proof ch id session' held named shown =>
    rcases huses with hshown | hstage
    · cases hshown
      exact .inr ⟨_, _, proof, ch, id, rfl, rfl, reading, held, named, shown⟩
    · cases hstage
  | placed session' from_ opening w =>
    refine .inl ((Conn.follow_uses huses).imp_right fun hk => ?_)
    rw [stream_session] at hk
    rw [opening, ← hk]
    rfl
  | worked k streaming w w' =>
    refine .inl ((Conn.follow_uses huses).imp_right fun hk => ?_)
    rw [Worker.step_session] at hk
    rw [streaming, ← hk]
    rfl
  | cancelled k streaming =>
    refine .inl (huses.imp_right fun hk => ?_)
    rw [streaming]
    exact hk

/-- Every proof that is accepted is for a challenge issued on its connection. -/
theorem Service.granted_issued {x : Service P} (hempty : ∀ at_, x.held at_ = none)
    {pre : List Service.Act} {a : Service.Act} {g : Grant} (hg : (x.run pre).granted a = some g) :
    ∃ p b q, pre = p ++ b :: q ∧ (g.conn, g.challenge) ∈ (x.run p).issued b := by
  have hlinked := x.turns_linked (pre ++ [a])
  rw [Service.turns_append] at hlinked
  have hredeemed : ((x.run pre).turn a).redeemed = some (g.conn, g.challenge) := by
    rw [Service.turn, hg]
    rfl
  -- the library: a redeemed ticket was issued by an earlier turn
  rcases Tickets.redeemed_issued hlinked hredeemed with hstart | ⟨p, u, q, hsplit, hmem⟩
  · rw [hempty] at hstart
    cases hstart
  · obtain ⟨p', b, q', rfl, rfl⟩ := Service.turns_split hsplit
    exact ⟨p', b, q', rfl, hmem⟩

/-- Who watches or reads files has shown a proof on that connection. -/
theorem Service.uses_granted {x : Service P} (hx : x.conns = []) {acts : List Service.Act}
    {id : ℕ} {c : Conn} {session : String} (hc : (x.run acts).conns[id]? = some c)
    (huses : c.Uses session) :
    ∃ pre a post g, acts = pre ++ a :: post ∧ (x.run pre).granted a = some g ∧ g.conn = id ∧
      g.session = session := by
  refine Service.conns_induction hx (fun acts id c => ∀ session, c.Uses session →
    ∃ pre a post g, acts = pre ++ a :: post ∧ (x.run pre).granted a = some g ∧ g.conn = id ∧
      g.session = session) ?_ ?_ ?_ acts id c hc session huses
  · rintro acts id class_ session (h | h) <;> cases h
  · intro acts a id c ih session huses
    obtain ⟨pre, b, post, g, rfl, hg⟩ := ih session huses
    exact ⟨pre, b, post ++ [a], g, by simp, hg⟩
  · intro acts id act c y c' hc haccess ih session huses
    rcases haccess.uses huses with
      hbefore | ⟨req, io, proof, ch, cid, rfl, hproof, hreading, hch, hcid, hshown⟩
    · obtain ⟨pre, b, post, g, rfl, hg⟩ := ih session hbefore
      exact ⟨pre, b, post ++ [.thread id act], g, by simp, hg⟩
    · refine ⟨acts, _, [], ⟨id, ch, proof, session⟩, rfl, ?_, rfl, rfl⟩
      exact Service.granted_some.mpr
        ⟨req, io, c, cid, rfl, hproof, hc, hreading, hch, hcid, hshown⟩

theorem StreamChallenge.id_inj
    {contentId : MerkleNode StreamChallenge → Except String ContentId}
    (hid : ∀ a b id, contentId a = .ok id → contentId b = .ok id → a = b)
    {c d : StreamChallenge} {id : ContentId} (hc : c.id contentId = .ok id)
    (hd : d.id contentId = .ok id) : c = d :=
  congrArg MerkleNode.payload (hid _ _ id (mapError_ok.mp hc) (mapError_ok.mp hd))

/-- No signature is good for two of the challenges. -/
def SignsOne (P : Primitives) (contentId : MerkleNode StreamChallenge → Except String ContentId)
    (challenges : List StreamChallenge) : Prop :=
  ∀ c ∈ challenges, ∀ d ∈ challenges, ∀ i j, c.id contentId = .ok i → d.id contentId = .ok j →
    ∀ key sig, P.verifyStrict key (message i) sig = true →
      P.verifyStrict key (message j) sig = true → i = j

/-- **Proofs are fresh.**  Serve any server on any sockets, with content ids that
tell stream challenges apart, and let its threads interleave in any way.  Every
proof that is accepted signs the id of a challenge that was issued earlier on the
same connection, which is the id of no other challenge, and is by a session that
may stream at that moment.  If no signature is good for two of the challenges
issued, the proof is accepted for no other of them, by no server at no time.  If no
connection is issued a nonce twice, no challenge is accepted for twice.  And a
connection watches or reads files as a session only after such a proof of that
session on it. -/
theorem stream_proofs_fresh (s : Server P) (rootPaths : BTreeMap String String)
    {contentId : MerkleNode StreamChallenge → Except String ContentId}
    (hid : ∀ a b id, contentId a = .ok id → contentId b = .ok id → a = b)
    (classes : List Class) (acts : List Service.Act) :
    let x := Service.start s rootPaths contentId classes
    (∀ pre a post g, acts = pre ++ a :: post → (x.run pre).granted a = some g →
      (∃ p b q, pre = p ++ b :: q ∧ (g.conn, g.challenge) ∈ (x.run p).issued b) ∧
      (∃ id, g.challenge.id contentId = .ok id ∧
        (∀ c : StreamChallenge, c.id contentId = .ok id → c = g.challenge) ∧
        P.verifyStrict g.proof.author.agentPubkey (message id) g.proof.sig = true ∧
        (x.run pre).server.authorizeStream g.proof id = .ok g.session ∧
        g.session ∈ (x.run pre).server.st.eligible) ∧
      (SignsOne P contentId ((x.issues acts).map (·.2)) →
        ∀ v ∈ x.issues acts, v.2 ≠ g.challenge → ∀ (t : Server P) id session,
          v.2.id contentId = .ok id → t.authorizeStream g.proof id ≠ .ok session)) ∧
    (((x.issues acts).map fun v => (v.1, v.2.nonce)).Nodup →
      ((x.grants acts).map fun g => (g.conn, g.challenge.nonce)).Nodup) ∧
    ∀ id c session, (x.run acts).conns[id]? = some c → c.Uses session →
      ∃ pre a post g, acts = pre ++ a :: post ∧ (x.run pre).granted a = some g ∧ g.conn = id ∧
        g.session = session := by
  intro x
  have hempty : ∀ at_, x.held at_ = none := fun _ => rfl
  refine ⟨fun pre a post g hacts hg => ?_, fun hnodup => ?_, ?_⟩
  · have hissued := Service.granted_issued hempty hg
    obtain ⟨req, io, c, id, -, -, -, -, -, hgid, hshown⟩ := Service.granted_some.mp hg
    rw [(x.run_fixed pre).2] at hgid
    have hsigned := Server.authorizeStream_signed hshown
    refine ⟨hissued, ⟨id, hgid, fun c hc => StreamChallenge.id_inj hid hc hgid, hsigned, hshown,
      Server.authorizeStream_eligible hshown⟩, ?_⟩
    intro hone v hv hne t id' session hv' hother
    have hmem : g.challenge ∈ (x.issues acts).map (·.2) := by
      obtain ⟨p, b, q, rfl, hb⟩ := hissued
      refine List.mem_map.mpr ⟨(g.conn, g.challenge), Service.mem_issues.mpr ?_, rfl⟩
      exact ⟨p, b, q ++ a :: post, by rw [hacts]; simp, hb⟩
    have hsame := hone _ (List.mem_map_of_mem hv) _ hmem id' id hv' hgid _ _
      (Server.authorizeStream_signed hother) hsigned
    exact hne (StreamChallenge.id_inj hid (hsame ▸ hv') hgid)
  · have hredeemed := Tickets.redeemed_nodup (x.turns_linked acts)
      (by rw [Service.nonces_turns]; exact hnodup)
      (fun n v hv => by rw [hempty] at hv; cases hv)
    rw [Service.redeemed_turns, List.map_map] at hredeemed
    exact hredeemed
  · exact fun id c session hc huses => Service.uses_granted rfl hc huses

namespace Small

/-- Key 2's session shows that it is on the connection, by the challenge with
nonce 7. -/
noncomputable def membership : Assertion := ⟨sessionCert 2 "h" 0, mark 2 (message ⟨[6, 0]⟩)⟩

/-- It asks for a challenge, -/
noncomputable def asks : List Service.Act :=
  enrolls ++ [.thread 0 (.request .watchBegin (drawing 7)), .thread 0 (.write .done)]

/-- and answers it. -/
noncomputable def proves : List Service.Act :=
  asks ++ [.thread 0 (.request (.prove membership) (drawing 0))]

/-- It asks for another one, and shows the same proof. -/
noncomputable def reuses : List Service.Act :=
  asks ++ .thread 0 (.request (.prove membership) (drawing 0)) ::
    [.thread 0 (.write .done), .thread 0 (.request .watchBegin (drawing 8)),
      .thread 0 (.write .done), .thread 0 (.request (.prove membership) (drawing 0))]

theorem contentId_inj (a b : MerkleNode StreamChallenge) (id : ContentId)
    (ha : contentId a = .ok id) (hb : contentId b = .ok id) : a = b := by
  have h := congrArg ContentId.bytes (Except.ok.inj (ha.trans hb.symm))
  exact tabled_injective _ (List.cons.inj h).2

theorem digest_of_mark {key : BitVec 256} {m m' : Bytes} (h : mark key m = mark key m')
    (hm : digest m < 2 ^ 256) (hm' : digest m' < 2 ^ 256) : digest m = digest m' := by
  have hkey := key.isLt
  have hnat := congrArg BitVec.toNat h
  rw [mark, mark, BitVec.toNat_ofNat, BitVec.toNat_ofNat, Nat.mod_eq_of_lt (by omega),
    Nat.mod_eq_of_lt (by omega)] at hnat
  exact Nat.add_left_cancel hnat

set_option maxRecDepth 100000 in
theorem signsOne_challenges :
    SignsOne lifeTables.primitives contentId [⟨gid, 7⟩, ⟨gid, 8⟩] := by
  have hseven : (⟨gid, 7⟩ : StreamChallenge).id contentId = .ok ⟨[6, 0]⟩ := by decide +kernel
  have height : (⟨gid, 8⟩ : StreamChallenge).id contentId = .ok ⟨[6, 0, 0]⟩ := by decide +kernel
  have hone : ∀ key sig, lifeTables.primitives.verifyStrict key (message ⟨[6, 0]⟩) sig = true →
      lifeTables.primitives.verifyStrict key (message ⟨[6, 0, 0]⟩) sig = true → False := by
    intro key sig hsig hsig'
    have hmark := (of_decide_eq_true hsig).symm.trans (of_decide_eq_true hsig')
    exact absurd (digest_of_mark hmark (by decide +kernel) (by decide +kernel)) (by decide +kernel)
  intro c hc d hd i j hi hj key sig hsig hsig'
  simp only [List.mem_cons, List.not_mem_nil, or_false] at hc hd
  rcases hc with rfl | rfl <;> rcases hd with rfl | rfl
  · exact Except.ok.inj (hi.symm.trans hj)
  · cases hseven.symm.trans hi
    cases height.symm.trans hj
    exact (hone key sig hsig hsig').elim
  · cases height.symm.trans hi
    cases hseven.symm.trans hj
    exact (hone key sig hsig' hsig).elim
  · exact Except.ok.inj (hi.symm.trans hj)

end Small

set_option maxRecDepth 100000 in
/-- The small flock's session shows that it is, by a challenge of its connection;
its proof is not good for the next challenge of the connection. -/
theorem stream_proofs_fresh_small :
    ∃ s, Server.open_ Small.lifeKey Small.signedGenesis ⟨[], []⟩ ⟨[], []⟩ = .ok s ∧
      let x := Service.start s ∅ Small.contentId [.owner]
      ((x.grants Small.reuses).map fun g => (g.conn, g.challenge.nonce)).Nodup ∧
      ∃ pre a post g, Small.reuses = pre ++ a :: post ∧ (x.run pre).granted a = some g ∧
        g.conn = 0 ∧ g.session = "kk" ∧
        (∃ p b q, pre = p ++ b :: q ∧ (g.conn, g.challenge) ∈ (x.run p).issued b) ∧
        ∀ session, (x.run Small.reuses).server.authorizeStream g.proof ⟨[6, 0, 0]⟩ ≠
          .ok session := by
  obtain ⟨s₀, hopen, hg, hissues⟩ :
      ∃ s, Server.open_ Small.lifeKey Small.signedGenesis ⟨[], []⟩ ⟨[], []⟩ = .ok s ∧
        let x := Service.start s ∅ Small.contentId [.owner]
        (x.run Small.asks).granted
            (.thread 0 (.request (.prove Small.membership) (Small.drawing 0))) =
          some ⟨0, ⟨Small.gid, 7⟩, Small.membership, "kk"⟩ ∧
        x.issues Small.reuses = [(0, ⟨Small.gid, 7⟩), (0, ⟨Small.gid, 8⟩)] := by
    decide +kernel
  obtain ⟨hgranted, hnodup, -⟩ :=
    stream_proofs_fresh s₀ ∅ Small.contentId_inj [.owner] Small.reuses
  obtain ⟨hissued, -, hother⟩ := hgranted _ _ _ _ rfl hg
  refine ⟨s₀, hopen, hnodup ?_, _, _, _, _, rfl, hg, rfl, rfl, hissued, fun session => ?_⟩
  · rw [hissues]
    decide
  · rw [hissues] at hother
    exact hother Small.signsOne_challenges (0, ⟨Small.gid, 8⟩) (by simp) (by decide) _ _ session
      (by decide +kernel)

/-! ### Files -/

section Files

variable (x : Service P)

/-- Connection `id` was told, after `acts`, that `path` under `dir` is to be read:
its session showed that it is, may read files then, and `dir` is the root's. -/
def Located (acts : List Service.Act) (id : ℕ) (dir path : String) (cited : Option RawContentId) :
    Prop :=
  ∃ pre root io post c session,
    acts = pre ++ .thread id (.request (fileReq root path cited) io) :: post ∧
    (x.run pre).conns[id]? = some c ∧ c.proven = some session ∧
    (x.run pre).server.sessionMayRead session = true ∧
    (x.run pre).server.rootDir (x.run pre).rootPaths root = some dir

/-- Connection `id` is to be shown `bytes`: they were read where it was told. -/
def Shown (acts : List Service.Act) (id : ℕ) (bytes : Bytes) : Prop :=
  ∃ pre file post dir path cited, acts = pre ++ .thread id (.readFile file) :: post ∧
    Located x pre id dir path (some cited) ∧ file dir path = .ok bytes ∧ P.rawId bytes = cited

variable {x} {acts : List Service.Act} {id : ℕ}

theorem Located.snoc {dir path : String} {cited : Option RawContentId}
    (h : Located x acts id dir path cited) (a : Service.Act) :
    Located x (acts ++ [a]) id dir path cited := by
  obtain ⟨pre, root, io, post, c, session, rfl, h⟩ := h
  exact ⟨pre, root, io, post ++ [a], c, session, by simp, h⟩

theorem Shown.snoc {bytes : Bytes} (h : Shown x acts id bytes) (a : Service.Act) :
    Shown x (acts ++ [a]) id bytes := by
  obtain ⟨pre, file, post, dir, path, cited, rfl, h⟩ := h
  exact ⟨pre, file, post ++ [a], dir, path, cited, by simp, h⟩

def Stage.answer : Stage → Option Answer
  | .failing _ (some (answer, _)) => some answer
  | .answering answer _ => some answer
  | _ => none

/-- What a connection holds and has sent, by the file requests that led to it. -/
structure Conn.Honest (x : Service P) (acts : List Service.Act) (id : ℕ) (c : Conn) : Prop where
  locating : ∀ dir path cited, c.stage = .locating dir path cited →
    Located x acts id dir path cited
  answer : ∀ bytes, c.stage.answer = some (.file bytes) → Shown x acts id bytes
  sent : ∀ bytes, .file bytes ∈ c.sent → Shown x acts id bytes

theorem Conn.Honest.snoc {c : Conn} (h : c.Honest x acts id) (a : Service.Act) :
    c.Honest x (acts ++ [a]) id where
  locating dir path cited hstage := (h.locating dir path cited hstage).snoc a
  answer bytes hstage := (h.answer bytes hstage).snoc a
  sent bytes hsent := (h.sent bytes hsent).snoc a

theorem Conn.follow_file {c : Conn} {k : Worker} {bytes : Bytes}
    (h : Answer.file bytes ∈ (c.follow k).sent) : Answer.file bytes ∈ c.sent := by
  rw [Conn.follow] at h
  split at h
  · rcases List.mem_append.mp h with h | h
    · exact h
    · obtain ⟨r, -, hr⟩ := List.mem_map.mp h
      cases hr
  · exact h

/-- A stage that has neither a place to read nor a file to send. -/
theorem Conn.Honest.idle {c c' : Conn} (h : c.Honest x acts id)
    (hsent : ∀ bytes, Answer.file bytes ∈ c'.sent → Answer.file bytes ∈ c.sent)
    (hstage : ∀ dir path cited, c'.stage ≠ .locating dir path cited)
    (hanswer : ∀ bytes, c'.stage.answer ≠ some (.file bytes)) : c'.Honest x acts id where
  locating dir path cited hloc := absurd hloc (hstage dir path cited)
  answer bytes hans := absurd hans (hanswer bytes)
  sent bytes hmem := h.sent bytes (hsent bytes hmem)

theorem fileAnswer_file {cited : Option RawContentId} {read : Except String Bytes} {bytes : Bytes}
    (h : fileAnswer P cited read = .file bytes) :
    read = .ok bytes ∧ cited = some (P.rawId bytes) := by
  unfold fileAnswer at h
  split at h
  · cases h
  · split at h
    · cases h
    · split at h
      · rename_i hid
        cases h
        exact ⟨rfl, by rw [hid]⟩
      · cases h

theorem handle_no_file (s : Server P) (req : Req) (bound : Option String) (io : Io)
    (bytes : Bytes) :
    (handle s req bound io).result ≠ .ok (.file bytes) := by
  intro h
  cases req with
  | hello | genesis | head | end_ | watchBegin | watch | prove | fileStat | file => cases h
  | invite | registerDevice | renewFinish | admitNode =>
    obtain ⟨_, -, hanswer⟩ := Server.returning_ok.mp h
    cases hanswer
  | enrollBegin =>
    cases bound with
    | some a => cases h
    | none =>
      obtain ⟨_, -, hanswer⟩ := Server.returning_ok.mp h
      cases hanswer
  | enrollFinish challenge proof =>
    cases bound with
    | some a => cases h
    | none =>
      rw [handle] at h
      generalize s.enrollFinish challenge proof io = r at h
      obtain ⟨s', r⟩ := r
      cases r <;> cases h
  | renew last =>
    have h' : (s.renewOrCurrent last io).2 = .ok (.file bytes) := h
    rw [Server.renewOrCurrent] at h'
    have hchallenge : ∀ {r : Server P × Except ServerError PossessionChallenge},
        (Server.returning Answer.challenge r).2 ≠ .ok (Answer.file bytes) := by
      intro r hr
      obtain ⟨_, -, hanswer⟩ := Server.returning_ok.mp hr
      cases hanswer
    split at h'
    · split at h'
      · cases h'
      · exact hchallenge h'
    · exact hchallenge h'

theorem Service.answered_answer {result : Except ServerError Answer} {more : Bool} {answer : Answer}
    (h : (Service.answered result more).answer = some answer) :
    result = .ok answer ∨ ∃ why, answer = .err why := by
  unfold Service.answered at h
  split at h
  · cases h
    exact .inl rfl
  · split at h <;> (cases h; exact .inr ⟨_, rfl⟩)

theorem Service.answered_not_locating (result : Except ServerError Answer) (more : Bool)
    (dir path : String) (cited : Option RawContentId) :
    Service.answered result more ≠ .locating dir path cited := by
  unfold Service.answered
  split
  · exact Stage.noConfusion
  · split <;> exact Stage.noConfusion

/-- **An access sends and holds only what it may.** -/
theorem Access.honest {c c' : Conn} {act : ThreadAct} {y : Service P}
    (hc : (x.run acts).conns[id]? = some c) (h : Access (x.run acts) c act y c')
    (hbefore : c.Honest x acts id) : c'.Honest x (acts ++ [.thread id act]) id := by
  have hold := hbefore.snoc (.thread id act)
  cases h with
  | still => exact hold
  | declined | challenged | watched | proved | unproved | farewell | hungUp | panicked | cancelled
  | recordedLast | left =>
    refine hold.idle (fun _ h => h) ?_ ?_ <;> intros <;> (intro h; cases h)
  | unread reading answer empty =>
    refine hold.idle (fun _ h => h) ?_ ?_
    · intros
      intro h
      cases h
    · intro bytes h
      exact empty bytes (Option.some.inj h)
  | closed reading session bound io =>
    refine hold.idle (fun _ h => h) (Service.answered_not_locating _ _) fun bytes h => ?_
    rcases Service.answered_answer h with hresult | ⟨why, hwhy⟩
    · cases hr : ((x.run acts).server.endSession session .closed io).2 <;> rw [hr] at hresult <;>
        cases hresult
    · cases hwhy
  | handled reading req io =>
    refine hold.idle (fun _ h => h) (Service.answered_not_locating _ _) fun bytes h => ?_
    rcases Service.answered_answer h with hresult | ⟨why, hwhy⟩
    · exact handle_no_file _ _ _ _ _ hresult
    · cases hwhy
  | placed | worked =>
    refine hold.idle (fun bytes => Conn.follow_file) ?_ ?_
    · intro dir path cited h
      rcases c.follow_stage _ with hstage | hstage <;> rw [hstage] at h <;> cases h
    · intro bytes h
      rcases c.follow_stage _ with hstage | hstage <;> rw [hstage] at h <;> cases h
  | located reading session root dir path cited proven may mapped =>
    refine ⟨fun dir' path' cited' h => ?_, fun bytes h => ?_, hold.sent⟩
    · cases h
      exact ⟨acts, root, _, [], c, session, rfl, hc, proven, may, mapped⟩
    · cases h
  | read dir path cited locating file =>
    refine ⟨fun dir' path' cited' h => Stage.noConfusion h, fun bytes h => ?_, hold.sent⟩
    obtain ⟨hread, rfl⟩ := fileAnswer_file (Option.some.inj h)
    exact ⟨acts, file, [], dir, path, _, rfl, hbefore.locating dir path _ locating, hread, rfl⟩
  | recorded why answer more failing =>
    refine ⟨fun dir' path' cited' h => Stage.noConfusion h, fun bytes h => hold.answer bytes ?_,
      hold.sent⟩
    rw [failing]
    exact h
  | wrote answer more answering w =>
    have hstage : ∀ {stage : Stage}, (if w = .done ∧ more = true then Stage.reading else .leaving) =
        stage → stage = .reading ∨ stage = .leaving := by
      intro stage h
      split at h
      · exact .inl h.symm
      · exact .inr h.symm
    refine ⟨fun dir path cited h => ?_, fun bytes h => ?_, fun bytes h => ?_⟩
    · rcases hstage h with h | h <;> cases h
    · rcases hstage rfl with hs | hs <;> rw [hs] at h <;> cases h
    · rcases List.mem_append.mp h with h | h
      · exact hold.sent bytes h
      · -- the answer that is written now
        split at h
        · cases h
        · refine hold.answer bytes ?_
          rw [answering, List.mem_singleton.mp h]
          rfl
  | lost leaving session bound io ends =>
    refine hold.idle (fun _ h => h) ?_ ?_
    · intro dir path cited h
      rcases ends with rfl | ⟨e, -, rfl, -⟩ <;> cases h
    · intro bytes h
      rcases ends with rfl | ⟨e, -, rfl, -⟩ <;> cases h

end Files

/-- **A file goes only to who may read it.**  Serve any server on any sockets and
let its threads interleave in any way.  Whatever file a connection was sent, it
had asked for: at that moment the session the connection showed to be was active
and its member on the roster, the root was declared and mapped to a directory of
this host, and what was sent is what reading the path in that directory then
gave, with the cited id. -/
theorem files_shown_to_members (s : Server P) (rootPaths : BTreeMap String String)
    (contentId : MerkleNode StreamChallenge → Except String ContentId) (classes : List Class)
    (acts : List Service.Act) {id : ℕ} {c : Conn} {bytes : Bytes}
    (hc : ((Service.start s rootPaths contentId classes).run acts).conns[id]? = some c)
    (hsent : .file bytes ∈ c.sent) :
    let x := Service.start s rootPaths contentId classes
    ∃ pre root path cited io mid file post d session i dir,
      acts = pre ++ .thread id (.request (.file root path cited) io) ::
        (mid ++ .thread id (.readFile file) :: post) ∧
      (x.run pre).conns[id]? = some d ∧ d.proven = some session ∧
      (x.run pre).server.st.sessions.get session = some i ∧ i.status = .active ∧
      (∃ m ∈ (x.run pre).server.st.board.members, m.name = i.member) ∧
      root ∈ (x.run pre).server.st.board.roots ∧ rootPaths[root]? = some dir ∧
      file dir path = .ok bytes ∧ P.rawId bytes = cited := by
  intro x
  have hhonest : c.Honest x acts id := by
    refine Service.conns_induction (x := x) rfl (fun acts id c => c.Honest x acts id) ?_ ?_ ?_
      acts id c hc
    · intro acts id class_
      refine ⟨fun _ _ _ h => Stage.noConfusion h, fun bytes h => ?_, fun bytes h => ?_⟩ <;> cases h
    · exact fun acts a id c h => h.snoc a
    · exact fun acts id act c y c' hc haccess h => haccess.honest hc h
  obtain ⟨pre', file, post, dir, path, cited, rfl, hlocated, hfile, hid⟩ := hhonest.sent bytes hsent
  obtain ⟨pre, root, io, mid, d, session, rfl, hd, hproven, hmay, hdir⟩ := hlocated
  rw [(x.run_fixed pre).1, Server.rootDir] at hdir
  rw [Server.sessionMayRead] at hmay
  split at hmay
  · rename_i i hi
    split at hdir
    · rename_i hroot
      simp only [Bool.and_eq_true, decide_eq_true_eq, List.any_eq_true] at hmay hroot
      obtain ⟨r, hr, rfl⟩ := hroot
      exact ⟨pre, r, path, cited, io, mid, file, post, d, session, i, dir, by simp [fileReq], hd,
        hproven, hi, hmay.1, hmay.2, hr, hdir, hfile, hid⟩
    · cases hdir
  · cases hmay

namespace Small

/-! The flock declares a root before key 2 enrolls. -/

noncomputable def rooted : Sealed :=
  entry 0 1
    (event .roster "k" none [("replaces", gid)] 1 (.roster [shepherd, helper, operator] ["r"]))
    gid 1 0 (cid 0)

noncomputable def rootedInvite : Sealed :=
  entry 1 1 (event .invite "k" (some (eid 0)) [] 2 (.invite "h" ⟨utf8 "kkkkk"⟩)) (rid 0) 2 0 (cid 0)

noncomputable def rootedStart : Sealed :=
  entry 2 1 (event .sessionStart "k" (some (eid 1)) [("invite", eid 1)] 3
    (.sessionStart "h" "kk" (sessionCert 2 "h" 0))) (rid 1) 3 0 (cid 0)

noncomputable def rootedTables : Tables where
  metadata := metadata
  genesis := genesis
  events := [rooted, rootedInvite, rootedStart].map (·.event)
  records := [rooted, rootedInvite, rootedStart].map (·.record)
  approvals := []
  certs := certs
  frames := [⟨[rooted]⟩, ⟨[rootedInvite]⟩, ⟨[rootedStart]⟩]

noncomputable def rootedKey : AgentKey rootedTables.primitives.toCrypto := ⟨1, serverCert, rfl⟩

/-- Key 2's session shows that it is, and asks for a file. -/
noncomputable def asksFile : List Service.Act :=
  proves ++ [.thread 0 (.write .done), .thread 0 (.request (.file "r" "p" ⟨[1]⟩) (drawing 0)),
    .thread 0 (.readFile fun _ _ => .ok [1]), .thread 0 (.write .done)]

end Small

set_option maxRecDepth 100000 in
/-- The small flock's session is sent a file of the declared root. -/
theorem files_shown_to_members_small :
    ∃ s, Server.open_ Small.rootedKey Small.signedGenesis ⟨[], []⟩ ⟨[], []⟩ = .ok s ∧
      let x := Service.start (s.serve [(.setRoots ["r"], Small.drawing 0)])
        ((∅ : BTreeMap String String).insert "r" "/d") Small.contentId [.owner]
      ∃ pre rest session i, Small.asksFile = pre ++ rest ∧
        (x.run pre).server.st.sessions.get session = some i ∧ i.status = .active := by
  obtain ⟨s₀, hopen, hsent⟩ :
      ∃ s, Server.open_ Small.rootedKey Small.signedGenesis ⟨[], []⟩ ⟨[], []⟩ = .ok s ∧
        let x := Service.start (s.serve [(.setRoots ["r"], Small.drawing 0)])
          ((∅ : BTreeMap String String).insert "r" "/d") Small.contentId [.owner]
        ((x.run Small.asksFile).conns[0]?.map fun c : Conn => decide (Answer.file [1] ∈ c.sent)) =
          some true := by
    decide +kernel
  obtain ⟨c, hc, hmem⟩ := Option.map_eq_some_iff.mp hsent
  obtain ⟨pre, root, path, cited, io, mid, file, post, d, session, i, dir, hacts, -, -, hi, hactive,
    -⟩ := files_shown_to_members (s₀.serve [(.setRoots ["r"], Small.drawing 0)])
      ((∅ : BTreeMap String String).insert "r" "/d") Small.contentId [.owner] Small.asksFile hc
      (of_decide_eq_true hmem)
  exact ⟨s₀, hopen, pre, _, session, i, hacts, hi, hactive⟩

end Flock
