/-
Failures to persist.

A connection's thread that meets an error after which the server cannot go on
records it, and the first record stays.  Such an error comes only from a server
that has stopped itself, so a recorded failure says that nothing is written any
more and that the accept loops take no further connection.

* `Server.Owns` — an error that ends the service is the error of a stopped
  server; `handle_owns` and `Server.endSession_owns` for what a thread runs;
* `Service.Recorded` — the invariant;
* `failure_is_final` — over every interleaving.
-/
import AgentMesh.ConnectionLife

open Std Mesh Framing

namespace Flock

variable {P : Primitives} {α β : Type}

/-! ### Errors that end the service -/

/-- An error that is not about the files. -/
def Mild (x : Except ServerError α) : Prop := Fails (fun e => e.isFatal = false) x

theorem Mild.mapError {ε : Type} {x : Except ε α} {f : ε → ServerError}
    (h : ∀ e, (f e).isFatal = false) : Mild (x.mapError f) := by
  intro e he
  cases x with
  | ok a => cases he
  | error e' =>
    cases he
    exact h e'

theorem State.vet_mild (st : State) (node : MerkleNode Event) (id : ContentId) (sig : Assertion)
    (epoch : ℕ) : Mild (st.vet P node id sig epoch) := by
  refine .bind (Mild.mapError fun _ => rfl) fun signer _ => .bind ?_ fun conflict _ => ?_
  · intro e he
    cases hv : admitEvent P st.board node signer <;> rw [hv] at he <;> cases he <;> rfl
  · refine .bind (Mild.mapError fun _ => rfl) fun _ _ => ?_
    exact .bind (Mild.mapError fun _ => rfl) fun _ _ => .ok _

theorem State.prepare_mild (st : State) (key : AgentKey P.toCrypto) (node : MerkleNode Event)
    (sig : Assertion) : Mild (st.prepare key node sig) := by
  refine .bind (st.vet_mild node _ sig _) fun r _ => .bind ?_ fun _ _ => .ok _
  rw [State.citedCert]
  split
  · exact .ok _
  · exact .of_okOr rfl

theorem State.sealAll_mild (key : AgentKey P.toCrypto) (specs : List Spec) (st : State) :
    Mild (st.sealAll key specs) := by
  induction specs generalizing st with
  | nil => exact .ok _
  | cons spec specs ih =>
    exact .bind (st.prepare_mild key _ _) fun p _ => .bind (ih _) fun _ _ => .ok _

namespace Server

/-- An error that ends the service is the error of a stopped server. -/
def Owns (r : Server P × Except ServerError α) : Prop :=
  ∀ e, r.2 = .error e → e.isFatal = true → r.1.poisoned = true

variable {s : Server P}

theorem owns_mild {s : Server P} {x : Except ServerError α} (h : Mild x) : Owns (s, x) := by
  intro e he hfatal
  rw [h e he] at hfatal
  cases hfatal

theorem Owns.returning {r : Server P × Except ServerError α} (h : Owns r) (f : α → β) :
    Owns (returning f r) := fun e he => h e (returning_error.mp he)

theorem commitFrame_owns (sealed : List Sealed) (next : State) (fault : Option Fault) :
    Owns (s.commitFrame sealed next fault) := by
  intro e he _
  rw [commitFrame, append] at he ⊢
  cases ha : s.log.append P.frameCodec ⟨sealed⟩ fault with
  | mk log r =>
    rw [ha] at he
    cases r with
    | ok u => cases he
    | error e' => rfl

theorem transact_owns (specs : List Spec) (fault : Option Fault) :
    Owns (s.transact specs fault) := by
  rw [transact]
  split
  · rename_i hp
    exact fun _ _ _ => hp
  · split
    · rename_i e hseal
      exact owns_mild fun e' he' => by
        cases he'
        exact State.sealAll_mild s.key specs s.st e hseal
    · split
      · exact Owns.returning (commitFrame_owns _ _ fault) _
      · exact owns_mild (.error rfl)

theorem endSession_owns (session : String) (reason : EndReason) (io : Io) :
    Owns (s.endSession session reason io) := by
  rw [endSession]
  split
  · exact owns_mild (.error rfl)
  · exact Owns.returning (transact_owns _ _) _

theorem take_mild (challenge : PossessionChallenge) : Mild (s.take challenge).2 := by
  rw [take]
  split
  · split
    · exact .ok _
    · exact .error rfl
  · exact .error rfl

theorem certify_mild (challenge : PossessionChallenge) (proof : Signature) (member : String) :
    Mild (s.certify challenge proof member) := Mild.mapError fun _ => rfl

theorem enrollFinish_owns (challenge : PossessionChallenge) (proof : Signature) (io : Io) :
    Owns (s.enrollFinish challenge proof io) := by
  have htake := s.take_mild challenge
  rw [enrollFinish]
  split
  · rename_i s' e heq
    rw [heq] at htake
    exact owns_mild (.error (htake e rfl))
  · exact owns_mild (.error rfl)
  · rename_i s' invite heq
    rw [startSession]
    split
    · rename_i e hcert
      exact owns_mild (.error (certify_mild challenge proof invite.member e hcert))
    · exact Owns.returning (transact_owns _ _) _

theorem renewFinish_owns (challenge : PossessionChallenge) (proof : Signature) (io : Io) :
    Owns (s.renewFinish challenge proof io) := by
  have htake := s.take_mild challenge
  rw [renewFinish]
  split
  · rename_i s' e heq
    rw [heq] at htake
    exact owns_mild (.error (htake e rfl))
  · exact owns_mild (.error rfl)
  · split
    · exact owns_mild (.error rfl)
    · split
      · exact owns_mild (.error rfl)
      · rename_i info _
        rw [renewSession]
        split
        · rename_i e hcert
          exact owns_mild (.error (certify_mild challenge proof info.member e hcert))
        · exact Owns.returning (transact_owns _ _) _

theorem enrollBegin_owns (token member : String) (pubkey : PubKey) (io : Io) :
    Owns (s.enrollBegin token member pubkey io) := by
  have hmild : Mild (s.enrollable token member pubkey) := by
    refine .bind (.of_okOr rfl) fun invite _ => ?_
    refine .bind (.of_ensure fun _ => rfl) fun _ _ => ?_
    refine .bind (.of_ensure fun _ => rfl) fun _ _ => ?_
    exact .bind (.of_ensure fun _ => rfl) fun _ _ => .ok _
  rw [enrollBegin]
  split
  · rename_i e he
    exact owns_mild (.error (hmild e he))
  · exact owns_mild (.ok _)

theorem renewBegin_owns (last : CertChain) (io : Io) : Owns (s.renewBegin last io) := by
  have hmild : Mild (s.renewable last) := by
    refine .bind (.of_okOr rfl) fun info _ => ?_
    refine .bind (.of_ensure fun _ => rfl) fun _ _ => ?_
    exact .bind (.of_ensure fun _ => rfl) fun _ _ => .ok _
  rw [renewBegin]
  split
  · rename_i e he
    exact owns_mild (.error (hmild e he))
  · exact owns_mild (.ok _)

theorem refuseEvent_owns (node : MerkleNode Event) (why : Refusal) (io : Io) :
    Owns (s.refuseEvent node why io) := by
  intro e he hfatal
  rw [refuseEvent, recordRefusal] at he ⊢
  cases ha : s.refusalLog.append P.refusalCodec (.sign s.key s.refusalPrev
      ⟨P.eventId node, node.payload.author, why, s.admitted⟩) io.refusalFault with
  | mk log r =>
    rw [ha] at he
    cases r with
    | error e' => rfl
    | ok u =>
      cases he
      cases hfatal

theorem admitPrepared_owns (node : MerkleNode Event) (p : Prepared) (io : Io) :
    Owns (s.admitPrepared node p io) := by
  simp only [admitPrepared]
  split
  · split
    · rename_i e he
      exact owns_mild (.error (State.prepare_mild _ s.key _ _ e he))
    · split
      · exact Owns.returning (commitFrame_owns _ _ _) _
      · exact refuseEvent_owns node .tooLarge io
  · exact Owns.returning (commitFrame_owns _ _ _) _

theorem admitNode_owns (node : MerkleNode Event) (sig : Assertion) (io : Io) :
    Owns (s.admitNode node sig io) := by
  rw [admitNode]
  split
  · rename_i hp
    exact fun _ _ _ => hp
  · split
    · exact owns_mild (.ok _)
    · split
      · exact owns_mild (.error rfl)
      · split
        · exact refuseEvent_owns node _ io
        · rename_i e _ he
          exact owns_mild (.error (s.st.prepare_mild s.key node sig e he))
        · split
          · exact admitPrepared_owns node _ io
          · exact refuseEvent_owns node .tooLarge io

end Server

/-- **What a request under the lock answers.** -/
theorem handle_owns (s : Server P) (req : Req) (bound : Option String) (io : Io) :
    Server.Owns ((handle s req bound io).server, (handle s req bound io).result) := by
  have hmild : ∀ {b : Option String} {x : Except ServerError Answer}, Mild x →
      Server.Owns ((Handled.keeping b (s, x)).server, (Handled.keeping b (s, x)).result) :=
    fun h => Server.owns_mild h
  cases req with
  | hello | genesis | head | end_ => exact hmild (.ok _)
  | watchBegin | watch | prove | fileStat | file => exact hmild (.error rfl)
  | invite member => exact ((Server.transact_owns _ _).returning _).returning _
  | registerDevice cert => exact ((Server.transact_owns _ _).returning _).returning _
  | enrollBegin token member pubkey =>
    cases bound with
    | some a => exact hmild (.error rfl)
    | none => exact (s.enrollBegin_owns token member pubkey io).returning _
  | enrollFinish challenge proof =>
    cases bound with
    | some a => exact hmild (.error rfl)
    | none =>
      have howns := s.enrollFinish_owns challenge proof io
      rw [handle]
      generalize s.enrollFinish challenge proof io = r at howns
      obtain ⟨s', r⟩ := r
      cases r with
      | ok e => exact Server.owns_mild (.ok _)
      | error e =>
        exact fun e' he' hfatal => howns e (by cases he'; rfl) (by cases he'; exact hfatal)
  | renew last =>
    show Server.Owns (s.renewOrCurrent last io)
    rw [Server.renewOrCurrent]
    split
    · split
      · exact Server.owns_mild (.ok _)
      · exact (s.renewBegin_owns last io).returning _
    · exact (s.renewBegin_owns last io).returning _
  | renewFinish challenge proof => exact (s.renewFinish_owns challenge proof io).returning _
  | admitNode node sig => exact (s.admitNode_owns node sig io).returning _

/-! ### The invariant -/

/-- Where a failure is recorded or about to be, the server has stopped. -/
structure Service.Recorded (x : Service P) : Prop where
  failure : x.gate.failure.isSome → x.server.poisoned = true
  failing : ∀ c ∈ x.conns, ∀ why answer, c.stage = .failing why answer → x.server.poisoned = true

section Recording

variable {x y : Service P} {a : Service.Act} {c c' : Conn} {act : ThreadAct}

theorem Access.gate (h : Access x c act y c') :
    y.gate.failure = x.gate.failure ∨
      ∃ why answer, c.stage = .failing why answer ∧
        y.gate.failure = (x.gate.fail why.text).failure := by
  cases h with
  | recorded why answer more failing => exact .inr ⟨why, _, failing, rfl⟩
  | recordedLast why failing => exact .inr ⟨why, none, failing, rfl⟩
  | unproved _ _ _ same | unread _ _ _ same | worked _ _ _ _ same =>
    rcases same with rfl | rfl <;> exact .inl rfl
  | still | declined | challenged | watched | proved | located | farewell | closed | handled
  | hungUp | read | panicked | placed | cancelled | wrote | left | lost => exact .inl rfl

theorem Service.answered_failing {result : Except ServerError Answer} {more : Bool}
    {why : ServerError} {answer : Option (Answer × Bool)}
    (h : Service.answered result more = .failing why answer) :
    result = .error why ∧ why.isFatal = true := by
  unfold Service.answered at h
  split at h
  · cases h
  · split at h
    · rename_i hfatal
      cases h
      exact ⟨rfl, hfatal⟩
    · cases h

theorem Access.failing (h : Access x c act y c')
    (hc : ∀ why answer, c.stage = .failing why answer → x.server.poisoned = true)
    {why : ServerError} {answer : Option (Answer × Bool)} (hfail : c'.stage = .failing why answer) :
    y.server.poisoned = true := by
  cases h with
  | still => exact hc why answer hfail
  | declined | challenged | watched | proved | unproved | unread | located | farewell | hungUp
  | read | panicked | cancelled | recorded | recordedLast | left => cases hfail
  | placed | worked =>
    rcases c.follow_stage _ with hstage | hstage <;> rw [hstage] at hfail <;> cases hfail
  | wrote answer more answering w =>
    have hstage : (if w = .done ∧ more = true then Stage.reading else .leaving) = _ := hfail
    split at hstage <;> cases hstage
  | closed reading session bound io =>
    obtain ⟨hresult, hfatal⟩ := Service.answered_failing hfail
    refine x.server.endSession_owns session .closed io why ?_ hfatal
    generalize (x.server.endSession session .closed io).2 = r at hresult
    cases r with
    | ok u => cases hresult
    | error e =>
      cases hresult
      rfl
  | handled reading req io =>
    obtain ⟨hresult, hfatal⟩ := Service.answered_failing hfail
    exact handle_owns x.server req c.bound io why hresult hfatal
  | lost leaving session bound io ends =>
    rcases ends with rfl | ⟨e, hfatal, rfl, he⟩
    · cases hfail
    · exact x.server.endSession_owns session .lost io e he hfatal

theorem Moves.recorded (hmove : Moves x a y) (h : x.Recorded) : y.Recorded := by
  cases hmove with
  | idle | takes | ends | drops | flagged | drained | stopped => exact ⟨h.failure, h.failing⟩
  | accepts k class_ =>
    refine ⟨h.failure, fun c hc why answer hstage => ?_⟩
    rcases List.mem_append.mp hc with hc | hc
    · exact h.failing c hc why answer hstage
    · rw [List.mem_singleton.mp hc] at hstage
      cases hstage
  | @accesses id act c c' y known access =>
    have hc := h.failing c (List.mem_of_getElem? known)
    refine ⟨fun hfailure => ?_, fun d hd why answer hstage => ?_⟩
    · rcases access.gate with hsame | ⟨why, answer, hfailing, -⟩
      · exact access.does.poisoned (h.failure (hsame ▸ hfailure))
      · exact access.does.poisoned (hc why answer hfailing)
    · obtain ⟨j, hj⟩ := List.getElem?_of_mem hd
      rcases getElem?_set_cases hj with ⟨-, rfl⟩ | ⟨-, hj⟩
      · exact access.failing hc hstage
      · exact access.does.poisoned (h.failing d (List.mem_of_getElem? hj) why answer hstage)

/-- A failure that is recorded stays, and no accept loop takes a connection. -/
theorem Moves.failed (hmove : Moves x a y) {why : String} (h : x.gate.failure = some why) :
    y.gate.failure = some why ∧
      ∀ (k : ℕ) (class_ : Class), y.loops[k]? = some (class_, .taken) →
        x.loops[k]? = some (class_, .taken) := by
  cases hmove with
  | idle | flagged | drained | stopped => exact ⟨h, fun _ _ hk => hk⟩
  | takes k class_ waiting running =>
    rw [h] at running
    cases running.2
  | ends k class_ | drops k class_ | accepts k class_ =>
    refine ⟨h, fun j class' hj => ?_⟩
    rcases getElem?_set_cases hj with ⟨-, heq⟩ | ⟨-, hj⟩
    · cases heq
    · exact hj
  | @accesses id act c c' y known access =>
    refine ⟨?_, fun k class_ hk => ?_⟩
    · rcases access.gate with hsame | ⟨e, answer, -, hgate⟩
      · exact hsame.trans h
      · rw [Gate.fail, h] at hgate
        exact hgate
    · rw [← access.framed.loops]
      exact hk

end Recording

/-- **A failure to persist is final.**  Serve any server and let its threads
interleave in any way: once a failure is recorded, the server has stopped.
Whatever happens after, that failure stays the recorded one, the log files, the
state and the journal stay as they are, and no accept loop takes another
connection. -/
theorem failure_is_final (s : Server P) (rootPaths : BTreeMap String String)
    (contentId : MerkleNode StreamChallenge → Except String ContentId) (classes : List Class)
    (acts acts' : List Service.Act) {why : String}
    (hwhy : ((Service.start s rootPaths contentId classes).run acts).gate.failure = some why) :
    let x := (Service.start s rootPaths contentId classes).run acts
    let y := x.run acts'
    x.server.poisoned = true ∧ y.gate.failure = some why ∧
      y.server = { x.server with challenges := y.server.challenges } ∧
      ∀ (k : ℕ) (class_ : Class), y.loops[k]? = some (class_, .taken) →
        x.loops[k]? = some (class_, .taken) := by
  intro x y
  have hrecorded : x.Recorded := by
    refine Service.run_invariant _ (fun {x a} h => (x.step_moves a).recorded h) ⟨?_, ?_⟩ acts
    · intro h
      cases h
    · intro c hc
      cases hc
  have hpoisoned := hrecorded.failure (by rw [hwhy]; rfl)
  have hkept : y.gate.failure = some why ∧ ∀ (k : ℕ) (class_ : Class),
      y.loops[k]? = some (class_, .taken) → x.loops[k]? = some (class_, .taken) := by
    refine Service.run_invariant (fun y => y.gate.failure = some why ∧ ∀ (k : ℕ) (class_ : Class),
      y.loops[k]? = some (class_, .taken) → x.loops[k]? = some (class_, .taken)) ?_
      ⟨hwhy, fun _ _ h => h⟩ acts'
    intro z a hz
    obtain ⟨hfailure, hloops⟩ := (z.step_moves a).failed hz.1
    exact ⟨hfailure, fun k class_ hk => hz.2 k class_ (hloops k class_ hk)⟩
  exact ⟨hpoisoned, hkept.1, (x.run_does acts').of_poisoned hpoisoned, hkept.2⟩

namespace Small

/-- The append of the `session-start` that key 2 enrolls with dies, and the
thread records that. -/
def enrollDies : List Service.Act :=
  [.incoming 0, .spawn 0 true,
    .thread 0 (.request (.invite "h") (drawing 5)), .thread 0 (.write .done),
    .thread 0 (.request (.enrollBegin "kkkkk" "h" 2) (drawing 11)), .thread 0 (.write .done),
    .thread 0 (.request (.enrollFinish (challenge 11) (mark 2 (challenge 11).signingBytes))
      ⟨some (.write 5), none, fun _ => 0⟩), .thread 0 .record]

/-- The thread answers, and the peer asks for another invite. -/
def asksAgain : List Service.Act :=
  [.thread 0 (.write .done), .thread 0 (.request (.invite "w") (drawing 6)), .thread 0 .record,
    .incoming 0]

end Small

set_option maxRecDepth 100000 in
/-- After the small flock's append died, a second failure changes nothing. -/
theorem failure_is_final_small :
    ∃ s, Server.open_ Small.lifeKey Small.signedGenesis ⟨[], []⟩ ⟨[], []⟩ = .ok s ∧
      let x := (Service.start s ∅ Small.contentId [.owner]).run Small.enrollDies
      let y := x.run Small.asksAgain
      x.gate.failure = some (ServerError.io "injected crash").text ∧
        y.gate.failure = some (ServerError.io "injected crash").text ∧
        y.server.log = x.server.log ∧ y.loops[0]? ≠ some (.owner, .taken) := by
  have hfailure : ((Service.start Small.life ∅ Small.contentId [.owner]).run
      Small.enrollDies).gate.failure = some (ServerError.io "injected crash").text := by
    decide +kernel
  obtain ⟨-, hkept, hserver, hnone⟩ := failure_is_final Small.life ∅ Small.contentId [.owner]
    Small.enrollDies Small.asksAgain hfailure
  refine ⟨Small.life, Small.life_open, hfailure, hkept, by rw [hserver], fun h => ?_⟩
  exact absurd (hnone 0 .owner h) (by decide +kernel)

end Flock
