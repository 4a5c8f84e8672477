/-
Retrying after a lost reply.

An event that is in the log is on the board, with the index and the conflict it
was admitted with, in every later state and every later incarnation.  A retry
finds it there, answers with its index and writes nothing.  It does not answer
with the conflict, though: the receipt of a retry always says there was none.
So a retry tells what the first receipt told exactly for the events that were
admitted without conflict.

* `State.Later.get` — an entry of the board stays as it is;
* `World.Run.later` — every later incarnation is in a later state;
* `Server.admitNode_recorded` — the board has what a receipt says;
* `lost_reply_recovered` — what a retry is answered, and when that is what the
  first receipt told;
* `conflict_lost_on_retry` — a retry that tells less.
-/
import AgentMesh.Crash
import AgentMesh.Stream

open Std Mesh Framing

namespace Flock

variable {P : Primitives} {g : MerkleNode Genesis}

/-! ### The board keeps its entries -/

/-- **An entry of the board stays as it is.** -/
theorem State.Later.get {st st' : State} (h : State.Later P st st') {id : ContentId} {e : Entry}
    (he : st.board.get id = some e) : st'.board.get id = some e := by
  have hrel := h.rel (R := fun s t => ∀ id e, s.board.get id = some e → t.board.get id = some e)
    (fun _ _ _ h => h) (fun hab hbc id e h => hbc id e (hab id e h))
    (fun hx id e h => hx.get_kept h)
  exact hrel id e he

theorem State.later_of_run {xs : List Sealed} {st st' : State}
    (h : Steps.run (State.replay P) st xs = .ok st') : State.Later P st st' :=
  Steps.run_rel (fun _ => .refl) (fun hab hbc => hab.trans hbc)
    (fun hx => .single (.event (.replayed hx))) h

theorem Replays.later {xs ys : List Sealed} {st st' : State} (h : Replays P g xs st)
    (h' : Replays P g (xs ++ ys) st') : State.Later P st st' := by
  obtain ⟨u, hu, hrun⟩ := h'.of_append
  cases h.unique hu
  exact State.later_of_run hrun

theorem Server.Mirrored.replays {s : Server P} (h : s.Mirrored g) :
    Replays P g s.frames.flatten s.st := by
  obtain ⟨f, hf, hst⟩ := h.follower
  rw [← hst]
  exact hf.replays

/-- **Every later incarnation is in a later state.** -/
theorem World.Run.later (hinj : P.IdsInjective) (hC : P.toCrypto.HonestVerifies)
    (hframe : P.frameCodec.Lawful) (hrefusal : P.refusalCodec.Lawful)
    {key : AgentKey P.toCrypto} {genesis : SignedGenesis} {s s' : Server P}
    (hs : World.Keeper key genesis [] s) (hrun : World.Run key genesis (.up s) (.up s')) :
    State.Later P s.st s'.st := by
  have hself : World.Holds key genesis s.frames (.up s) :=
    ⟨hs.sound, hs.key, [], (List.append_nil _).symm⟩
  have hs' : World.Keeper key genesis s.frames s' := hrun.holds hinj hC hframe hrefusal hself
  obtain ⟨more, hmore⟩ := hs'.kept
  have hreplays := hs'.sound.mirrored.replays
  rw [hmore, List.flatten_append] at hreplays
  exact hs.sound.mirrored.replays.later hreplays

/-! ### Receipts -/

/-- The board has the event with this index and conflict. -/
def State.Has (P : Primitives) (st : State) (node : MerkleNode Event) (index : ℕ)
    (conflict : Option ConflictKind) : Prop :=
  ∃ e, st.board.get (P.eventId node) = some e ∧ e.index = index ∧ e.conflict = conflict

theorem State.Has.later {st st' : State} {node : MerkleNode Event} {index : ℕ}
    {conflict : Option ConflictKind} (h : st.Has P node index conflict)
    (hlater : State.Later P st st') : st'.Has P node index conflict := by
  obtain ⟨e, he, hindex, hconflict⟩ := h
  exact ⟨e, hlater.get he, hindex, hconflict⟩

theorem Replays.entry {log : List Sealed} {st : State} (h : Replays P g log st) {x : Sealed}
    (hx : x ∈ log) : ∃ e, st.board.get (P.eventId x.event) = some e ∧
      e.index = x.record.payload.index ∧ e.event = x.event.payload := by
  obtain ⟨pre, post, rfl⟩ := List.append_of_mem hx
  obtain ⟨u, cert, signer, conflict, hu, hacc, hpost⟩ := h.split
  have hget : (u.after P x signer conflict).board.get (P.eventId x.event) =
      some ⟨P.eventId x.event, u.board.order.length + 1, x.event.payload, signer.class_.member,
        conflict⟩ := by
    rw [State.after, Board.get_record, if_pos rfl]
  refine ⟨_, (State.later_of_run hpost).get hget, ?_, rfl⟩
  show u.board.order.length + 1 = x.record.payload.index
  rw [hu.count, hacc.extend.index, hu.index]

theorem State.commit_has {st : State} (hnext : st.chain.nextIndex = st.board.order.length + 1)
    {key : AgentKey P.toCrypto} {node : MerkleNode Event} {sig : Assertion} {p : Prepared}
    (hp : st.prepare key node sig = .ok p) :
    (st.commit P p).Has P node p.sealed.record.payload.index p.conflict := by
  obtain ⟨signer, conflict, hv, -, rfl⟩ := State.prepare_ok.mp hp
  rw [State.commit_of hv, State.Has, State.after]
  have hget : (st.board.record (P.eventId (st.sealing key node sig).event)
      (st.sealing key node sig).event.payload signer conflict).get (P.eventId node) =
      some ⟨P.eventId node, st.board.order.length + 1, node.payload, signer.class_.member,
        conflict⟩ := by
    rw [Board.get_record]
    exact if_pos rfl
  exact ⟨_, hget, hnext.symm, rfl⟩

namespace Server

variable {s : Server P}

theorem commitFrame_st {sealed : List Sealed} {next : State} {fault : Option Fault} {u : Unit}
    (h : (s.commitFrame sealed next fault).2 = .ok u) :
    (s.commitFrame sealed next fault).1.st = next := by
  rw [commitFrame, append] at h ⊢
  cases ha : s.log.append P.frameCodec ⟨sealed⟩ fault with
  | mk log r =>
    rw [ha] at h
    cases r with
    | ok u => rfl
    | error e => cases h

theorem refuseEvent_ne_ok (node : MerkleNode Event) (why : Refusal) (io : Io) (r : Receipt) :
    (s.refuseEvent node why io).2 ≠ .ok r := by
  rw [refuseEvent]
  intro h
  split at h
  · cases h
  · cases h

/-- **The board has what the receipt of an admission says.** -/
theorem admitNode_recorded (hnext : s.st.chain.nextIndex = s.st.board.order.length + 1)
    {node : MerkleNode Event} {sig : Assertion} {io : Io} {r : Receipt}
    (h : (s.admitNode node sig io).2 = .ok r) (hfirst : r.duplicate = false) :
    (s.admitNode node sig io).1.st.Has P node r.index r.conflict := by
  have hcame := s.admitNode_admission node sig io
  generalize s.admitNode node sig io = came at hcame h ⊢
  cases hcame with
  | givesUp => cases h
  | known =>
    cases h
    cases hfirst
  | refuses up why => exact absurd h (refuseEvent_ne_ok node why io r)
  | single up prepared =>
    rw [receive, returning_ok] at h
    obtain ⟨_, hcommit, rfl⟩ := h
    rw [receive, returning_fst, commitFrame_st hcommit]
    exact State.commit_has hnext prepared
  | bumped up prepared bumps =>
    rw [receive, returning_ok] at h
    obtain ⟨_, hcommit, rfl⟩ := h
    -- the bump leaves the entry before it
    rw [receive, returning_fst, commitFrame_st hcommit]
    exact (State.commit_has hnext prepared).later (.single (.event (.committed bumps)))

theorem admitNode_known (hup : s.poisoned = false) {node : MerkleNode Event} {index : ℕ}
    {conflict : Option ConflictKind} (h : s.st.Has P node index conflict) (sig : Assertion)
    (io : Io) : s.admitNode node sig io = (s, .ok ⟨index, true, none⟩) := by
  obtain ⟨e, he, rfl, -⟩ := h
  have hup' : ¬ s.poisoned = true := by
    rw [hup]
    nofun
  rw [admitNode, if_neg hup', he]

end Server

/-- The receipt of a retry is the one with this conflict exactly if there is none. -/
theorem Server.retry_iff {s : Server P} {node : MerkleNode Event} {sig : Assertion} {io : Io}
    {index : ℕ} (h : s.admitNode node sig io = (s, .ok ⟨index, true, none⟩))
    (conflict : Option ConflictKind) :
    (s.admitNode node sig io).2 = .ok ⟨index, true, conflict⟩ ↔ conflict = none := by
  rw [h]
  constructor
  · intro heq
    cases heq
    rfl
  · rintro rfl
    rfl

/-- **A lost reply is recovered by retrying exactly if it told of no conflict.**
Over every run from an empty log, with any calls, crashes and openings: an
event that was admitted, submitted again to any later server that runs, by
anyone, is answered with its index, the duplicate mark and no conflict, and
nothing changes; so the answer has the first receipt's conflict exactly if that
is none.  The same holds of every event of the log and the conflict that the
board has for it, whether or not a reply to it ever left the server. -/
theorem lost_reply_recovered (hinj : P.IdsInjective) (hC : P.toCrypto.HonestVerifies)
    (hframe : P.frameCodec.Lawful) (hrefusal : P.refusalCodec.Lawful)
    {key : AgentKey P.toCrypto} {genesis : SignedGenesis} {s₀ : Server P}
    (htop : genesis.node.payload.serverCert.metadata.caveats = Caveats.top)
    (hopen : Server.open_ key genesis ⟨[], []⟩ ⟨[], []⟩ = .ok s₀) {s : Server P}
    (hrun : World.Run key genesis (.up s₀) (.up s)) :
    (∀ (node : MerkleNode Event) (sig : Assertion) (io : Io) (r : Receipt),
      (s.admitNode node sig io).2 = .ok r → r.duplicate = false →
      ∀ s', World.Run key genesis (.up (s.admitNode node sig io).1) (.up s') →
        s'.poisoned = false → ∀ (sig' : Assertion) (io' : Io),
          s'.admitNode node sig' io' = (s', .ok ⟨r.index, true, none⟩) ∧
          ((s'.admitNode node sig' io').2 = .ok ⟨r.index, true, r.conflict⟩ ↔
            r.conflict = none)) ∧
    ∀ x ∈ s.frames.flatten, ∃ e, s.st.board.get (P.eventId x.event) = some e ∧
      (s.poisoned = false → ∀ (sig : Assertion) (io : Io),
        s.admitNode x.event sig io = (s, .ok ⟨x.record.payload.index, true, none⟩) ∧
        ((s.admitNode x.event sig io).2 = .ok ⟨x.record.payload.index, true, e.conflict⟩ ↔
          e.conflict = none)) := by
  have hs : World.Keeper key genesis [] s := hrun.keeper hinj hC hframe hrefusal htop hopen
  have hreplays := hs.sound.mirrored.replays
  refine ⟨?_, fun x hx => ?_⟩
  · intro node sig io r hr hfirst s' hrun' hup sig' io'
    have hnext : s.st.chain.nextIndex = s.st.board.order.length + 1 := by
      rw [hreplays.index, hreplays.count]
    have hhas := Server.admitNode_recorded hnext hr hfirst
    -- the call is a move of the machine
    have hmove : World.Run key genesis (.up s) (.up (s.admitNode node sig io).1) :=
      .single (.call s (.admitNode node sig) io)
    have hs₁ : World.Keeper key genesis [] (s.admitNode node sig io).1 :=
      World.Run.holds hinj hC hframe hrefusal hmove hs
    have hretry := Server.admitNode_known hup
      (hhas.later (hrun'.later hinj hC hframe hrefusal hs₁)) sig' io'
    exact ⟨hretry, Server.retry_iff hretry r.conflict⟩
  · obtain ⟨e, he, hindex, -⟩ := hreplays.entry hx
    refine ⟨e, he, fun hup sig io => ?_⟩
    have hretry := Server.admitNode_known hup ⟨e, he, hindex, rfl⟩ sig io
    exact ⟨hretry, Server.retry_iff hretry e.conflict⟩

/-! A job of the small flock is ended twice. -/

namespace Small

def jobStarted : MerkleNode Event := event .job "kk" none [] 0 (.job "l" "b")

def jobEnded : MerkleNode Event :=
  event .jobEnd "kk" (some (eid 2)) [("job", eid 2)] 0 (.jobEnd (some 0) none)

def jobEndedAgain : MerkleNode Event :=
  event .jobEnd "kk" (some (eid 3)) [("job", eid 2)] 0 (.jobEnd (some 1) none)

noncomputable def jobSealed : List Sealed :=
  [invited, started, entry 2 2 jobStarted (rid 1) 3 0 (cid 2),
    entry 3 2 jobEnded (rid 2) 4 0 (cid 2), entry 4 2 jobEndedAgain (rid 3) 5 0 (cid 2)]

noncomputable def jobTables : Tables where
  metadata := metadata
  genesis := genesis
  events := jobSealed.map (·.event)
  records := jobSealed.map (·.record)
  approvals := []
  certs := certs
  frames := jobSealed.map fun x => ⟨[x]⟩

noncomputable def jobKey : AgentKey jobTables.primitives.toCrypto := ⟨1, serverCert, rfl⟩

noncomputable def jobSig (n : ℕ) : Assertion := ⟨sessionCert 2 "h" 0, mark 2 (message (eid n))⟩

noncomputable def jobCalls : List (Call × Io) :=
  begun ++ [finish 11 (drawing 0), (.admitNode jobStarted (jobSig 2), drawing 0)]

end Small

set_option maxRecDepth 100000 in
/-- The job's end is submitted again after the second end of it was admitted. -/
theorem lost_reply_recovered_job :
    ∃ s, Server.open_ Small.jobKey Small.signedGenesis ⟨[], []⟩ ⟨[], []⟩ = .ok s ∧
      let ended := ((s.serve Small.jobCalls).admitNode Small.jobEnded (Small.jobSig 3)
        (Small.drawing 0)).1
      let later := (ended.call (.admitNode Small.jobEndedAgain (Small.jobSig 4))
        (Small.drawing 0)).1
      later.admitNode Small.jobEnded (Small.jobSig 3) (Small.drawing 0) =
        (later, .ok ⟨4, true, none⟩) := by
  obtain ⟨s₀, hopen, hfirst, hup⟩ :
      ∃ s, Server.open_ Small.jobKey Small.signedGenesis ⟨[], []⟩ ⟨[], []⟩ = .ok s ∧
        ((s.serve Small.jobCalls).admitNode Small.jobEnded (Small.jobSig 3) (Small.drawing 0)).2 =
          .ok ⟨4, false, none⟩ ∧
        (((s.serve Small.jobCalls).admitNode Small.jobEnded (Small.jobSig 3)
          (Small.drawing 0)).1.call (.admitNode Small.jobEndedAgain (Small.jobSig 4))
            (Small.drawing 0)).1.poisoned = false := by
    decide +kernel
  obtain ⟨hretry, -⟩ := lost_reply_recovered Small.jobTables.idsInjective
    Small.jobTables.honestVerifies Small.jobTables.frameLawful Small.jobTables.refusalLawful rfl
    hopen (.serve s₀ Small.jobCalls)
  exact ⟨s₀, hopen, (hretry _ _ _ _ hfirst rfl _ (.single (.call ..)) hup _ _).1⟩

set_option maxRecDepth 100000 in
/-- **The receipt of a retry drops the conflict.**  The second end of the job is
admitted as a conflict that closes nothing; the retry says there was none. -/
theorem conflict_lost_on_retry :
    ∃ s, Server.open_ Small.jobKey Small.signedGenesis ⟨[], []⟩ ⟨[], []⟩ = .ok s ∧
      let ended := ((s.serve Small.jobCalls).admitNode Small.jobEnded (Small.jobSig 3)
        (Small.drawing 0)).1
      let again := ended.admitNode Small.jobEndedAgain (Small.jobSig 4) (Small.drawing 0)
      again.2 = .ok ⟨5, false, some (.secondCloser (Small.eid 3))⟩ ∧ again.1.poisoned = false ∧
      (again.1.admitNode Small.jobEndedAgain (Small.jobSig 4) (Small.drawing 0)).2 =
        .ok ⟨5, true, none⟩ := by
  decide +kernel

end Flock
