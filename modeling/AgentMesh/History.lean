/-
Histories: the logs a reader accepts.

`Replays P g log st` says that the entries of `log`, one after another from
genesis `g`, are accepted and lead to `st`.  Frames only group entries:
whatever a follower or a rebuild accepts frame by frame is such a history.

* `Follower.Reaches.replays`, `rebuildWith_replays` — the two readers;
* `Replays.split` — the state each entry was accepted in;
* `replays_invariant` — induction over histories;
* `Taken` — histories of either path, as the server's own log is one;
* `Replays.chain_fixed`, `Replays.index`, `Replays.epoch` — what the chain
  says about the entries behind it;
* `Taken.get_mem`, `Replays.count`, `Replays.headOf` — what the board says;
* `run_get` — nothing recorded ever changes.
-/
import AgentMesh.TableSteps

open Std Mesh

namespace Flock

variable {P : Primitives} {g : MerkleNode Genesis}

/-- The entries of `log` replay from genesis to `st`. -/
def Replays (P : Primitives) (g : MerkleNode Genesis) (log : List Sealed) (st : State) : Prop :=
  ∃ st₀, startState P g = .ok st₀ ∧ Steps.run (State.replay P) st₀ log = .ok st

/-- A follower of `g` that accepted `frames` in order. -/
def Follower.Reaches (P : Primitives) (g : MerkleNode Genesis) (frames : List (List Sealed))
    (f : Follower) : Prop :=
  ∃ f₀, Follower.new P g = .ok f₀ ∧ f₀.applyAll P frames = .ok f

theorem startState_ok {st : State} :
    startState P g = .ok st ↔
      ∃ user, g.payload.serverCert.issuer = .user user ∧ st = .genesis P g user := by
  rw [startState]
  cases g.payload.serverCert.issuer with
  | user u =>
    constructor
    · intro h
      cases h
      exact ⟨u, rfl, rfl⟩
    · rintro ⟨_, hu, rfl⟩
      cases hu
      rfl
  | agent pk parent => exact ⟨fun h => (nomatch h), fun ⟨_, h, _⟩ => (nomatch h)⟩

/-! ### Frames group entries -/

theorem Follower.apply_ok {f f' : Follower} {frame : List Sealed} :
    f.apply P frame = .ok f' ↔
      (∃ first, frame.head? = some first ∧ first.record.parents = {f.st.chain.prev} ∧
        first.record.payload.index = f.st.chain.nextIndex) ∧
      checkFrameShape frame = .ok () ∧
      ∃ next, f.st.replayFrame P frame = .ok next ∧ f' = ⟨next, frame.getLast?.map Head.of⟩ := by
  simp only [Follower.apply, bind_ok, okOr_ok, ensure_ok, mapError_ok, pure, Except.pure,
    Except.ok.injEq]
  constructor
  · rintro ⟨first, h1, _, h2, _, h3, next, h4, rfl⟩
    exact ⟨⟨first, h1, h2⟩, h3, next, h4, rfl⟩
  · rintro ⟨⟨first, h1, h2⟩, h3, next, h4, rfl⟩
    exact ⟨first, h1, (), h2, (), h3, next, h4, rfl⟩

theorem Follower.applyAll_run {frames : List (List Sealed)} :
    ∀ {f f' : Follower}, f.applyAll P frames = .ok f' →
      Steps.run (State.replay P) f.st frames.flatten = .ok f'.st := by
  induction frames with
  | nil =>
    intro f f' h
    cases h
    rfl
  | cons frame frames ih =>
    intro f f' h
    obtain ⟨u, hu, h⟩ := Steps.run_cons.mp h
    obtain ⟨-, -, next, hnext, rfl⟩ := Follower.apply_ok.mp hu
    exact Steps.run_append.mpr ⟨next, State.replayFrame_run hnext, ih h⟩

theorem Follower.new_ok {f : Follower} :
    Follower.new P g = .ok f ↔ ∃ st, startState P g = .ok st ∧ f = ⟨st, none⟩ := by
  simp only [Follower.new, bind_ok, pure, Except.pure, Except.ok.injEq]
  constructor
  · rintro ⟨st, h, rfl⟩
    exact ⟨st, h, rfl⟩
  · rintro ⟨st, h, rfl⟩
    exact ⟨st, h, rfl⟩

theorem Follower.Reaches.replays {frames : List (List Sealed)} {f : Follower}
    (h : Follower.Reaches P g frames f) : Replays P g frames.flatten f.st := by
  obtain ⟨f₀, hnew, hrun⟩ := h
  obtain ⟨st, hst, rfl⟩ := Follower.new_ok.mp hnew
  exact ⟨st, hst, Follower.applyAll_run hrun⟩

theorem Follower.Reaches.snoc {frames : List (List Sealed)} {frame : List Sealed}
    {f f' : Follower} (h : Follower.Reaches P g frames f) (hf : f.apply P frame = .ok f') :
    Follower.Reaches P g (frames ++ [frame]) f' := by
  obtain ⟨f₀, hnew, hrun⟩ := h
  exact ⟨f₀, hnew, Steps.run_snoc.mpr ⟨f, hrun, hf⟩⟩

theorem rebuildFrames_run {α : Type} {after : α → State → α} {frames : List (ℕ × Frame)} :
    ∀ {st st' : State} {a a' : α}, rebuildFrames P after st a frames = .ok (st', a') →
      Steps.run (State.replay P) st (frames.map fun f => f.2.sealed).flatten = .ok st' := by
  induction frames with
  | nil =>
    intro st st' a a' h
    cases h
    rfl
  | cons frame frames ih =>
    intro st st' a a' h
    simp only [rebuildFrames, bind_ok, ensure_ok, mapError_ok] at h
    obtain ⟨_, -, _, -, next, hnext, h⟩ := h
    exact Steps.run_append.mpr ⟨next, State.replayFrame_run hnext, ih h⟩

theorem rebuildWith_replays {α : Type} {after : α → State → α} {frames : List (ℕ × Frame)}
    {st : State} {a a' : α} (h : rebuildWith P g frames after a = .ok (st, a')) :
    Replays P g (frames.map fun f => f.2.sealed).flatten st := by
  rw [rebuildWith, bind_ok] at h
  obtain ⟨st₀, h0, h⟩ := h
  exact ⟨st₀, h0, rebuildFrames_run h⟩

/-! ### Splitting and induction -/

theorem Replays.snoc {log : List Sealed} {x : Sealed} {st : State} :
    Replays P g (log ++ [x]) st ↔
      ∃ u cert signer conflict, Replays P g log u ∧ u.Accepts P x cert signer conflict ∧
        st = u.after P x signer conflict := by
  constructor
  · rintro ⟨st₀, h0, h⟩
    obtain ⟨u, hu, hx⟩ := Steps.run_snoc.mp h
    obtain ⟨cert, signer, conflict, hacc, rfl⟩ := State.replay_ok.mp hx
    exact ⟨u, cert, signer, conflict, ⟨st₀, h0, hu⟩, hacc, rfl⟩
  · rintro ⟨u, cert, signer, conflict, ⟨st₀, h0, hu⟩, hacc, rfl⟩
    exact ⟨st₀, h0, Steps.run_snoc.mpr
      ⟨u, hu, State.replay_ok.mpr ⟨cert, signer, conflict, hacc, rfl⟩⟩⟩

theorem Replays.of_append {xs ys : List Sealed} {st : State} (h : Replays P g (xs ++ ys) st) :
    ∃ u, Replays P g xs u ∧ Steps.run (State.replay P) u ys = .ok st := by
  obtain ⟨st₀, h0, h⟩ := h
  obtain ⟨u, hu, h⟩ := Steps.run_append.mp h
  exact ⟨u, ⟨st₀, h0, hu⟩, h⟩

theorem Replays.split {pre post : List Sealed} {x : Sealed} {st : State}
    (h : Replays P g (pre ++ x :: post) st) :
    ∃ u cert signer conflict, Replays P g pre u ∧ u.Accepts P x cert signer conflict ∧
      Steps.run (State.replay P) (u.after P x signer conflict) post = .ok st := by
  obtain ⟨st₀, h0, h⟩ := h
  obtain ⟨u, v, hu, hx, hpost⟩ := Steps.run_split h
  obtain ⟨cert, signer, conflict, hacc, rfl⟩ := State.replay_ok.mp hx
  exact ⟨u, cert, signer, conflict, ⟨st₀, h0, hu⟩, hacc, hpost⟩

theorem Replays.unique {log : List Sealed} {st st' : State} (h : Replays P g log st)
    (h' : Replays P g log st') : st = st' := by
  obtain ⟨s₀, h0, h⟩ := h
  obtain ⟨s₀', h0', h'⟩ := h'
  rw [h0] at h0'
  cases h0'
  rw [h] at h'
  cases h'
  rfl

/-- Who signed `x`, as the table after `log` says. -/
def signerOf (P : Primitives) (g : MerkleNode Genesis) (log : List Sealed) (x : Sealed) :
    Option Signer := do
  let st₀ ← (startState P g).toOption
  let st ← (Steps.run (State.replay P) st₀ log).toOption
  let cert ← (st.citedCert P x.record.payload.cert).toOption
  (st.sessions.resolve P ⟨cert, x.eventSig⟩ (P.eventId x.event) st.chain.serverPub st.chain.user
    x.record.payload.epoch).toOption

theorem State.Accepts.signerOf {log : List Sealed} {st : State} (hlog : Replays P g log st)
    {x : Sealed} {cert : CertChain} {signer : Signer} {conflict : Option ConflictKind}
    (h : st.Accepts P x cert signer conflict) : signerOf P g log x = some signer := by
  obtain ⟨st₀, h0, hrun⟩ := hlog
  simp only [Flock.signerOf, h0, hrun, h.cited, h.vetted.resolved, Except.toOption,
    Option.bind_eq_bind, Option.bind_some]

/-- **Induction over histories.** -/
theorem replays_invariant (Inv : List Sealed → State → Prop)
    (h0 : ∀ user, g.payload.serverCert.issuer = .user user → Inv [] (.genesis P g user))
    (hstep : ∀ log st x cert signer conflict, Replays P g log st → Inv log st →
      st.Accepts P x cert signer conflict → Inv (log ++ [x]) (st.after P x signer conflict))
    {log : List Sealed} {st : State} (h : Replays P g log st) : Inv log st := by
  obtain ⟨st₀, hst, hrun⟩ := h
  obtain ⟨user, hu, rfl⟩ := startState_ok.mp hst
  refine Steps.run_invariant Inv (h0 user hu) ?_ hrun
  intro xs s x s' hxs hinv hx
  obtain ⟨cert, signer, conflict, hacc, rfl⟩ := State.replay_ok.mp hx
  exact hstep xs s x cert signer conflict ⟨_, hst, hxs⟩ hinv hacc

/-! ### Either path -/

/-- One event taken into a state: replayed from a sealed entry, or prepared
and committed by the server. -/
inductive State.Takes (P : Primitives) (st : State) : MerkleNode Event → State → Prop where
  | replayed {s : Sealed} {st' : State} (h : st.replay P s = .ok st') : Takes P st s.event st'
  | committed {key : AgentKey P.toCrypto} {node : MerkleNode Event} {sig : Assertion}
      {p : Prepared} (h : st.prepare key node sig = .ok p) : Takes P st node (st.commit P p)

/-- What both paths established, and what they did to the board and the table. -/
theorem State.Takes.vetted {st st' : State} {node : MerkleNode Event} (h : st.Takes P node st') :
    ∃ sig epoch signer conflict, st.Vetted P node sig epoch signer conflict ∧
      st'.board = st.board.record (P.eventId node) node.payload signer conflict ∧
      st'.sessions = st.sessions.observe P (P.eventId node) node.payload epoch := by
  cases h with
  | replayed h =>
    obtain ⟨cert, signer, conflict, hacc, rfl⟩ := State.replay_ok.mp h
    exact ⟨_, _, signer, conflict, hacc.vetted, rfl, rfl⟩
  | committed h =>
    obtain ⟨signer, conflict, hv, -, rfl⟩ := State.prepare_ok.mp h
    rw [State.commit_of hv]
    exact ⟨_, _, signer, conflict, hv, rfl, rfl⟩

theorem State.Takes.tableStep {st st' : State} {node : MerkleNode Event}
    (h : st.Takes P node st') :
    ∃ epoch, TableStep P st (P.eventId node) node.payload epoch st'.sessions := by
  obtain ⟨_, epoch, _, _, hv, -, hs⟩ := h.vetted
  rw [hs]
  exact ⟨epoch, tableStep_of_checked hv.checked⟩

theorem State.Takes.fresh {st st' : State} {node : MerkleNode Event} (h : st.Takes P node st') :
    st.board.get (P.eventId node) = none := by
  obtain ⟨_, _, _, _, hv, -, -⟩ := h.vetted
  exact hv.admissible.fresh

/-- The entries of `log` were taken in one after another from genesis, each by
whichever path. -/
def Taken (P : Primitives) (g : MerkleNode Genesis) : List Sealed → State → Prop :=
  Steps.Trace (fun st => startState P g = .ok st) fun st x st' => st.Takes P x.event st'

theorem Replays.taken {log : List Sealed} {st : State} (h : Replays P g log st) :
    Taken P g log st := by
  obtain ⟨st₀, hst, hrun⟩ := h
  exact .of_run hst (fun hx => .replayed hx) hrun

theorem Taken.get_mem {log : List Sealed} {st : State} (h : Taken P g log st) (id : ContentId) :
    st.board.get id ≠ none ↔ ∃ x ∈ log, P.eventId x.event = id := by
  induction h with
  | nil hst =>
    obtain ⟨user, -, rfl⟩ := startState_ok.mp hst
    simp [State.genesis, Board.new, Board.get]
  | @snoc log st st' x _ hx ih =>
    obtain ⟨_, _, _, _, -, hboard, -⟩ := hx.vetted
    rw [hboard, Board.get_record]
    split
    · rename_i hid
      exact ⟨fun _ => ⟨x, by simp, hid⟩, fun _ => by simp⟩
    · rename_i hid
      rw [ih]
      simp [hid]

/-! ### The chain -/

/-- What the genesis fixes for good. -/
theorem Replays.chain_fixed {log : List Sealed} {st : State} (h : Replays P g log st) :
    st.chain.serverCert = g.payload.serverCert ∧
      st.chain.serverPub = g.payload.serverCert.agentPubkey ∧
      g.payload.serverCert.issuer = .user st.chain.user ∧
      st.board.flock = P.genesisId g := by
  refine replays_invariant (fun _ st =>
    st.chain.serverCert = g.payload.serverCert ∧
      st.chain.serverPub = g.payload.serverCert.agentPubkey ∧
      g.payload.serverCert.issuer = .user st.chain.user ∧
      st.board.flock = P.genesisId g) ?_ ?_ h
  · exact fun user hu => ⟨rfl, rfl, hu, rfl⟩
  · exact fun log st x cert signer conflict _ hinv _ => hinv

theorem Replays.index {log : List Sealed} {st : State} (h : Replays P g log st) :
    st.chain.nextIndex = log.length + 1 := by
  refine replays_invariant (fun log st => st.chain.nextIndex = log.length + 1) ?_ ?_ h
  · exact fun _ _ => rfl
  · intro log st x cert signer conflict _ hinv _
    simp [State.after, hinv]

def epochCount (log : List Sealed) : ℕ := log.countP fun x => decide (x.kind = .epoch)

theorem epochCount_append (xs ys : List Sealed) :
    epochCount (xs ++ ys) = epochCount xs + epochCount ys := List.countP_append

theorem epochCount_single (x : Sealed) :
    epochCount [x] = if x.kind = .epoch then 1 else 0 := by
  simp [epochCount]

/-- **The epoch is the number of epoch events.** -/
theorem Replays.epoch {log : List Sealed} {st : State} (h : Replays P g log st) :
    st.chain.epoch = epochCount log := by
  refine replays_invariant (fun log st => st.chain.epoch = epochCount log) ?_ ?_ h
  · exact fun _ _ => rfl
  · intro log st x cert signer conflict _ hinv hacc
    rw [epochCount_append, epochCount_single, ← hinv]
    exact hacc.extend.epoch

/-- The epoch of an entry's record counts the epoch events up to and including
the entry. -/
theorem Replays.record_epoch {log : List Sealed} {st : State} {x : Sealed} {cert : CertChain}
    {signer : Signer} {conflict : Option ConflictKind} (h : Replays P g log st)
    (hacc : st.Accepts P x cert signer conflict) :
    x.record.payload.epoch = epochCount (log ++ [x]) := by
  rw [hacc.extend.epoch, Chain.epochFor, h.epoch, epochCount_append, epochCount_single]
  rfl

/-! ### The board -/

/-- The last entry that satisfies `p`, by event id. -/
def lastEvent (P : Primitives) (p : Sealed → Bool) (log : List Sealed) : Option ContentId :=
  (log.filter p).getLast?.map fun x => P.eventId x.event

theorem lastEvent_snoc (p : Sealed → Bool) (log : List Sealed) (x : Sealed) :
    lastEvent P p (log ++ [x]) =
      if p x = true then some (P.eventId x.event) else lastEvent P p log := by
  rw [lastEvent, lastEvent, List.filter_append]
  split
  · rename_i hx
    rw [List.filter_cons_of_pos hx, List.getLast?_append]
    rfl
  · rename_i hx
    rw [List.filter_cons_of_neg hx, List.filter_nil, List.append_nil]

/-- The last event an author signed, in whatever class. -/
def lastBy (P : Primitives) (author : String) (log : List Sealed) : Option ContentId :=
  lastEvent P (fun x => decide (x.event.payload.author = author)) log

theorem Replays.count {log : List Sealed} {st : State} (h : Replays P g log st) :
    st.board.order.length = log.length := by
  refine replays_invariant (fun log st => st.board.order.length = log.length) ?_ ?_ h
  · exact fun _ _ => rfl
  · intro log st x cert signer conflict _ hinv _
    simp [State.after, Board.record, hinv]

theorem Replays.headOf {log : List Sealed} {st : State} (h : Replays P g log st)
    (author : String) : st.board.headOf author = lastBy P author log := by
  refine replays_invariant (fun log st => ∀ a, st.board.headOf a = lastBy P a log) ?_ ?_ h author
  · intro user _ a
    simp [State.genesis, Board.new, Board.headOf, lastBy, lastEvent]
  · intro log st x cert signer conflict _ hinv _ a
    rw [lastBy, lastEvent_snoc, State.after, Board.headOf_record, hinv a]
    simp only [decide_eq_true_eq]
    rfl

/-- Recorded entries never change, and later ones come after them. -/
theorem run_get {log more : List Sealed} {st st' : State} (h : Replays P g log st)
    (hrun : Steps.run (State.replay P) st more = .ok st') {id : ContentId} {e : Entry}
    (hi : e.index ≤ log.length) : st'.board.get id = some e ↔ st.board.get id = some e := by
  induction more generalizing log st with
  | nil =>
    cases hrun
    rfl
  | cons x more ih =>
    obtain ⟨u, hu, hrun⟩ := Steps.run_cons.mp hrun
    obtain ⟨cert, signer, conflict, hacc, rfl⟩ := State.replay_ok.mp hu
    have hnext : Replays P g (log ++ [x]) (st.after P x signer conflict) :=
      Replays.snoc.mpr ⟨st, cert, signer, conflict, h, hacc, rfl⟩
    rw [ih hnext hrun (by simp; omega), State.after, Board.get_record, h.count]
    split
    · rename_i hid
      subst hid
      rw [hacc.vetted.admissible.fresh]
      constructor
      · intro he
        cases he
        simp at hi
      · intro he
        cases he
    · rfl

end Flock
