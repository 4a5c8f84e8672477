/-
Nobody sleeps through what it waits for.

Two places of the service block on a condition variable: who waits for an epoch,
and a stream at the end of the journal.  `set_epoch`, `fail`, `publish` and `stop`
make their change under the mutex and notify after it was released, so another
thread may run in between; and a waiter may be about to sleep when the change
comes.  No wake-up is lost all the same.

* `Service.Current` — the gate has the epoch of the server;
* `waitEpoch_heeds`, `nextFrameOf_heeds` — nothing a waiter waits for changes
  without a notification;
* `wait_epoch_wakes` — waiting for an epoch or a failure;
* `next_frame_wakes` — waiting for the next frame.
-/
import AgentMesh.ConnectionFailures
import AgentMesh.Monitor
import AgentMesh.Turns

open Std Mesh Framing Monitors

namespace Flock

variable {P : Primitives}

/-! ### The gate -/

/-- The loop of `wait_epoch`: go on waiting, or say whether the epoch got there. -/
def waitEpoch (n : ℕ) (g : Gate) : Option Bool :=
  if g.epoch < n ∧ g.failure = none then none else some (decide (n ≤ g.epoch))

theorem waitEpoch_none {n : ℕ} {g : Gate} :
    waitEpoch n g = none ↔ g.epoch < n ∧ g.failure = none := by
  rw [waitEpoch]
  split
  · rename_i hwaits
    exact iff_of_true rfl hwaits
  · rename_i hout
    exact iff_of_false (Option.some_ne_none _) hout

theorem waitEpoch_some {n : ℕ} {g : Gate} {r : Bool} :
    waitEpoch n g = some r ↔ ¬(g.epoch < n ∧ g.failure = none) ∧ decide (n ≤ g.epoch) = r := by
  rw [waitEpoch]
  split
  · rename_i hwaits
    exact iff_of_false (Option.some_ne_none r).symm fun h => h.1 hwaits
  · rename_i hout
    rw [Option.some.injEq, and_iff_right hout]

/-- What a return tells of the gate. -/
theorem waitEpoch_tells {n : ℕ} {g : Gate} {r : Bool} (h : waitEpoch n g = some r) :
    if r then n ≤ g.epoch else g.failure.isSome := by
  obtain ⟨hout, rfl⟩ := waitEpoch_some.mp h
  by_cases hn : n ≤ g.epoch
  · simp [hn]
  · simp only [hn, decide_false, Bool.false_eq_true, if_false]
    rw [Option.isSome_iff_ne_none]
    exact fun hnone => hout ⟨Nat.lt_of_not_le hn, hnone⟩

def Service.moved (x : Service P) : ℕ := x.gate.moved

/-- Setting the epoch and recording a failure are all that touches the gate. -/
theorem Access.gate_moved {x y : Service P} {c c' : Conn} {act : ThreadAct}
    (h : Access x c act y c') : y.gate = x.gate ∨ y.gate.moved = x.gate.moved + 1 := by
  cases h with
  | unproved _ _ _ same | unread _ _ _ same | worked _ _ _ _ same =>
    rcases same with rfl | rfl
    · exact .inl rfl
    · exact .inr rfl
  | challenged | watched | proved | located | closed | handled | lost | recorded | recordedLast =>
    exact .inr rfl
  | still | declined | farewell | hungUp | read | panicked | placed | cancelled | wrote | left =>
    exact .inl rfl

theorem Service.gate_of_quiet {x : Service P} {a : Service.Act}
    (h : (x.step a).moved ≤ x.moved) : (x.step a).gate = x.gate := by
  have hmove := x.step_moves a
  unfold Service.moved at h
  generalize x.step a = y at hmove h
  cases hmove with
  | @accesses id act c c' y known access =>
    rcases access.gate_moved with hsame | hmoved
    · exact hsame
    · have hle : y.gate.moved ≤ x.gate.moved := h
      omega
  | idle | takes | ends | drops | accepts | flagged | drained | stopped => rfl

theorem waitEpoch_heeds (n : ℕ) :
    Monitor.Heeds (Service.step (P := P)) Service.gate Service.moved (waitEpoch n) := by
  intro x a hquiet hnone
  rw [Service.gate_of_quiet hquiet]
  exact hnone

/-- The gate has the epoch of the server. -/
def Service.Current (x : Service P) : Prop := x.gate.epoch = x.server.st.chain.epoch

theorem Access.current {x y : Service P} {c c' : Conn} {act : ThreadAct}
    (h : Access x c act y c') (hx : x.Current) : y.Current := by
  cases h with
  | unproved _ _ _ same | unread _ _ _ same | worked _ _ _ _ same =>
    rcases same with rfl | rfl
    · exact hx
    · rfl
  | challenged | watched | proved | located | closed | handled | lost => rfl
  | still | declined | farewell | hungUp | read | panicked | placed | cancelled | recorded
  | recordedLast | wrote | left => exact hx

/-- What waiting for an epoch rests on. -/
structure Service.Gated (x : Service P) : Prop where
  current : x.Current
  recorded : x.Recorded

theorem Service.Gated.step {x : Service P} (h : x.Gated) (a : Service.Act) : (x.step a).Gated := by
  have hmove := x.step_moves a
  refine ⟨?_, hmove.recorded h.recorded⟩
  generalize x.step a = y at hmove
  cases hmove with
  | accesses id act known access => exact access.current h.current
  | idle | takes | ends | drops | accepts | flagged | drained | stopped => exact h.current

theorem Service.step_epoch_le (x : Service P) (a : Service.Act) :
    x.server.st.chain.epoch ≤ (x.step a).server.st.chain.epoch := by
  have hdoes := x.run_does [a]
  exact hdoes.later.epoch_le

theorem Service.start_gated (s : Server P) (rootPaths : BTreeMap String String)
    (contentId : MerkleNode StreamChallenge → Except String ContentId) (classes : List Class) :
    (Service.start s rootPaths contentId classes).Gated := by
  refine ⟨rfl, fun h => ?_, fun c hc => ?_⟩
  · cases h
  · cases hc

theorem Service.foldl_step (x : Service P) (acts : List Service.Act) :
    acts.foldl Service.step x = x.run acts := rfl

/-- **Waiting for an epoch.**  Serve any server, let its threads interleave in any
way, and let any number of threads wait for epochs among them.  Who sleeps while
every change was announced waits for an epoch that was not reached, and nothing
has failed.  Who returned `true` waited for an epoch that is reached from then on;
who returned `false` did so because the server has stopped.  And whenever the
epoch is reached or a failure recorded, a waiter returns at its next turn after
what is owed was announced, and returns whether the epoch is reached. -/
theorem wait_epoch_wakes (s : Server P) (rootPaths : BTreeMap String String)
    (contentId : MerkleNode StreamChallenge → Except String ContentId) (classes : List Class)
    (turns : List (Monitors.Turn Service.Act Gate Bool)) {i n : ℕ} {state : Waiting Bool}
    (hw : (Monitor.run Service.step Service.gate Service.moved
      ⟨Service.start s rootPaths contentId classes, 0, []⟩ turns).waits[i]? =
        some ⟨waitEpoch n, state⟩) :
    let m := Monitor.run Service.step Service.gate Service.moved
      ⟨Service.start s rootPaths contentId classes, 0, []⟩ turns
    let epoch := m.system.server.st.chain.epoch
    (state = .asleep → m.owed = 0 → epoch < n ∧ m.system.gate.failure = none) ∧
    (state = .returned true → n ≤ epoch) ∧
    (state = .returned false → m.system.gate.failure.isSome ∧ m.system.server.poisoned = true) ∧
    ((∀ r, state ≠ .returned r) → n ≤ epoch ∨ m.system.gate.failure.isSome →
      (m.run Service.step Service.gate Service.moved
        (List.replicate m.owed .announce ++ [.look i])).waits[i]? =
          some ⟨waitEpoch n, .returned (decide (n ≤ epoch))⟩) := by
  intro m epoch
  let m₀ : Monitor (Service P) Gate Bool := ⟨Service.start s rootPaths contentId classes, 0, []⟩
  have hgated₀ : m₀.system.Gated := Service.start_gated s rootPaths contentId classes
  have hawake : m.Awake Service.step Service.gate Service.moved :=
    Monitor.Awake.run (m := m₀) (fun _ w hw => absurd hw List.not_mem_nil) turns
  have hgated : m.system.Gated := Monitor.run_system (fun _ a h => h.step a) hgated₀ turns
  have hgate : m.system.gate.epoch = epoch := hgated.current
  -- what a return says, now and later
  let K : (Gate → Option Bool) → Bool → Service P → Prop := fun test r x =>
    ∀ n, test = waitEpoch n → if r then n ≤ x.server.st.chain.epoch else x.gate.failure.isSome
  have hanswered : m.Answered K := by
    refine Monitor.Answered.run (m := m₀) (I := Service.Gated) (fun _ a h => h.step a) ?_ ?_ hgated₀
      (fun w hw => absurd hw List.not_mem_nil) turns
    · rintro test r x hx hr n rfl
      have hcurrent : x.gate.epoch = x.server.st.chain.epoch := hx.current
      rw [← hcurrent]
      exact waitEpoch_tells hr
    · rintro test r x a hx hk n rfl
      have hbefore := hk n rfl
      cases r with
      | true => exact Nat.le_trans hbefore (x.step_epoch_le a)
      | false =>
        obtain ⟨why, hwhy⟩ := Option.isSome_iff_exists.mp hbefore
        show (x.step a).gate.failure.isSome = true
        rw [((x.step_moves a).failed hwhy).1]
        rfl
  have hreturned := hanswered _ (List.mem_of_getElem? hw)
  refine ⟨fun hasleep howed => ?_, fun hr => ?_, fun hr => ?_, fun hwaits hout => ?_⟩
  · have hnone := hawake howed _ (List.mem_of_getElem? hw) (waitEpoch_heeds n) hasleep
    obtain ⟨hlt, hfailure⟩ := waitEpoch_none.mp hnone
    exact ⟨hgate ▸ hlt, hfailure⟩
  · exact hreturned true hr n rfl
  · have hfailure : m.system.gate.failure.isSome = true := hreturned false hr n rfl
    exact ⟨hfailure, hgated.recorded.failure hfailure⟩
  · refine Monitor.delivered hawake hw (waitEpoch_heeds n) ?_ hwaits
    refine waitEpoch_some.mpr ⟨?_, by rw [hgate]⟩
    rintro ⟨hlt, hnone⟩
    rcases hout with hle | hsome
    · omega
    · rw [hnone] at hsome
      cases hsome

set_option maxRecDepth 100000 in
/-- Who waits for the small flock's first epoch sleeps until its session ended,
and returns once that was announced. -/
theorem wait_epoch_wakes_small :
    ∃ s, Server.open_ Small.lifeKey Small.signedGenesis ⟨[], []⟩ ⟨[], []⟩ = .ok s ∧
      let m := Monitor.run Service.step Service.gate Service.moved
        ⟨Service.start s ∅ Small.contentId [.owner], 0, []⟩
        ([.join (waitEpoch 1), .look 0] ++ (Small.enrolls ++ Small.hangsUp).map .act)
      m.waits[0]? = some ⟨waitEpoch 1, .asleep⟩ ∧
      (m.run Service.step Service.gate Service.moved
        (List.replicate m.owed .announce ++ [.look 0])).waits[0]? =
          some ⟨waitEpoch 1, .returned true⟩ := by
  have hafter : 1 ≤ ((Service.start Small.life ∅ Small.contentId [.owner]).run
      (Small.enrolls ++ Small.hangsUp)).server.st.chain.epoch := by
    decide +kernel
  have hvain : waitEpoch 1 (Service.start Small.life ∅ Small.contentId [.owner]).gate = none := by
    decide +kernel
  obtain ⟨hasleep, hsystem⟩ := Monitor.run_asleep Service.step Service.gate Service.moved
    (Service.start Small.life ∅ Small.contentId [.owner]) hvain (Small.enrolls ++ Small.hangsUp)
  obtain ⟨-, -, -, hreturns⟩ := wait_epoch_wakes Small.life ∅ Small.contentId [.owner] _ hasleep
  rw [hsystem, Service.foldl_step] at hreturns
  have hreached := hreturns (by intro r h; cases h) (.inl hafter)
  rw [decide_eq_true hafter] at hreached
  exact ⟨Small.life, Small.life_open, hasleep, hreached⟩

/-! ### The journal -/

/-- What `next_frame` looks at: the frames, whether the journal is stopped, and
which connections' streams are cancelled. -/
structure Tail where
  frames : List Published
  stopped : Bool
  cancelled : List Bool

def Stage.cancelled : Stage → Bool
  | .streaming k => k.cancelled
  | _ => false

def Service.tail (x : Service P) : Tail :=
  ⟨x.server.journal, x.journalStopped, x.conns.map fun c => c.stage.cancelled⟩

/-- Whether the stream of connection `id` is cancelled. -/
def Tail.over_ (v : Tail) (id : ℕ) : Bool := v.cancelled[id]?.getD false

/-- The loop of `next_frame`, for the cursor of connection `id` at `next`. -/
def nextFrameOf (id next : ℕ) (v : Tail) : Option Next :=
  match Journal.nextFrame v.frames v.stopped (v.over_ id) next with
  | .waits => none
  | r => some r

theorem Journal.nextFrame_waits {frames : List Published} {stopped cancelled : Bool} {next : ℕ} :
    Journal.nextFrame frames stopped cancelled next = .waits ↔
      cancelled = false ∧ frames[next]? = none ∧ stopped = false := by
  unfold Journal.nextFrame
  cases cancelled with
  | true => simp
  | false => cases frames[next]? <;> cases stopped <;> simp

theorem nextFrameOf_none {id next : ℕ} {v : Tail} :
    nextFrameOf id next v = none ↔
      v.over_ id = false ∧ v.frames[next]? = none ∧ v.stopped = false := by
  rw [← Journal.nextFrame_waits, nextFrameOf]
  cases Journal.nextFrame v.frames v.stopped (v.over_ id) next <;> simp

theorem nextFrameOf_frame {id next : ℕ} {v : Tail} {p : Published} :
    nextFrameOf id next v = some (.frame p) ↔ v.over_ id = false ∧ v.frames[next]? = some p := by
  rw [← @Journal.nextFrame_frame v.frames v.stopped, nextFrameOf]
  cases Journal.nextFrame v.frames v.stopped (v.over_ id) next <;> simp

theorem Access.published {x y : Service P} {c c' : Conn} {act : ThreadAct}
    (h : Access x c act y c') :
    x.more + (y.server.journal.length - x.server.journal.length) ≤ y.more := by
  have hsame : x.more + (x.server.journal.length - x.server.journal.length) ≤ x.more := by omega
  cases h with
  | unproved _ _ _ same | unread _ _ _ same | worked _ _ _ _ same =>
    rcases same with rfl | rfl
    · exact hsame
    · exact Nat.le_refl _
  | challenged | watched | proved | located | closed | handled | lost => exact Nat.le_refl _
  | cancelled => exact Nat.le_succ_of_le hsame
  | still | declined | farewell | hungUp | read | panicked | placed | recorded | recordedLast
  | wrote | left => exact hsame

theorem Conn.follow_cancelled {c : Conn} {k : Worker} (h : k.cancelled = false) :
    (c.follow k).stage.cancelled = false := by
  unfold Conn.follow
  split
  · rfl
  · exact h

theorem Worker.step_cancelled (k : Worker) (s : Server P) (stopped : Bool) (w w' : Sock) :
    (k.step s stopped w w').cancelled = k.cancelled := by
  unfold Worker.step
  split <;> rfl

theorem stream_cancelled (frames : List Published) (session : String) (from_ : Option Head)
    (w : Sock) : (stream P frames session from_ w).cancelled = false := by
  unfold stream
  split <;> rfl

theorem Service.answered_cancelled (result : Except ServerError Answer) (more : Bool) :
    (Service.answered result more).cancelled = false := by
  unfold Service.answered
  split
  · rfl
  · split <;> rfl

/-- A stream is cancelled by a cancellation, which is announced. -/
theorem Access.uncancelled {x y : Service P} {c c' : Conn} {act : ThreadAct}
    (h : Access x c act y c') (hquiet : y.more ≤ x.more) (hc : c.stage.cancelled = false) :
    c'.stage.cancelled = false := by
  cases h with
  | still => exact hc
  | cancelled => exact absurd hquiet (Nat.not_succ_le_self _)
  | placed => exact Conn.follow_cancelled (stream_cancelled _ _ _ _)
  | worked k streaming =>
    rw [streaming] at hc
    exact Conn.follow_cancelled ((k.step_cancelled _ _ _ _).trans hc)
  | closed | handled => exact Service.answered_cancelled _ _
  | lost _ _ _ _ ends => rcases ends with rfl | ⟨e, -, rfl, -⟩ <;> rfl
  | wrote answer more answering w =>
    show Stage.cancelled (if w = .done ∧ more = true then .reading else .leaving) = false
    split <;> rfl
  | declined | challenged | watched | proved | unproved | unread | located | farewell | hungUp
  | read | panicked | recorded | recordedLast | left => rfl

theorem Service.over_tail {x : Service P} {id : ℕ} :
    x.tail.over_ id = false ↔ ∀ c, x.conns[id]? = some c → c.stage.cancelled = false := by
  simp only [Tail.over_, tail, List.getElem?_map]
  cases x.conns[id]? <;> simp

/-- Without an announcement the journal is as it was, and no stream is newly
cancelled. -/
theorem Service.tail_of_quiet {x : Service P} {a : Service.Act} (h : (x.step a).more ≤ x.more) :
    (x.step a).server.journal = x.server.journal ∧
      (x.step a).journalStopped = x.journalStopped ∧
      ∀ id, x.tail.over_ id = false → (x.step a).tail.over_ id = false := by
  have hgrows : x.server.journal <+: (x.step a).server.journal := (x.run_does [a]).journal_grows
  have hmove := x.step_moves a
  generalize x.step a = y at hmove h hgrows
  cases hmove with
  | idle | takes | ends | drops | flagged => exact ⟨rfl, rfl, fun _ hid => hid⟩
  | stopped draining => exact ⟨rfl, by simp [journalStopped, draining], fun _ hid => hid⟩
  | drained => exact absurd h (Nat.not_succ_le_self _)
  | accepts k class_ =>
    refine ⟨rfl, rfl, fun id => ?_⟩
    simp only [over_tail]
    intro hid d hd
    rw [List.getElem?_append] at hd
    split at hd
    · exact hid d hd
    · rw [List.mem_singleton.mp (List.mem_of_getElem? hd)]
      rfl
  | @accesses id act c c' y known access =>
    have hquiet : y.more ≤ x.more := h
    have hpublished := access.published
    refine ⟨(hgrows.eq_of_length_le ?_).symm, ?_, fun id' => ?_⟩
    · show y.server.journal.length ≤ x.server.journal.length
      omega
    · simp only [journalStopped, access.framed.stopping]
    · simp only [over_tail]
      intro hid d hd
      rw [List.getElem?_set] at hd
      split at hd
      · rename_i hsame
        split at hd
        · cases hd
          exact access.uncancelled hquiet (hid c (hsame ▸ known))
        · cases hd
      · exact hid d hd

theorem nextFrameOf_heeds (id next : ℕ) :
    Monitor.Heeds (Service.step (P := P)) Service.tail Service.more (nextFrameOf id next) := by
  intro x a hquiet hnone
  obtain ⟨hover, hend, hstopped⟩ := nextFrameOf_none.mp hnone
  obtain ⟨hjournal, hstop, hcancelled⟩ := Service.tail_of_quiet hquiet
  refine nextFrameOf_none.mpr ⟨hcancelled id hover, ?_, hstop.trans hstopped⟩
  show (x.step a).server.journal[next]? = none
  rw [hjournal]
  exact hend

/-- **Waiting for the next frame.**  Serve any server, let its threads interleave
in any way, and let any number of cursors wait at any place among them.  A cursor
that sleeps while every change was announced has no frame to deliver, and neither
is the journal stopped nor its own stream cancelled.  A frame that was delivered
is the one the journal has at that place, from then on.  And whenever there is a
frame at its place, a cursor that was not cancelled returns that frame at its next
turn after what is owed was announced. -/
theorem next_frame_wakes (s : Server P) (rootPaths : BTreeMap String String)
    (contentId : MerkleNode StreamChallenge → Except String ContentId) (classes : List Class)
    (turns : List (Monitors.Turn Service.Act Tail Next)) {i id next : ℕ} {state : Waiting Next}
    (hw : (Monitor.run Service.step Service.tail Service.more
      ⟨Service.start s rootPaths contentId classes, 0, []⟩ turns).waits[i]? =
        some ⟨nextFrameOf id next, state⟩) :
    let m := Monitor.run Service.step Service.tail Service.more
      ⟨Service.start s rootPaths contentId classes, 0, []⟩ turns
    let frame := m.system.server.journal[next]?
    let cancelled := m.system.tail.over_ id
    (state = .asleep → m.owed = 0 →
      cancelled = false ∧ frame = none ∧ m.system.journalStopped = false) ∧
    (∀ p, state = .returned (.frame p) → frame = some p) ∧
    ((∀ r, state ≠ .returned r) → cancelled = false → ∀ p, frame = some p →
      (m.run Service.step Service.tail Service.more
        (List.replicate m.owed .announce ++ [.look i])).waits[i]? =
          some ⟨nextFrameOf id next, .returned (.frame p)⟩) := by
  intro m frame cancelled
  let m₀ : Monitor (Service P) Tail Next := ⟨Service.start s rootPaths contentId classes, 0, []⟩
  have hawake : m.Awake Service.step Service.tail Service.more :=
    Monitor.Awake.run (m := m₀) (fun _ w hw => absurd hw List.not_mem_nil) turns
  let K : (Tail → Option Next) → Next → Service P → Prop :=
    fun test r x => ∀ id next p, test = nextFrameOf id next → r = .frame p →
      x.server.journal[next]? = some p
  have hanswered : m.Answered K := by
    refine Monitor.Answered.run (m := m₀) (I := fun _ => True) (fun _ _ _ => trivial) ?_ ?_ trivial
      (fun w hw => absurd hw List.not_mem_nil) turns
    · rintro test r x - hr id next p rfl rfl
      exact (nextFrameOf_frame.mp hr).2
    · intro test r x a _ hk id next p htest hr
      -- the journal only grows
      have hgrows : x.server.journal <+: (x.step a).server.journal := (x.run_does [a]).journal_grows
      exact Segments.getElem?_grown hgrows (hk id next p htest hr)
  refine ⟨fun hasleep howed => ?_, fun p hr => ?_, fun hwaits hcancelled p hp => ?_⟩
  · exact nextFrameOf_none.mp
      (hawake howed _ (List.mem_of_getElem? hw) (nextFrameOf_heeds id next) hasleep)
  · exact hanswered _ (List.mem_of_getElem? hw) _ hr id next p rfl rfl
  · exact Monitor.delivered hawake hw (nextFrameOf_heeds id next)
      (nextFrameOf_frame.mpr ⟨hcancelled, hp⟩) hwaits

set_option maxRecDepth 100000 in
/-- A cursor that waits at the end of the small flock's journal sleeps until a
frame is published, and returns it once that was announced. -/
theorem next_frame_wakes_small :
    ∃ s, Server.open_ Small.lifeKey Small.signedGenesis ⟨[], []⟩ ⟨[], []⟩ = .ok s ∧
      let m := Monitor.run Service.step Service.tail Service.more
        ⟨Service.start s ∅ Small.contentId [.owner], 0, []⟩
        ([.join (nextFrameOf 0 0), .look 0] ++ Small.enrolls.map .act)
      m.waits[0]? = some ⟨nextFrameOf 0 0, .asleep⟩ ∧
      ∃ p, (m.run Service.step Service.tail Service.more
        (List.replicate m.owed .announce ++ [.look 0])).waits[0]? =
          some ⟨nextFrameOf 0 0, .returned (.frame p)⟩ := by
  have hafter : ((Service.start Small.life ∅ Small.contentId [.owner]).run
      Small.enrolls).server.journal[0]?.isSome := by
    decide +kernel
  have hvain : nextFrameOf 0 0 (Service.start Small.life ∅ Small.contentId [.owner]).tail = none :=
    nextFrameOf_none.mpr ⟨rfl, by decide +kernel, rfl⟩
  obtain ⟨hasleep, hsystem⟩ := Monitor.run_asleep Service.step Service.tail Service.more
    (Service.start Small.life ∅ Small.contentId [.owner]) hvain Small.enrolls
  obtain ⟨-, -, hreturns⟩ := next_frame_wakes Small.life ∅ Small.contentId [.owner] _ hasleep
  rw [hsystem, Service.foldl_step] at hreturns
  obtain ⟨p, hp⟩ := Option.isSome_iff_exists.mp hafter
  exact ⟨Small.life, Small.life_open, hasleep, p,
    hreturns (by intro r h; cases h) (by decide +kernel) p hp⟩

end Flock
