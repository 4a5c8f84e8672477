/-
The gate of the bridge.

A bridge carries streams to a flock's server: at home each session of the flock's
topic to the attach socket, elsewhere each local connection to a session with the
home.  Either way a stream takes a place first, and what it opens behind the gate
is dropped before its place is given back.  Streams run beside each other, and any
of them may be cancelled wherever it waits.

* `Stream.Moves` — what a move of one stream does to the gate;
* `Streams.Counted` — the gate's numbers are those of the streams that hold a
  place, and within the limits;
* `gate_keeps_limits` — over every run, with who is turned away and what is left
  in the end.
-/
import AgentMesh.Handshake

namespace Bridge

/-! ### The gate -/

/-- How many streams may be open at once, in all and from any one peer. -/
structure Limits where
  total : ℕ
  perPeer : ℕ

structure Open where
  total : ℕ
  byPeer : String → Option ℕ

def Open.new : Open := ⟨0, fun _ => none⟩

structure Gate where
  limits : Limits
  open_ : Open

namespace Gate

def new (limits : Limits) : Gate := ⟨limits, .new⟩

/-- Take a place for `who`, unless the total or `who`'s share is full. -/
def tryAcquire (g : Gate) (who : String) : Option Gate :=
  let mine := (g.open_.byPeer who).getD 0
  if g.limits.total ≤ g.open_.total ∨ g.limits.perPeer ≤ mine then none
  else
    some { g with
      open_ := ⟨g.open_.total + 1, Function.update g.open_.byPeer who (some (mine + 1))⟩ }

/-- A permit of `who` is dropped.  The total saturates; the peer's number is never
0 (`Streams.Counted.byPeer`), where the source would overflow. -/
def dropPermit (g : Gate) (who : String) : Gate :=
  { g with
    open_ :=
      ⟨g.open_.total - 1,
        match g.open_.byPeer who with
        | some n => Function.update g.open_.byPeer who (if n - 1 = 0 then none else some (n - 1))
        | none => g.open_.byPeer⟩ }

theorem tryAcquire_some {g g' : Gate} {who : String} (h : g.tryAcquire who = some g') :
    g.open_.total < g.limits.total ∧ (g.open_.byPeer who).getD 0 < g.limits.perPeer ∧
      g' = { g with
        open_ := ⟨g.open_.total + 1,
          Function.update g.open_.byPeer who (some ((g.open_.byPeer who).getD 0 + 1))⟩ } := by
  rw [tryAcquire] at h
  split at h
  · cases h
  · rename_i hroom
    push Not at hroom
    exact ⟨hroom.1, hroom.2, (Option.some.inj h).symm⟩

end Gate

/-! ### Streams -/

/-- The two ends of a bridge: `serve_home` and `serve_proxy`. -/
inductive Side where
  | home
  | proxy

inductive Stage where
  /-- A session asks for the topic, or a local connection came. -/
  | called
  /-- It got no place, and answers. -/
  | declining (v : Bus.Verdict)
  /-- It has a place, and connects to what is behind the gate. -/
  | connecting
  /-- It has a place, and answers. -/
  | answering (v : Bus.Verdict)
  | piping
  /-- The pipe is over.  The backend was told, and is read to its end. -/
  | closing
  /-- All but the place is dropped. -/
  | leaving
  | ended

structure Stream where
  who : String
  stage : Stage

inductive Move where
  | acquire
  | connect (r : Except String Unit)
  | answered (ok : Bool)
  /-- Either direction ended or failed. -/
  | pipeEnds
  | drained
  /-- Its task is dropped where it waits. -/
  | cancel
  /-- Its permit is dropped. -/
  | leave

/-- Whether a stream has a permit. -/
def Stage.holds : Stage → Bool
  | .called | .declining _ | .ended => false
  | .connecting | .answering _ | .piping | .closing | .leaving => true

/-- Whether it is connected to what is behind the gate. -/
def Stage.connected : Stage → Bool
  | .answering .accept | .piping | .closing => true
  | _ => false

/-- Who a stream counts for. -/
def Side.who (peer : String) : Side → String
  | .home => peer
  | .proxy => "local"

/-- Without a place, a session is refused and a connection just ends. -/
def Side.full : Side → Stage
  | .home => .declining (.refuse "too many open sessions")
  | .proxy => .ended

def Side.next : Side → Stage → Move → Stage
  | .home, .connecting, .connect (.ok ()) => .answering .accept
  | .home, .connecting, .connect (.error e) =>
    .answering (.refuse ("the flock is not serving: " ++ e))
  | .proxy, .connecting, .connect (.ok ()) => .piping
  | .proxy, .connecting, .connect (.error _) => .leaving
  | _, .declining _, .answered _ => .ended
  | _, .answering .accept, .answered true => .piping
  | _, .answering _, .answered _ => .leaving
  | _, .piping, .pipeEnds => .closing
  | _, .closing, .drained => .leaving
  -- the permit was declared first, so it is dropped last
  | _, stage, .cancel => if stage.holds then .leaving else .ended
  | _, stage, _ => stage

def Stream.move (side : Side) (g : Gate) (s : Stream) (m : Move) : Gate × Stream :=
  match s.stage, m with
  | .called, .acquire =>
    match g.tryAcquire s.who with
    | some g => (g, { s with stage := .connecting })
    | none => (g, { s with stage := side.full })
  | .leaving, .leave => (g.dropPermit s.who, { s with stage := .ended })
  | stage, m => (g, { s with stage := side.next stage m })

/-- The streams at one end of a bridge. -/
structure Streams where
  gate : Gate
  streams : List Stream

inductive Streams.Act where
  | arrive (peer : String)
  | move (i : ℕ) (m : Move)

namespace Streams

variable (side : Side)

def start (limits : Limits) : Streams := ⟨.new limits, []⟩

def step (x : Streams) : Streams.Act → Streams
  | .arrive peer => { x with streams := x.streams ++ [⟨side.who peer, .called⟩] }
  | .move i m =>
    match x.streams[i]? with
    | some s => ⟨(s.move side x.gate m).1, x.streams.set i (s.move side x.gate m).2⟩
    | none => x

def run (x : Streams) (acts : List Streams.Act) : Streams := acts.foldl (step side) x

end Streams

def held (streams : List Stream) : ℕ := streams.countP fun s => s.stage.holds

def heldBy (streams : List Stream) (who : String) : ℕ :=
  streams.countP fun s => s.stage.holds && decide (s.who = who)

/-! ### One move -/

theorem Side.next_holds (side : Side) (stage : Stage) (m : Move) :
    (side.next stage m).holds = stage.holds := by
  unfold Side.next
  split
  case h_10 => split <;> simp_all [Stage.holds]
  all_goals rfl

theorem Side.full_holds (side : Side) : side.full.holds = false := by
  cases side <;> rfl

theorem Stage.holds_of_connected {stage : Stage} (h : stage.connected = true) :
    stage.holds = true := by
  unfold Stage.connected at h
  split at h
  · rfl
  · rfl
  · rfl
  · cases h

/-- What a move does to the gate and to the place of its stream. -/
inductive Stream.Moves (g : Gate) (s : Stream) : Gate → Stream → Prop
  | quiet (stage : Stage) (same : stage.holds = s.stage.holds) : Moves g s g ⟨s.who, stage⟩
  | takes {g' : Gate} (taken : g.tryAcquire s.who = some g') (free : s.stage.holds = false) :
    Moves g s g' ⟨s.who, .connecting⟩
  | gives (has : s.stage.holds = true) : Moves g s (g.dropPermit s.who) ⟨s.who, .ended⟩

theorem Stream.move_moves (side : Side) (g : Gate) (s : Stream) (m : Move) :
    Stream.Moves g s (s.move side g m).1 (s.move side g m).2 := by
  obtain ⟨who, stage⟩ := s
  unfold Stream.move
  split
  · rename_i hstage
    have hcalled : stage = .called := hstage
    subst hcalled
    split
    · rename_i htaken
      exact .takes htaken rfl
    · exact .quiet _ side.full_holds
  · rename_i hstage
    have hleaving : stage = .leaving := hstage
    subst hleaving
    exact .gives rfl
  · exact .quiet _ (side.next_holds _ _)

/-! ### The numbers of the gate -/

/-- How a count changes with one place of a list. -/
theorem countP_set_add {α : Type} (p : α → Bool) {l : List α} {i : ℕ} {a : α} (b : α)
    (h : l[i]? = some a) : (l.set i b).countP p + (p a).toNat = l.countP p + (p b).toNat := by
  obtain ⟨hlt, rfl⟩ := List.getElem?_eq_some_iff.mp h
  have hpos : (p l[i]).toNat ≤ l.countP p := by
    cases hp : p l[i] with
    | false => exact Nat.zero_le _
    | true => exact List.countP_pos_iff.mpr ⟨l[i], List.getElem_mem hlt, hp⟩
  have hbool : ∀ b : Bool, (if b = true then 1 else 0) = b.toNat := by decide
  rw [List.countP_set hlt, hbool, hbool]
  omega

/-- What a stream's new stage does to the counts: nothing to another peer's. -/
theorem held_set {streams : List Stream} {i : ℕ} {s : Stream} (hs : streams[i]? = some s)
    (stage : Stage) :
    let streams' := streams.set i ⟨s.who, stage⟩
    held streams' + s.stage.holds.toNat = held streams + stage.holds.toNat ∧
      heldBy streams' s.who + s.stage.holds.toNat = heldBy streams s.who + stage.holds.toNat ∧
      ∀ who ≠ s.who, heldBy streams' who = heldBy streams who := by
  have hheldBy := fun who =>
    countP_set_add (fun s : Stream => s.stage.holds && decide (s.who = who)) ⟨s.who, stage⟩ hs
  refine ⟨countP_set_add (fun s : Stream => s.stage.holds) _ hs, ?_, fun who hwho => ?_⟩
  · simpa [heldBy] using hheldBy s.who
  · simpa [heldBy, Ne.symm hwho] using hheldBy who

namespace Streams

/-- **The gate counts the streams that have a place**, and they are within the
limits. -/
structure Counted (limits : Limits) (x : Streams) : Prop where
  fixed : x.gate.limits = limits
  total : x.gate.open_.total = held x.streams
  byPeer : ∀ who, x.gate.open_.byPeer who =
    if heldBy x.streams who = 0 then none else some (heldBy x.streams who)
  within : held x.streams ≤ limits.total
  share : ∀ who, heldBy x.streams who ≤ limits.perPeer

variable {limits : Limits} {x : Streams}

theorem start_counted (limits : Limits) : (start limits).Counted limits :=
  ⟨rfl, rfl, fun _ => rfl, Nat.zero_le _, fun _ => Nat.zero_le _⟩

theorem Counted.getD (h : x.Counted limits) (who : String) :
    (x.gate.open_.byPeer who).getD 0 = heldBy x.streams who := by
  rw [h.byPeer]
  split
  · rename_i hnone
    exact hnone.symm
  · rfl

/-- One stream changes: its own peer's numbers are to be seen to, no other's. -/
theorem Counted.set (h : x.Counted limits) {i : ℕ} {s : Stream} (hs : x.streams[i]? = some s)
    {stage : Stage} {streams : List Stream} (hset : x.streams.set i ⟨s.who, stage⟩ = streams)
    {g : Gate} (fixed : g.limits = limits) (total : g.open_.total = held streams)
    (mine : g.open_.byPeer s.who =
      if heldBy streams s.who = 0 then none else some (heldBy streams s.who))
    (others : ∀ who ≠ s.who, g.open_.byPeer who = x.gate.open_.byPeer who)
    (within : held streams ≤ limits.total) (share : heldBy streams s.who ≤ limits.perPeer) :
    Counted limits ⟨g, streams⟩ := by
  subst hset
  have hother := (held_set hs stage).2.2
  refine ⟨fixed, total, fun who => ?_, within, fun who => ?_⟩
  · by_cases hwho : who = s.who
    · exact hwho ▸ mine
    · rw [others who hwho, hother who hwho]
      exact h.byPeer who
  · by_cases hwho : who = s.who
    · exact hwho ▸ share
    · rw [hother who hwho]
      exact h.share who

theorem Counted.quiet (h : x.Counted limits) {i : ℕ} {s : Stream} (hs : x.streams[i]? = some s)
    {stage : Stage} (same : stage.holds = s.stage.holds) :
    Counted limits ⟨x.gate, x.streams.set i ⟨s.who, stage⟩⟩ := by
  obtain ⟨hheld, hmine, -⟩ := held_set hs stage
  rw [same, Nat.add_right_cancel_iff] at hheld hmine
  refine h.set hs rfl h.fixed ?_ ?_ (fun _ _ => rfl) ?_ ?_
  · rw [hheld, h.total]
  · rw [hmine, h.byPeer]
  · rw [hheld]
    exact h.within
  · rw [hmine]
    exact h.share s.who

theorem Counted.takes (h : x.Counted limits) {i : ℕ} {s : Stream} {g : Gate}
    (hs : x.streams[i]? = some s) (taken : x.gate.tryAcquire s.who = some g)
    (free : s.stage.holds = false) :
    Counted limits ⟨g, x.streams.set i ⟨s.who, .connecting⟩⟩ := by
  obtain ⟨hroom, hshare, rfl⟩ := Gate.tryAcquire_some taken
  rw [h.getD, h.fixed] at hshare
  rw [h.total, h.fixed] at hroom
  obtain ⟨hheld, hmine, -⟩ := held_set hs .connecting
  rw [free] at hheld hmine
  change held _ = held x.streams + 1 at hheld
  change heldBy _ s.who = heldBy x.streams s.who + 1 at hmine
  refine h.set hs rfl h.fixed ?_ ?_ (fun who hwho => ?_) ?_ ?_
  · rw [hheld, h.total]
  · simp [hmine, h.getD]
  · exact Function.update_of_ne hwho _ _
  · rw [hheld]
    exact hroom
  · rw [hmine]
    exact hshare

theorem Counted.gives (h : x.Counted limits) {i : ℕ} {s : Stream} (hs : x.streams[i]? = some s)
    (has : s.stage.holds = true) :
    Counted limits ⟨x.gate.dropPermit s.who, x.streams.set i ⟨s.who, .ended⟩⟩ := by
  obtain ⟨hheld, hmine, -⟩ := held_set hs .ended
  rw [has] at hheld hmine
  change held _ + 1 = held x.streams at hheld
  change heldBy _ s.who + 1 = heldBy x.streams s.who at hmine
  -- the peer is in the map, and its number is not 0
  have hin : x.gate.open_.byPeer s.who = some (heldBy x.streams s.who) := by
    rw [h.byPeer, if_neg (by omega)]
  have hwithin := h.within
  have hshare := h.share s.who
  refine h.set hs rfl h.fixed ?_ ?_ (fun who hwho => ?_) (by omega) (by omega)
  · simp only [Gate.dropPermit, h.total, ← hheld, Nat.add_sub_cancel]
  · simp only [Gate.dropPermit, hin, ← hmine, Nat.add_sub_cancel, Function.update_self]
  · simp only [Gate.dropPermit, hin, Function.update_of_ne hwho]

theorem Counted.step (h : x.Counted limits) (side : Side) (a : Streams.Act) :
    (x.step side a).Counted limits := by
  cases a with
  | arrive peer =>
    have hheld : held (x.step side (.arrive peer)).streams = held x.streams := by
      simp [held, Streams.step, Stage.holds]
    have hheldBy : heldBy (x.step side (.arrive peer)).streams = heldBy x.streams := by
      funext who
      simp [heldBy, Streams.step, Stage.holds]
    exact ⟨h.fixed, h.total.trans hheld.symm, hheldBy ▸ h.byPeer, hheld ▸ h.within,
      hheldBy ▸ h.share⟩
  | move i m =>
    simp only [Streams.step]
    split
    · rename_i s hs
      have hmoves := s.move_moves side x.gate m
      generalize s.move side x.gate m = r at hmoves
      obtain ⟨g, s'⟩ := r
      cases hmoves with
      | quiet stage same => exact h.quiet hs same
      | takes taken free => exact h.takes hs taken free
      | gives has => exact h.gives hs has
    · exact h

theorem Counted.run (h : x.Counted limits) (side : Side) (acts : List Streams.Act) :
    (x.run side acts).Counted limits := by
  induction acts generalizing x with
  | nil => exact h
  | cons a acts ih => exact ih (h.step side a)

end Streams

/-! ### Whole runs -/

/-- How many of `who`'s streams are connected behind the gate. -/
def connectedBy (streams : List Stream) (who : String) : ℕ :=
  streams.countP fun s => s.stage.connected && decide (s.who = who)

/-- **The gate keeps its limits.**  At either end, after any run of any streams:
the gate's numbers are exactly those of the streams that have a place, and no peer
stands in its map with 0.  What is connected behind the gate, in all and for each
peer, is within the limits.  A stream that asks for a place next is turned away
if, and only if, the total or its peer's share is taken.  And once every stream
has ended, the gate is as new: no place is lost, wherever streams were cancelled. -/
theorem gate_keeps_limits (side : Side) (limits : Limits) (acts : List Streams.Act) :
    let x := (Streams.start limits).run side acts
    (x.gate.open_.total = held x.streams ∧
      ∀ who, (x.gate.open_.byPeer who).getD 0 = heldBy x.streams who ∧
        x.gate.open_.byPeer who ≠ some 0) ∧
    (x.streams.countP (fun s => s.stage.connected) ≤ limits.total ∧
      ∀ who, connectedBy x.streams who ≤ limits.perPeer) ∧
    (∀ i who, x.streams[i]? = some ⟨who, .called⟩ →
      (x.step side (.move i .acquire)).streams[i]? =
        some ⟨who, if limits.total ≤ held x.streams ∨ limits.perPeer ≤ heldBy x.streams who then
          side.full else .connecting⟩) ∧
    ((∀ s ∈ x.streams, s.stage = .ended) → x.gate.open_ = .new) := by
  intro x
  have h : x.Counted limits := (Streams.start_counted limits).run side acts
  refine ⟨⟨h.total, fun who => ⟨h.getD who, ?_⟩⟩, ⟨?_, fun who => ?_⟩, fun i who hs => ?_,
    fun hended => ?_⟩
  · rw [h.byPeer]
    split
    · exact fun hsome => Option.some_ne_none 0 hsome.symm
    · rename_i hpos
      exact fun hzero => hpos (Option.some.inj hzero)
  · refine Nat.le_trans (List.countP_mono_left fun s _ hs => ?_) h.within
    exact Stage.holds_of_connected hs
  · refine Nat.le_trans (List.countP_mono_left fun s _ hs => ?_) (h.share who)
    rw [Bool.and_eq_true] at hs ⊢
    exact ⟨Stage.holds_of_connected hs.1, hs.2⟩
  · have hlt := (List.getElem?_eq_some_iff.mp hs).1
    simp only [Streams.step, hs, Stream.move, Gate.tryAcquire, h.fixed, h.total, h.getD]
    split
    · rename_i hroom
      split at hroom
      · cases hroom
      · rename_i hfree
        simp [hlt, hfree]
    · rename_i hroom
      split at hroom
      · rename_i hfull
        simp [hlt, hfull]
      · cases hroom
  · have hnone : ∀ s ∈ x.streams, s.stage.holds = false := by
      intro s hs
      rw [hended s hs]
      rfl
    have hheld : held x.streams = 0 :=
      List.countP_eq_zero.mpr fun s hs => by simp [hnone s hs]
    have hheldBy : ∀ who, heldBy x.streams who = 0 := fun who =>
      List.countP_eq_zero.mpr fun s hs => by simp [hnone s hs]
    have htotal : x.gate.open_.total = 0 := h.total.trans hheld
    have hbyPeer : x.gate.open_.byPeer = fun _ => none := by
      funext who
      rw [h.byPeer, hheldBy, if_pos rfl]
    show Open.mk x.gate.open_.total x.gate.open_.byPeer = _
    rw [htotal, hbyPeer]
    rfl

/-- With one place for each peer, a second stream of `a` is refused while the first
is piped; one of `b` is let in. -/
theorem gate_keeps_limits_small :
    let x := (Streams.start ⟨2, 1⟩).run .home
      [.arrive "a", .move 0 .acquire, .move 0 (.connect (.ok ())), .move 0 (.answered true),
        .arrive "a", .arrive "b"]
    x.streams.map Stream.stage = [.piping, .called, .called] ∧
      (x.step .home (.move 1 .acquire)).streams[1]? =
        some ⟨"a", .declining (.refuse "too many open sessions")⟩ ∧
      (x.step .home (.move 2 .acquire)).streams[2]? = some ⟨"b", .connecting⟩ := by
  intro x
  obtain ⟨-, -, hacquire, -⟩ := gate_keeps_limits .home ⟨2, 1⟩
    [.arrive "a", .move 0 .acquire, .move 0 (.connect (.ok ())), .move 0 (.answered true),
      .arrive "a", .arrive "b"]
  refine ⟨rfl, (hacquire 1 "a" rfl).trans ?_, (hacquire 2 "b" rfl).trans ?_⟩
  · rw [if_pos (by decide)]
    rfl
  · rw [if_neg (by decide)]

end Bridge
