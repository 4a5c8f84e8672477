/-
Reply waiters, step by step.

A registration takes its token, then puts its waiter into the map; a delivery
removes the waiter under the lock, then sends; dropping a receiver removes the
waiter, if it is still its own, and then closes the channel.  Any number of
these run at once, so a `Room` is the map with every registration, delivery and
receiver in whatever state it is in, and each atomic step of one of them is an
`Act`.  What happened is kept in a log of `Event`s beside it.

* `Moves`, `step_moves` — everything a step can do;
* `Slots.moves` — the map holds exactly the latest registrations that are still
  waiting;
* `waiter_register`, `waiter_deliver`, `waiter_cancel` — with no step in between
  these are the operations of `ReplyWaiter`.
-/
import AgentMesh.Inbox

open Mesh

namespace Bus

namespace Waiters

/-- How far a registration and its receiver have come. -/
inductive Stage where
  /-- `register` has its token and not yet the lock. -/
  | drawn
  /-- The receiver is held. -/
  | live
  /-- The receiver is being dropped: its waiter is removed. -/
  | cancelled
  /-- The channel is closed. -/
  | closed
  deriving DecidableEq

/-- What `register` was called with, and the token it got. -/
structure Registration where
  id : CorrelationId
  peer : Fingerprint
  token : ℕ
  deriving DecidableEq

/-- An entry of the map; `sender` is the registration its channel belongs to. -/
structure Slot where
  pending : PendingReply
  sender : ℕ
  deriving DecidableEq

/-- The map with everything that is going on around it. -/
structure Room where
  waiters : CorrelationId → Option Slot
  nextToken : ℕ
  /-- How many registrations have begun; they are numbered in that order. -/
  count : ℕ
  regs : ℕ → Option Registration
  stage : ℕ → Stage
  /-- What was sent to a receiver and it has not obtained. -/
  inbox : ℕ → List Bytes
  /-- Deliveries that have taken a waiter and not yet sent. -/
  sending : List (ℕ × Bytes)

inductive Act where
  /-- `register` takes a token. -/
  | draw (id : CorrelationId) (peer : Fingerprint)
  /-- `register` inserts its waiter. -/
  | insert (r : ℕ)
  /-- The locked part of `deliver`. -/
  | take (id : CorrelationId) (peer : Fingerprint) (payload : Bytes)
  /-- `deliver` sends: the `k`-th of those that are about to. -/
  | send (k : ℕ)
  /-- A receiver is polled. -/
  | poll (r : ℕ)
  /-- A receiver is dropped: `cancel`. -/
  | cancel (r : ℕ)
  /-- Its channel goes with it. -/
  | close (r : ℕ)
  deriving DecidableEq

inductive Event where
  | inserted (r : ℕ) (id : CorrelationId)
  | delivered (r : ℕ) (id : CorrelationId) (peer : Fingerprint) (payload : Bytes)
  | obtained (r : ℕ) (payload : Bytes)
  | dropped (r : ℕ)
  deriving DecidableEq

namespace Room

def new : Room := ⟨fun _ => none, 0, 0, fun _ => none, fun _ => .drawn, fun _ => [], []⟩

def draw (w : Room) (id : CorrelationId) (peer : Fingerprint) : Room :=
  { w with
    nextToken := (w.nextToken + 1) % 2 ^ 64
    count := w.count + 1
    regs := Function.update w.regs w.count (some ⟨id, peer, w.nextToken⟩) }

def insert (w : Room) (r : ℕ) (reg : Registration) : Room :=
  { w with
    waiters := Function.update w.waiters reg.id (some ⟨⟨reg.token, reg.peer⟩, r⟩)
    stage := Function.update w.stage r .live }

/-- The waiter of `id` is removed, for its delivery. -/
def take (w : Room) (id : CorrelationId) (s : Slot) (payload : Bytes) : Room :=
  { w with
    waiters := Function.update w.waiters id none
    sending := w.sending ++ [(s.sender, payload)] }

/-- The `k`-th delivery sends to `r`, unless the channel is closed. -/
def send (w : Room) (k r : ℕ) (payload : Bytes) : Room :=
  { w with
    sending := w.sending.eraseIdx k
    inbox := if w.stage r = .closed then w.inbox
      else Function.update w.inbox r (w.inbox r ++ [payload]) }

/-- `cancel`, and the receiver's waiter is gone. -/
def cancel (w : Room) (r : ℕ) (reg : Registration) : Room :=
  { w with
    waiters := if (w.waiters reg.id).any fun s => decide (s.pending.token = reg.token) then
        Function.update w.waiters reg.id none
      else w.waiters
    stage := Function.update w.stage r .cancelled }

def close (w : Room) (r : ℕ) : Room :=
  { w with
    stage := Function.update w.stage r .closed
    inbox := Function.update w.inbox r [] }

/-- One step; a step that is not to be made changes nothing. -/
def step (w : Room) : Act → Room × List Event
  | .draw id peer => (w.draw id peer, [])
  | .insert r =>
    match w.regs r with
    | some reg => if w.stage r = .drawn then (w.insert r reg, [.inserted r reg.id]) else (w, [])
    | none => (w, [])
  | .take id peer payload =>
    match w.waiters id with
    | none => (w, [])
    | some s =>
      if s.pending.expectedPeerFp ≠ peer then (w, [])
      else (w.take id s payload, [.delivered s.sender id peer payload])
  | .send k =>
    match w.sending[k]? with
    | some (r, payload) => (w.send k r payload, [])
    | none => (w, [])
  | .poll r =>
    match w.inbox r with
    | payload :: rest =>
      if w.stage r = .live then
        ({ w with inbox := Function.update w.inbox r rest }, [.obtained r payload])
      else (w, [])
    | [] => (w, [])
  | .cancel r =>
    match w.regs r with
    | some reg => if w.stage r = .live then (w.cancel r reg, [.dropped r]) else (w, [])
    | none => (w, [])
  | .close r => if w.stage r = .cancelled then (w.close r, []) else (w, [])

end Room

/-- The steps one after another, with what happened. -/
def run (acts : List Act) : Room × List Event :=
  acts.foldl (fun x a => ((x.1.step a).1, x.2 ++ (x.1.step a).2)) (Room.new, [])

theorem run_snoc (acts : List Act) (a : Act) :
    run (acts ++ [a]) =
      (((run acts).1.step a).1, (run acts).2 ++ ((run acts).1.step a).2) := by
  rw [run, List.foldl_append]
  rfl

/-! ### What happened -/

def Event.insertedAs (id : CorrelationId) : Event → Option ℕ
  | .inserted r id' => if id' = id then some r else none
  | _ => none

def Event.payloadTo (r : ℕ) : Event → Option Bytes
  | .delivered r' _ _ payload => if r' = r then some payload else none
  | _ => none

def Event.payloadOf (r : ℕ) : Event → Option Bytes
  | .obtained r' payload => if r' = r then some payload else none
  | _ => none

/-- The latest registration of `id`: the last one put into the map. -/
def latest (log : List Event) (id : CorrelationId) : Option ℕ :=
  (log.filterMap (Event.insertedAs id)).getLast?

/-- What was delivered to a registration. -/
def deliveredTo (log : List Event) (r : ℕ) : List Bytes := log.filterMap (Event.payloadTo r)

def obtainedBy (log : List Event) (r : ℕ) : List Bytes := log.filterMap (Event.payloadOf r)

/-- Nothing was delivered to the registration, and its receiver was not
dropped. -/
def Waiting (log : List Event) (r : ℕ) : Prop := deliveredTo log r = [] ∧ .dropped r ∉ log

theorem latest_snoc (log : List Event) (e : Event) (id : CorrelationId) :
    latest (log ++ [e]) id = (e.insertedAs id).or (latest log id) := by
  rw [latest, List.filterMap_append, List.getLast?_append, latest]
  congr 1
  cases h : e.insertedAs id <;> simp [h]

theorem deliveredTo_snoc (log : List Event) (e : Event) (r : ℕ) :
    deliveredTo (log ++ [e]) r = deliveredTo log r ++ (e.payloadTo r).toList := by
  rw [deliveredTo, List.filterMap_append, deliveredTo]
  rfl

theorem obtainedBy_snoc (log : List Event) (e : Event) (r : ℕ) :
    obtainedBy (log ++ [e]) r = obtainedBy log r ++ (e.payloadOf r).toList := by
  rw [obtainedBy, List.filterMap_append, obtainedBy]
  rfl

theorem waiting_snoc (log : List Event) (e : Event) (r : ℕ) :
    Waiting (log ++ [e]) r ↔ Waiting log r ∧ e.payloadTo r = none ∧ e ≠ .dropped r := by
  rw [Waiting, deliveredTo_snoc, Waiting]
  simp only [List.append_eq_nil_iff, Option.toList_eq_nil_iff, List.mem_append,
    List.mem_singleton, not_or]
  constructor
  · rintro ⟨⟨hnone, hpay⟩, hin, hne⟩
    exact ⟨⟨hnone, hin⟩, hpay, fun h => hne h.symm⟩
  · rintro ⟨⟨hnone, hin⟩, hpay, hne⟩
    exact ⟨⟨hnone, hpay⟩, hin, fun h => hne h.symm⟩

theorem mem_of_latest {log : List Event} {id : CorrelationId} {r : ℕ}
    (h : latest log id = some r) : .inserted r id ∈ log := by
  obtain ⟨e, he, hr⟩ := List.mem_filterMap.mp (List.mem_of_getLast? h)
  cases e with
  | inserted r' id' =>
    obtain ⟨rfl, hsome⟩ := Option.ite_none_right_eq_some.mp hr
    cases hsome
    exact he
  | delivered => cases hr
  | obtained => cases hr
  | dropped => cases hr

/-! ### Everything a step can do -/

inductive Moves (w : Room) : Room → List Event → Prop where
  | idle : Moves w w []
  | draw (id : CorrelationId) (peer : Fingerprint) : Moves w (w.draw id peer) []
  | insert {r : ℕ} {reg : Registration} (known : w.regs r = some reg) (drawn : w.stage r = .drawn) :
      Moves w (w.insert r reg) [.inserted r reg.id]
  | take {id : CorrelationId} {s : Slot} (found : w.waiters id = some s) (payload : Bytes) :
      Moves w (w.take id s payload)
        [.delivered s.sender id s.pending.expectedPeerFp payload]
  | send {k r : ℕ} {payload : Bytes} (about : w.sending[k]? = some (r, payload)) :
      Moves w (w.send k r payload) []
  | poll {r : ℕ} {payload : Bytes} {rest : List Bytes} (sent : w.inbox r = payload :: rest) :
      Moves w { w with inbox := Function.update w.inbox r rest } [.obtained r payload]
  | cancel {r : ℕ} {reg : Registration} (known : w.regs r = some reg) (live : w.stage r = .live) :
      Moves w (w.cancel r reg) [.dropped r]
  | close {r : ℕ} (cancelled : w.stage r = .cancelled) : Moves w (w.close r) []

theorem step_moves (w : Room) (a : Act) : Moves w (w.step a).1 (w.step a).2 := by
  cases a with
  | draw id peer => exact .draw id peer
  | insert r =>
    simp only [Room.step]
    split
    · rename_i reg hreg
      split
      · exact .insert hreg ‹_›
      · exact .idle
    · exact .idle
  | take id peer payload =>
    simp only [Room.step]
    split
    · exact .idle
    · rename_i s hs
      split
      · exact .idle
      · rename_i hpeer
        obtain rfl := not_not.mp hpeer
        exact .take hs payload
  | send k =>
    simp only [Room.step]
    split
    · exact .send ‹_›
    · exact .idle
  | poll r =>
    simp only [Room.step]
    split
    · split
      · exact .poll ‹_›
      · exact .idle
    · exact .idle
  | cancel r =>
    simp only [Room.step]
    split
    · rename_i reg hreg
      split
      · exact .cancel hreg ‹_›
      · exact .idle
    · exact .idle
  | close r =>
    simp only [Room.step]
    split
    · exact .close ‹_›
    · exact .idle

variable {w w' : Room} {log es : List Event}

/-! ### Tokens -/

/-- Registrations are numbered without a gap, and the token is the number, as a
64-bit integer. -/
structure Tokens (w : Room) : Prop where
  next : w.nextToken = w.count % 2 ^ 64
  known : ∀ r, (w.regs r).isSome ↔ r < w.count
  token : ∀ r reg, w.regs r = some reg → reg.token = r % 2 ^ 64

theorem Tokens.new : Tokens Room.new := by
  refine ⟨rfl, ?_, ?_⟩
  · intro r
    simp [Room.new]
  · intro r reg h
    cases h

theorem Tokens.draw (hw : Tokens w) (id : CorrelationId) (peer : Fingerprint) :
    Tokens (w.draw id peer) := by
  have hnext := hw.next
  refine ⟨?_, ?_, ?_⟩
  · show (w.nextToken + 1) % 2 ^ 64 = (w.count + 1) % 2 ^ 64
    omega
  · intro r
    have hr := hw.known r
    by_cases hc : r = w.count
    · subst hc
      simp [Room.draw]
    · simp only [Room.draw, Function.update_of_ne hc, hr]
      omega
  · intro r reg hreg
    by_cases hc : r = w.count
    · subst hc
      simp only [Room.draw, Function.update_self, Option.some.injEq] at hreg
      subst hreg
      exact hnext
    · simp only [Room.draw, Function.update_of_ne hc] at hreg
      exact hw.token r reg hreg

theorem Tokens.moves (hw : Tokens w) (h : Moves w w' es) : Tokens w' := by
  cases h with
  | draw id peer => exact hw.draw id peer
  | idle | insert | take | send | poll | cancel | close =>
    -- the counter and what registrations were made with stay as they are
    exact ⟨hw.next, hw.known, hw.token⟩

theorem Tokens.eq_of_token (hw : Tokens w) (few : w.count ≤ 2 ^ 64) {r r' : ℕ}
    {reg reg' : Registration} (h : w.regs r = some reg) (h' : w.regs r' = some reg')
    (ht : reg.token = reg'.token) : r = r' := by
  have hr : r < w.count := (hw.known r).mp (by simp [h])
  have hr' : r' < w.count := (hw.known r').mp (by simp [h'])
  have htr := hw.token r reg h
  have htr' := hw.token r' reg' h'
  omega

theorem Moves.regs (hw : Tokens w) (h : Moves w w' es) {r : ℕ} {reg : Registration}
    (hr : w.regs r = some reg) : w'.regs r = some reg := by
  cases h with
  | draw id peer =>
    have hlt : r < w.count := (hw.known r).mp (by simp [hr])
    have hne : r ≠ w.count := by omega
    simpa [Room.draw, Function.update_of_ne hne] using hr
  | idle | insert | take | send | poll | cancel | close => exact hr

theorem Moves.count_le (h : Moves w w' es) : w.count ≤ w'.count := by
  cases h with
  | draw id peer => exact Nat.le_succ _
  | idle | insert | take | send | poll | cancel | close => exact le_rfl

/-! ### The map -/

/-- What the log and the map say of each other. -/
structure Slots (w : Room) (log : List Event) : Prop where
  /-- What was put into the map is a registration. -/
  names : ∀ r id, .inserted r id ∈ log → ∃ reg, w.regs r = some reg ∧ reg.id = id
  /-- Before its insertion nothing is heard of a registration. -/
  fresh : ∀ r, w.stage r = .drawn → (∀ id, .inserted r id ∉ log) ∧ Waiting log r
  /-- The map holds the latest registration of each id that is still waiting. -/
  slot : ∀ id s, w.waiters id = some s ↔
    latest log id = some s.sender ∧ Waiting log s.sender ∧
      ∃ reg, w.regs s.sender = some reg ∧ reg.id = id ∧ s.pending = ⟨reg.token, reg.peer⟩

theorem Slots.new : Slots Room.new [] := by
  refine ⟨?_, ?_, ?_⟩
  · intro r id h
    cases h
  · intro r _
    refine ⟨?_, rfl, ?_⟩
    · intro id h
      cases h
    · intro h
      cases h
  · intro id s
    simp [Room.new, latest]

theorem Slots.quiet (hs : Slots w log) (waiters : w'.waiters = w.waiters)
    (stage : ∀ r, w'.stage r = .drawn → w.stage r = .drawn)
    (regs : ∀ r reg, w.regs r = some reg → w'.regs r = some reg) : Slots w' log := by
  refine ⟨?_, fun r hr => hs.fresh r (stage r hr), ?_⟩
  · intro r id hin
    obtain ⟨reg, hreg, hid⟩ := hs.names r id hin
    exact ⟨reg, regs r reg hreg, hid⟩
  · intro id s
    rw [waiters, hs.slot id s]
    constructor
    · rintro ⟨hlatest, hwait, reg, hreg, hid, hpend⟩
      exact ⟨hlatest, hwait, reg, regs _ _ hreg, hid, hpend⟩
    · rintro ⟨hlatest, hwait, reg, hreg, hid, hpend⟩
      -- the registration was there before the step
      obtain ⟨reg₀, hreg₀, -⟩ := hs.names _ _ (mem_of_latest hlatest)
      have hsame := regs _ _ hreg₀
      rw [hreg] at hsame
      cases hsame
      exact ⟨hlatest, hwait, reg, hreg₀, hid, hpend⟩

theorem Slots.insert (hs : Slots w log) {r : ℕ} {reg : Registration} (known : w.regs r = some reg)
    (drawn : w.stage r = .drawn) :
    Slots (w.insert r reg) (log ++ [.inserted r reg.id]) := by
  obtain ⟨-, hwait⟩ := hs.fresh r drawn
  refine ⟨?_, ?_, ?_⟩
  · intro r' id hin
    rcases List.mem_append.mp hin with hin | hin
    · exact hs.names r' id hin
    · obtain ⟨rfl, rfl⟩ : r' = r ∧ id = reg.id := by simpa using hin
      exact ⟨reg, known, rfl⟩
  · intro r' hr'
    have hne : r' ≠ r := by
      rintro rfl
      simp [Room.insert] at hr'
    have hold : w.stage r' = .drawn := by
      simpa [Room.insert, Function.update_of_ne hne] using hr'
    obtain ⟨hnone, hwait'⟩ := hs.fresh r' hold
    refine ⟨?_, ?_⟩
    · intro id hin
      rcases List.mem_append.mp hin with hin | hin
      · exact hnone id hin
      · simp [hne] at hin
    · rw [waiting_snoc]
      exact ⟨hwait', rfl, by simp⟩
  · intro id s
    rw [latest_snoc, waiting_snoc]
    by_cases hid : id = reg.id
    · -- the id that is registered: the new waiter replaces whatever was there
      subst hid
      simp only [Room.insert, Function.update_self, Option.some.injEq, Event.insertedAs,
        ↓reduceIte, Option.some_or]
      constructor
      · rintro rfl
        exact ⟨rfl, ⟨hwait, rfl, by simp⟩, reg, known, rfl, rfl⟩
      · rintro ⟨hsender, -, reg', hreg', -, hpend⟩
        rw [← hsender, known] at hreg'
        cases hreg'
        cases s
        cases hsender
        cases hpend
        rfl
    · have hid' : ¬ reg.id = id := fun h => hid h.symm
      simp only [Room.insert, Function.update_of_ne hid, Event.insertedAs, if_neg hid',
        Option.none_or, hs.slot id s]
      simp [Event.payloadTo]

theorem Slots.take (hs : Slots w log) {id : CorrelationId} {s : Slot}
    (found : w.waiters id = some s) (payload : Bytes) :
    Slots (w.take id s payload)
      (log ++ [.delivered s.sender id s.pending.expectedPeerFp payload]) := by
  obtain ⟨hlatest, hwait, reg, hreg, hid, hpend⟩ := (hs.slot id s).mp found
  refine ⟨?_, ?_, ?_⟩
  · intro r id' hin
    rcases List.mem_append.mp hin with hin | hin
    · exact hs.names r id' hin
    · simp at hin
  · intro r hr
    obtain ⟨hnone, hwait'⟩ := hs.fresh r hr
    have hne : s.sender ≠ r := by
      rintro rfl
      exact hnone id (mem_of_latest hlatest)
    refine ⟨?_, ?_⟩
    · intro id' hin
      rcases List.mem_append.mp hin with hin | hin
      · exact hnone id' hin
      · simp at hin
    · rw [waiting_snoc]
      exact ⟨hwait', by simp [Event.payloadTo, hne], by simp⟩
  · intro id' s'
    rw [latest_snoc, waiting_snoc]
    by_cases heq : id' = id
    · subst heq
      simp only [Room.take, Function.update_self, reduceCtorEq, Event.insertedAs, Option.none_or,
        false_iff]
      rintro ⟨hlatest', ⟨-, hpay, -⟩, -⟩
      rw [hlatest, Option.some.injEq] at hlatest'
      simp [Event.payloadTo, hlatest'] at hpay
    · simp only [Room.take, Function.update_of_ne heq, Event.insertedAs, Option.none_or,
        hs.slot id' s']
      constructor
      · rintro ⟨hlatest', hwait', reg', hreg', hid', hpend'⟩
        -- a registration has one id
        have hne : s.sender ≠ s'.sender := by
          intro hsame
          rw [hsame, hreg'] at hreg
          cases hreg
          exact heq (hid'.symm.trans hid)
        exact ⟨hlatest', ⟨hwait', by simp [Event.payloadTo, hne], by simp⟩, reg', hreg', hid',
          hpend'⟩
      · rintro ⟨hlatest', ⟨hwait', -, -⟩, hreg'⟩
        exact ⟨hlatest', hwait', hreg'⟩

theorem Slots.poll (hs : Slots w log) (r : ℕ) (payload : Bytes) (inbox : ℕ → List Bytes) :
    Slots { w with inbox := inbox } (log ++ [.obtained r payload]) := by
  refine ⟨?_, ?_, ?_⟩
  · intro r' id hin
    exact hs.names r' id (by simpa using hin)
  · intro r' hr'
    obtain ⟨hnone, hwait⟩ := hs.fresh r' hr'
    refine ⟨fun id hin => hnone id (by simpa using hin), ?_⟩
    rw [waiting_snoc]
    exact ⟨hwait, rfl, by simp⟩
  · intro id s
    rw [latest_snoc, waiting_snoc]
    simp only [Event.insertedAs, Option.none_or, Event.payloadTo, ne_eq, reduceCtorEq,
      not_false_eq_true, and_self, and_true]
    exact hs.slot id s

/-- The receiver of `r` is dropped: the waiter of its id goes if it is the one
of `r`, and stays if it is that of a later registration. -/
theorem Room.cancel_waiters (hw : Tokens w) (few : w.count ≤ 2 ^ 64) (hs : Slots w log) {r : ℕ}
    {reg : Registration} (known : w.regs r = some reg) (id : CorrelationId) (s : Slot) :
    (w.cancel r reg).waiters id = some s ↔ w.waiters id = some s ∧ s.sender ≠ r := by
  have htoken : ∀ s, w.waiters reg.id = some s →
      (s.pending.token = reg.token ↔ s.sender = r) := by
    intro s hsome
    obtain ⟨-, -, reg', hreg', -, hpend⟩ := (hs.slot reg.id s).mp hsome
    constructor
    · intro ht
      rw [hpend] at ht
      exact hw.eq_of_token few hreg' known ht
    · rintro rfl
      rw [known] at hreg'
      cases hreg'
      rw [hpend]
  by_cases hid : id = reg.id
  · subst hid
    cases hsome : w.waiters reg.id with
    | none => simp [Room.cancel, hsome]
    | some s₀ =>
      have h₀ := htoken s₀ hsome
      by_cases hr : s₀.sender = r
      · have ht := h₀.mpr hr
        simp only [Room.cancel, hsome, Option.any_some, ht, decide_true, ↓reduceIte,
          Function.update_self, reduceCtorEq, Option.some.injEq, false_iff, not_and, not_not]
        rintro rfl
        exact hr
      · have ht : ¬ s₀.pending.token = reg.token := fun ht => hr (h₀.mp ht)
        simp only [Room.cancel, hsome, Option.any_some, ht, decide_false, Bool.false_eq_true,
          ↓reduceIte, Option.some.injEq, iff_self_and]
        rintro rfl
        exact hr
  · have hkeep : (w.cancel r reg).waiters id = w.waiters id := by
      simp only [Room.cancel]
      split
      · exact Function.update_of_ne hid _ _
      · rfl
    rw [hkeep]
    refine ⟨fun hsome => ⟨hsome, ?_⟩, And.left⟩
    rintro rfl
    obtain ⟨-, -, reg', hreg', hid', -⟩ := (hs.slot id s).mp hsome
    rw [known] at hreg'
    cases hreg'
    exact hid hid'.symm

theorem Slots.cancel (hw : Tokens w) (few : w.count ≤ 2 ^ 64) (hs : Slots w log) {r : ℕ}
    {reg : Registration} (known : w.regs r = some reg) (live : w.stage r = .live) :
    Slots (w.cancel r reg) (log ++ [.dropped r]) := by
  refine ⟨?_, ?_, ?_⟩
  · intro r' id hin
    exact hs.names r' id (by simpa using hin)
  · intro r' hr'
    have hne : r' ≠ r := by
      rintro rfl
      simp [Room.cancel] at hr'
    have hold : w.stage r' = .drawn := by
      simpa [Room.cancel, Function.update_of_ne hne] using hr'
    obtain ⟨hnone, hwait⟩ := hs.fresh r' hold
    refine ⟨fun id hin => hnone id (by simpa using hin), ?_⟩
    rw [waiting_snoc]
    exact ⟨hwait, rfl, by simp [hne.symm]⟩
  · intro id s
    rw [Room.cancel_waiters hw few hs known, hs.slot id s, latest_snoc, waiting_snoc]
    simp only [Event.insertedAs, Option.none_or, Event.payloadTo, ne_eq, Event.dropped.injEq]
    constructor
    · rintro ⟨⟨hlatest, hwait, hreg⟩, hne⟩
      exact ⟨hlatest, ⟨hwait, trivial, fun h => hne h.symm⟩, hreg⟩
    · rintro ⟨hlatest, ⟨hwait, -, hne⟩, hreg⟩
      exact ⟨⟨hlatest, hwait, hreg⟩, fun h => hne h.symm⟩

theorem Slots.moves (hw : Tokens w) (few : w.count ≤ 2 ^ 64) (hs : Slots w log)
    (h : Moves w w' es) : Slots w' (log ++ es) := by
  have hregs : ∀ r reg, w.regs r = some reg → w'.regs r = some reg := fun r reg => h.regs hw
  cases h with
  | idle => rwa [List.append_nil]
  | draw id peer =>
    rw [List.append_nil]
    exact hs.quiet rfl (fun _ h => h) hregs
  | insert known drawn => exact hs.insert known drawn
  | take found payload => exact hs.take found payload
  | send about =>
    rw [List.append_nil]
    exact hs.quiet rfl (fun _ h => h) hregs
  | poll sent => exact hs.poll _ _ _
  | cancel known live => exact hs.cancel hw few known live
  | @close r cancelled =>
    rw [List.append_nil]
    refine hs.quiet rfl ?_ hregs
    intro r' hr'
    by_cases hne : r' = r
    · simp [Room.close, hne] at hr'
    · simpa [Room.close, Function.update_of_ne hne] using hr'

/-! ### One call at a time -/

/-- What the bus sees of a room. -/
def Room.waiter (w : Room) : ReplyWaiter :=
  ⟨fun id => (w.waiters id).map (·.pending), w.nextToken⟩

theorem Room.waiter_update (w : Room) (id : CorrelationId) (s : Option Slot) :
    (fun id' => (Function.update w.waiters id s id').map (·.pending)) =
      Function.update w.waiter.waiters id (s.map (·.pending)) := by
  funext id'
  by_cases h : id' = id
  · subst h
    simp
  · simp [Function.update_of_ne h, Room.waiter]

/-- A registration with no step in between is `register`. -/
theorem waiter_register (w : Room) (id : CorrelationId) (peer : Fingerprint)
    (new : w.stage w.count = .drawn) (few : w.nextToken + 1 < 2 ^ 64) :
    (((w.step (.draw id peer)).1.step (.insert w.count)).1).waiter = w.waiter.register id peer := by
  have hnext : (w.nextToken + 1) % 2 ^ 64 = w.nextToken + 1 := Nat.mod_eq_of_lt few
  have hstep : ((w.draw id peer).step (.insert w.count)).1 =
      (w.draw id peer).insert w.count ⟨id, peer, w.nextToken⟩ := by
    simp [Room.step, Room.draw, new]
  show (((w.draw id peer).step (.insert w.count)).1).waiter = _
  rw [hstep]
  exact congrArg₂ ReplyWaiter.mk (w.waiter_update id _) hnext

theorem waiter_deliver (w : Room) (id : CorrelationId) (peer : Fingerprint) (payload : Bytes)
    (dropped : Bool) :
    (w.step (.take id peer payload)).1.waiter = (w.waiter.deliver id peer dropped).1 := by
  cases hfound : w.waiters id with
  | none => simp [Room.step, ReplyWaiter.deliver, Room.waiter, hfound]
  | some s =>
    by_cases hpeer : s.pending.expectedPeerFp = peer
    · have hupdate := w.waiter_update id none
      simp only [Room.step, hfound, hpeer, ne_eq, not_true_eq_false, ↓reduceIte,
        ReplyWaiter.deliver, Room.waiter, Option.map_some, Room.take]
      exact congrArg (ReplyWaiter.mk · w.nextToken) hupdate
    · simp [Room.step, ReplyWaiter.deliver, Room.waiter, hfound, hpeer]

theorem waiter_cancel (w : Room) {r : ℕ} {reg : Registration} (known : w.regs r = some reg)
    (live : w.stage r = .live) :
    (w.step (.cancel r)).1.waiter = w.waiter.cancel reg.id reg.token := by
  have hany : ((w.waiters reg.id).map (·.pending)).any (fun p => decide (p.token = reg.token)) =
      (w.waiters reg.id).any fun s => decide (s.pending.token = reg.token) := by
    cases w.waiters reg.id <;> rfl
  have hupdate := w.waiter_update reg.id none
  simp only [Room.step, known, live, ↓reduceIte, ReplyWaiter.cancel, Room.waiter, hany,
    Room.cancel]
  split
  · exact congrArg (ReplyWaiter.mk · w.nextToken) hupdate
  · rfl

end Waiters

end Bus
