/-
Attempts and lanes: what the board shows of a brief.

`Board.attempt` scans the admitted entries and looks up closers; `Board.lanes`
groups the attempts by lane.  Both are compared with what the history says: the
entries that were admitted, in their order.

* `AttemptSpec` — what the view of a brief has to say, over the history;
* `Admitted.attempt` — `attempt` meets it;
* `Admitted.valuesAt_lane` — the attempts of a lane, in admission order;
* `attempts_and_lanes` — the result, with the stability of final states.
-/
import AgentMesh.Citations

open Std Mesh

namespace Flock

/-- A brief's state, the first row that applies. -/
inductive AttemptState where
  | submitted | working | inputRequired | completed | failed
  deriving DecidableEq, Repr

/-- One attempt (brief) and what surrounds it. -/
structure AttemptView where
  brief : ContentId
  state : AttemptState
  /-- A job in the same lane is still open. -/
  jobOpen : Bool
  /-- Conflict events aimed at it, in admission order. -/
  conflicts : List ContentId
  deriving DecidableEq

/-- A lane: the latest attempt, and the older ones, oldest first. -/
structure LaneView where
  lane : String
  latest : AttemptView
  older : List AttemptView
  deriving DecidableEq

/-- The state a result leaves. -/
def Outcome.state : Outcome → AttemptState
  | completed => .completed
  | failed => .failed

def Body.briefLane : Body → Option String
  | .brief _ lane => some lane
  | _ => none

def Body.outcome : Body → Option Outcome
  | .result outcome => some outcome
  | _ => none

def Body.jobLane : Body → Option String
  | .job lane _ => some lane
  | _ => none

namespace Board

/-- The outcome of the result that closed `brief`. -/
def outcomeOf (b : Board) (brief : ContentId) : Option Outcome := do
  let r ← b.closerOf brief
  let e ← b.get r
  e.event.body.outcome

/-- An open ask names `brief`. -/
def inputRequired (b : Board) (brief : ContentId) : Bool :=
  b.entriesInOrder.any fun e => decide (e.event.kind = .ask) &&
    decide (e.event.refs["about"]? = some brief) && e.conflict.isNone && (b.closerOf e.id).isNone

def acked (b : Board) (brief : ContentId) : Bool :=
  b.entriesInOrder.any fun e => decide (e.event.kind = .ack) &&
    decide (e.event.refs["of"]? = some brief)

def jobOpen (b : Board) (lane : String) : Bool :=
  b.entriesInOrder.any fun e => decide (e.event.body.jobLane = some lane) &&
    (b.closerOf e.id).isNone

def conflictsOf (b : Board) (brief : ContentId) : List ContentId :=
  (b.entriesInOrder.filter fun e => e.conflict.isSome &&
    e.event.refs.values.any fun r => decide (r = brief)).map (·.id)

/-- The first row that applies. -/
def stateOf (b : Board) (brief : ContentId) : AttemptState :=
  match b.outcomeOf brief with
  | some outcome => outcome.state
  | none =>
    if b.inputRequired brief then .inputRequired
    else if b.acked brief then .working
    else .submitted

def attempt (b : Board) (brief : ContentId) : Option AttemptView := do
  let entry ← b.get brief
  let lane ← entry.event.body.briefLane
  return ⟨brief, b.stateOf brief, b.jobOpen lane, b.conflictsOf brief⟩

def laneAttempt (b : Board) (e : Entry) : Option (String × AttemptView) := do
  let lane ← e.event.body.briefLane
  let view ← b.attempt e.id
  return (lane, view)

/-- A lane with its attempts, if it has one. -/
def laneView (lane : String) (attempts : List AttemptView) : Option LaneView := do
  let latest ← attempts.getLast?
  return ⟨lane, latest, attempts.dropLast⟩

/-- Lanes by name, each with its latest attempt first-class and the older ones
kept visible. -/
def lanes (b : Board) : List LaneView :=
  (BTreeMap.group b.laneAttempt b.entriesInOrder).toList.filterMap fun p => laneView p.1 p.2

end Board

variable {P : Primitives} {g : MerkleNode Genesis}

/-! ### Closers of a kind -/

theorem Admitted.eq_of_id {log : List LogEntry} {b : Board} (h : Admitted P g log b)
    {x y : LogEntry} (hx : x ∈ log) (hy : y ∈ log) (hid : x.id P = y.id P) : x = y :=
  List.inj_on_of_nodup_map h.nodup hx hy hid

theorem Admitted.ref_kind {log : List LogEntry} {b : Board} (h : Admitted P g log b)
    {x y : LogEntry} (hx : x ∈ log) (hy : y ∈ log) (hs : isServerKind x.event.kind = false)
    (hk : x.event.kind ≠ .roster) {role : String} (hcid : x.event.refs[role]? = some (y.id P)) :
    ∃ spec, refSpec x.event.kind = [spec] ∧ y.event.kind ∈ spec.2.1 := by
  obtain ⟨pre, post, rfl⟩ := List.append_of_mem hx
  obtain ⟨u, conflict, hu, hadm⟩ := h.split
  obtain ⟨member, target, closes, -, hrefs, -, -⟩ := hadm.table
  obtain ⟨spec, e, hspec, -, -, hget, hallowed, -⟩ := (checkRefs_cites hs hrefs).known hk hcid
  obtain ⟨y', hy', hid, hevent, -⟩ := hu.get_mem hget
  obtain rfl := h.eq_of_id (by simp [hy']) hy hid
  exact ⟨spec, hspec, hevent ▸ hallowed⟩

theorem Admitted.closes_kind {log : List LogEntry} {b : Board} (h : Admitted P g log b)
    {x y : LogEntry} (hx : x ∈ log) (hy : y ∈ log) (hc : x.Closes (y.id P)) :
    (y.event.kind = .brief → x.event.kind = .result ∧ x.event.refs["brief"]? = some (y.id P)) ∧
    (y.event.kind = .job → x.event.kind = .jobEnd ∧ x.event.refs["job"]? = some (y.id P)) ∧
    (y.event.kind = .ask → x.event.kind = .answer ∧ x.signer.class_ = .operator ∧
      x.event.refs["ask"]? = some (y.id P)) := by
  rcases hc with ⟨hk, hcid⟩ | ⟨hk, hcid⟩ | ⟨hk, hcid⟩ | ⟨hk, hop, hcid⟩
  all_goals
    obtain ⟨spec, hspec, hallowed⟩ := h.ref_kind hx hy (by rw [hk]; rfl) (by simp [hk]) hcid
    rw [hk, refSpec, List.singleton_inj] at hspec
    subst hspec
    simp only [List.mem_singleton] at hallowed
    simp [hallowed, hk, hcid]
  exact hop

theorem Admitted.closerOf_none {log : List LogEntry} {b : Board} (h : Admitted P g log b)
    {t : ContentId} : b.closerOf t = none ↔ ∀ x ∈ log, ¬x.Closes t := by
  rw [h.closerOf, firstCloser, Option.map_eq_none_iff, List.find?_eq_none]
  simp

/-- The closer is the first entry that closes. -/
theorem Admitted.closerOf_some {log : List LogEntry} {b : Board} (h : Admitted P g log b)
    {t c : ContentId} : b.closerOf t = some c ↔
      ∃ pre x post, log = pre ++ x :: post ∧ x.Closes t ∧ firstCloser P pre t = none ∧
        x.id P = c := by
  rw [h.closerOf]
  simp only [firstCloser, Option.map_eq_some_iff, Option.map_eq_none_iff,
    List.find?_eq_some_iff_append, List.find?_eq_none, decide_eq_true_eq]
  constructor
  · rintro ⟨x, ⟨hx, pre, post, hsplit, hnone⟩, rfl⟩
    exact ⟨pre, x, post, hsplit, hx, by simpa using hnone, rfl⟩
  · rintro ⟨pre, x, post, hsplit, hx, hnone, rfl⟩
    exact ⟨x, ⟨hx, pre, post, hsplit, by simpa using hnone⟩, rfl⟩

/-! ### The attempt of a brief -/

/-- A result of `brief` that is no conflict. -/
def Entry.ResultOf (e : Entry) (brief : ContentId) : Prop :=
  e.event.kind = .result ∧ e.event.refs["brief"]? = some brief ∧ e.conflict = none

/-- An admitted ask about `brief` that no operator answered. -/
def OpenAsk (P : Primitives) (log : List LogEntry) (brief : ContentId) : Prop :=
  ∃ y ∈ log, y.event.kind = .ask ∧ y.event.refs["about"]? = some brief ∧
    ∀ x ∈ log, ¬(x.event.kind = .answer ∧ x.signer.class_ = .operator ∧
      x.event.refs["ask"]? = some (y.id P))

def Acked (log : List LogEntry) (brief : ContentId) : Prop :=
  ∃ y ∈ log, y.event.kind = .ack ∧ y.event.refs["of"]? = some brief

/-- What the view of a brief in `lane` says, over the admitted entries. -/
structure AttemptSpec (P : Primitives) (log : List LogEntry) (brief : ContentId) (lane : String)
    (v : AttemptView) : Prop where
  brief_eq : v.brief = brief
  final : (v.state = .completed ∨ v.state = .failed) ↔
    ∃ e ∈ entriesFrom P [] log, e.ResultOf brief
  outcome : ∀ e ∈ entriesFrom P [] log, e.ResultOf brief →
    ∃ outcome, e.event.body = .result outcome ∧ v.state = outcome.state
  asked : (¬∃ e ∈ entriesFrom P [] log, e.ResultOf brief) →
    (v.state = .inputRequired ↔ OpenAsk P log brief)
  working : (¬∃ e ∈ entriesFrom P [] log, e.ResultOf brief) → ¬OpenAsk P log brief →
    (v.state = .working ↔ Acked log brief)
  submitted : (¬∃ e ∈ entriesFrom P [] log, e.ResultOf brief) → ¬OpenAsk P log brief →
    ¬Acked log brief → v.state = .submitted
  jobOpen : v.jobOpen = true ↔ ∃ y ∈ log, (∃ label, y.event.body = .job lane label) ∧
    ∀ x ∈ log, ¬(x.event.kind = .jobEnd ∧ x.event.refs["job"]? = some (y.id P))
  conflicts : v.conflicts = ((entriesFrom P [] log).filter fun e =>
    e.conflict.isSome && e.event.refs.values.any fun r => decide (r = brief)).map (·.id)

theorem Body.result_of_kind {body : Body} (h : body.kind = .result) :
    ∃ outcome, body = .result outcome := by
  cases body <;> first | exact ⟨_, rfl⟩ | cases h

section Attempt

variable {log : List LogEntry} {b : Board} {y : LogEntry} {lane : String}

theorem Admitted.mem_entries (h : Admitted P g log b) {e : Entry} :
    e ∈ b.entriesInOrder ↔ ∃ pre x post, log = pre ++ x :: post ∧ e = x.entry P pre := by
  rw [h.entriesInOrder, mem_entriesFrom]
  simp

/-- Asking something of the events of a board's entries is asking it of the
log. -/
theorem Admitted.any_entry (h : Admitted P g log b) {p : Entry → Prop} {q : LogEntry → Prop}
    (hpq : ∀ pre x post, log = pre ++ x :: post → (p (x.entry P pre) ↔ q x)) :
    (∃ e ∈ b.entriesInOrder, p e) ↔ ∃ x ∈ log, q x := by
  constructor
  · rintro ⟨e, he, hp⟩
    obtain ⟨pre, x, post, hsplit, rfl⟩ := h.mem_entries.mp he
    exact ⟨x, by simp [hsplit], (hpq pre x post hsplit).mp hp⟩
  · rintro ⟨x, hx, hq⟩
    obtain ⟨pre, post, hsplit⟩ := List.append_of_mem hx
    exact ⟨_, h.mem_entries.mpr ⟨pre, x, post, hsplit, rfl⟩, (hpq pre x post hsplit).mpr hq⟩

/-- A result that is no conflict is the closer of its brief. -/
theorem Admitted.closerOf_result (h : Admitted P g log b) {e : Entry} {brief : ContentId}
    (he : e ∈ b.entriesInOrder) (hr : e.ResultOf brief) :
    b.closerOf brief = some e.id ∧ b.get e.id = some e := by
  obtain ⟨pre, x, post, rfl, rfl⟩ := h.mem_entries.mp he
  obtain ⟨hk, hcid, hconflict⟩ := hr
  have hclosed : closedBy x.event = some brief := by
    have hk : x.event.kind = .result := hk
    rw [closedBy, hk]
    exact hcid
  have hnone : firstCloser P pre brief = none := by
    simpa [LogEntry.entry, hclosed] using hconflict
  exact ⟨h.closerOf_some.mpr ⟨pre, x, post, rfl, .inl ⟨hk, hcid⟩, hnone, rfl⟩, h.get_of_split⟩

theorem Admitted.outcomeOf_result (h : Admitted P g log b) {e : Entry} {brief : ContentId}
    (he : e ∈ b.entriesInOrder) (hr : e.ResultOf brief) :
    ∃ outcome, e.event.body = .result outcome ∧ b.outcomeOf brief = some outcome := by
  obtain ⟨hcloser, hget⟩ := h.closerOf_result he hr
  obtain ⟨pre, x, post, rfl, rfl⟩ := h.mem_entries.mp he
  obtain ⟨outcome, hbody⟩ := Body.result_of_kind ((h.fits (by simp)).trans hr.1)
  refine ⟨outcome, hbody, ?_⟩
  have hentry : (x.entry P pre).event.body = .result outcome := hbody
  simp [Board.outcomeOf, hcloser, hget, hentry, Body.outcome]

theorem Admitted.outcomeOf_none (h : Admitted P g log b) (hy : y ∈ log)
    (hk : y.event.kind = .brief) (hr : ¬∃ e ∈ b.entriesInOrder, e.ResultOf (y.id P)) :
    b.outcomeOf (y.id P) = none := by
  cases hcloser : b.closerOf (y.id P) with
  | none => simp [Board.outcomeOf, hcloser]
  | some c =>
    obtain ⟨pre, x, post, rfl, hx, hnone, rfl⟩ := h.closerOf_some.mp hcloser
    obtain ⟨hkind, hcid⟩ := (h.closes_kind (by simp) hy hx).1 hk
    refine absurd ⟨x.entry P pre, h.mem_entries.mpr ⟨pre, x, post, rfl, rfl⟩, hkind, hcid, ?_⟩ hr
    have hclosed : closedBy x.event = some (y.id P) := (h.closedBy_iff _).mpr hx
    simp [LogEntry.entry, hclosed, hnone]

theorem Admitted.inputRequired_iff (h : Admitted P g log b) {brief : ContentId} :
    b.inputRequired brief = true ↔ OpenAsk P log brief := by
  rw [Board.inputRequired, List.any_eq_true]
  refine h.any_entry fun pre x post hsplit => ?_
  have hx : x ∈ log := by simp [hsplit]
  simp only [Bool.and_eq_true, decide_eq_true_eq, Option.isNone_iff_eq_none, and_assoc]
  refine and_congr_right fun hk => and_congr_right fun _ => ?_
  have hk : x.event.kind = .ask := hk
  -- an ask closes nothing, so it is never flagged
  have hclosed : closedBy x.event = none := by rw [closedBy, hk]
  simp only [LogEntry.entry, hclosed, Option.bind_none, Option.map_none, true_and]
  rw [h.closerOf_none]
  refine forall₂_congr fun z hz => not_congr ?_
  constructor
  · intro hc
    exact (h.closes_kind hz hx hc).2.2 hk
  · intro hc
    exact .inr (.inr (.inr hc))

theorem Admitted.acked_iff (h : Admitted P g log b) {brief : ContentId} :
    b.acked brief = true ↔ Acked log brief := by
  rw [Board.acked, List.any_eq_true]
  refine h.any_entry fun pre x post _ => ?_
  simp [LogEntry.entry]

theorem Body.jobLane_some {body : Body} :
    body.jobLane = some lane ↔ ∃ label, body = .job lane label := by
  cases body <;> simp [Body.jobLane]

theorem Admitted.jobOpen_iff (h : Admitted P g log b) :
    b.jobOpen lane = true ↔ ∃ y ∈ log, (∃ label, y.event.body = .job lane label) ∧
      ∀ x ∈ log, ¬(x.event.kind = .jobEnd ∧ x.event.refs["job"]? = some (y.id P)) := by
  rw [Board.jobOpen, List.any_eq_true]
  refine h.any_entry fun pre x post hsplit => ?_
  have hx : x ∈ log := by simp [hsplit]
  simp only [Bool.and_eq_true, decide_eq_true_eq, Option.isNone_iff_eq_none, Body.jobLane_some]
  refine and_congr_right fun hjob => ?_
  obtain ⟨label, hbody⟩ : ∃ label, x.event.body = .job lane label := hjob
  have hk : x.event.kind = .job := by
    rw [← h.fits hx, hbody]
    rfl
  simp only [LogEntry.entry]
  rw [h.closerOf_none]
  refine forall₂_congr fun z hz => not_congr ?_
  constructor
  · intro hc
    exact (h.closes_kind hz hx hc).2.1 hk
  · intro hc
    exact .inr (.inr (.inl hc))

theorem Body.briefLane_some {body : Body} :
    body.briefLane = some lane ↔ ∃ to_, body = .brief to_ lane := by
  cases body <;> simp [Body.briefLane]

/-- **The view of an admitted brief is what the history says.** -/
theorem Admitted.attempt (h : Admitted P g log b) (hy : y ∈ log)
    (hlane : y.event.body.briefLane = some lane) :
    ∃ v, b.attempt (y.id P) = some v ∧ AttemptSpec P log (y.id P) lane v := by
  obtain ⟨pre, post, hsplit⟩ := List.append_of_mem hy
  have hget : b.get (y.id P) = some (y.entry P pre) :=
    h.get_iff.mpr ⟨pre, y, post, hsplit, rfl, rfl⟩
  have hlane' : (y.entry P pre).event.body.briefLane = some lane := hlane
  have hk : y.event.kind = .brief := by
    obtain ⟨to_, hbody⟩ := Body.briefLane_some.mp hlane
    rw [← h.fits hy, hbody]
    rfl
  refine ⟨⟨y.id P, b.stateOf (y.id P), b.jobOpen lane, b.conflictsOf (y.id P)⟩,
    by simp [Board.attempt, hget, hlane'], ?_⟩
  have hfinal : ∀ e ∈ b.entriesInOrder, e.ResultOf (y.id P) →
      ∃ outcome, e.event.body = .result outcome ∧ b.stateOf (y.id P) = outcome.state := by
    intro e he hr
    obtain ⟨outcome, hbody, hout⟩ := h.outcomeOf_result he hr
    exact ⟨outcome, hbody, by rw [Board.stateOf, hout]⟩
  have hopen : (¬∃ e ∈ b.entriesInOrder, e.ResultOf (y.id P)) → b.stateOf (y.id P) =
      if b.inputRequired (y.id P) then .inputRequired
      else if b.acked (y.id P) then .working else .submitted := by
    intro hr
    rw [Board.stateOf, h.outcomeOf_none hy hk hr]
  rw [h.entriesInOrder] at hfinal hopen
  refine ⟨rfl, ?_, hfinal, ?_, ?_, ?_, h.jobOpen_iff, ?_⟩
  · constructor
    · intro hstate
      by_contra hr
      rw [hopen hr] at hstate
      split at hstate
      · simp at hstate
      · split at hstate <;> simp at hstate
    · rintro ⟨e, he, hr⟩
      obtain ⟨outcome, -, hstate⟩ := hfinal e he hr
      rw [hstate]
      cases outcome with
      | completed => exact .inl rfl
      | failed => exact .inr rfl
  · intro hr
    rw [hopen hr, ← h.inputRequired_iff]
    split
    · simp [*]
    · split <;> simp [*]
  · intro hr hask
    rw [hopen hr, ← h.acked_iff, if_neg (fun hin => hask (h.inputRequired_iff.mp hin))]
    split <;> simp [*]
  · intro hr hask hack
    rw [hopen hr, if_neg (fun hin => hask (h.inputRequired_iff.mp hin)),
      if_neg (fun hin => hack (h.acked_iff.mp hin))]
  · rw [← h.entriesInOrder]
    rfl

end Attempt

/-! ### Lanes -/

section Lanes

variable {log : List LogEntry} {b : Board}

theorem Board.laneView_some {lane : String} {attempts : List AttemptView} {v : LaneView} :
    Board.laneView lane attempts = some v ↔
      v.lane = lane ∧ attempts = v.older ++ [v.latest] := by
  rw [Board.laneView]
  induction attempts using List.reverseRecOn with
  | nil => simp
  | append_singleton attempts latest _ =>
    obtain ⟨lane', latest', older'⟩ := v
    simp
    tauto

theorem Board.mem_lanes {v : LaneView} :
    v ∈ b.lanes ↔ BTreeMap.valuesAt b.laneAttempt v.lane b.entriesInOrder =
      v.older ++ [v.latest] := by
  simp only [Board.lanes, List.mem_filterMap, Prod.exists, Board.laneView_some,
    ExtTreeMap.mem_toList_iff_getElem?_eq_some, BTreeMap.get_group]
  constructor
  · rintro ⟨lane, attempts, hget, rfl, rfl⟩
    split at hget
    · cases hget
    · exact Option.some.inj hget
  · intro h
    exact ⟨v.lane, _, by rw [if_neg (by simp [h])], rfl, h⟩

theorem Board.lanes_nodup (b : Board) : (b.lanes.map (·.lane)).Nodup := by
  rw [List.Nodup, List.pairwise_map, Board.lanes]
  refine List.Pairwise.filterMap _ ?_ ExtTreeMap.distinct_keys_toList
  intro p p' hne v hv v' hv' heq
  obtain ⟨hlane, -⟩ := Board.laneView_some.mp hv
  obtain ⟨hlane', -⟩ := Board.laneView_some.mp hv'
  have hsame : p.1 = p'.1 := hlane.symm.trans (heq.trans hlane')
  exact hne (by rw [hsame]; exact ReflCmp.compare_self)

/-- The attempts of a lane are those of its briefs, in admission order. -/
theorem Admitted.valuesAt_lane (h : Admitted P g log b) (lane : String) :
    (BTreeMap.valuesAt b.laneAttempt lane b.entriesInOrder).map (·.brief) =
      (log.filter fun x => decide (x.event.body.briefLane = some lane)).map (·.id P) := by
  have hview : ∀ e ∈ b.entriesInOrder, ((b.laneAttempt e).bind fun p =>
      if p.1 = lane then some p.2 else none).map (·.brief) =
        if e.event.body.briefLane = some lane then some e.id else none := by
    intro e he
    obtain ⟨pre, x, post, hsplit, rfl⟩ := h.mem_entries.mp he
    cases hlane : x.event.body.briefLane with
    | none => simp [Board.laneAttempt, LogEntry.entry, hlane]
    | some lane' =>
      obtain ⟨v, hv, hspec⟩ := h.attempt (by simp [hsplit]) hlane
      by_cases heq : lane' = lane
      · simp [Board.laneAttempt, LogEntry.entry, hlane, hv, heq, hspec.brief_eq]
      · simp [Board.laneAttempt, LogEntry.entry, hlane, hv, heq]
  have hpick : ∀ es : List Entry, (es.filterMap fun e =>
      if e.event.body.briefLane = some lane then some e.id else none) =
        (es.filter fun e => decide (e.event.body.briefLane = some lane)).map (·.id) := by
    intro es
    induction es with
    | nil => rfl
    | cons e es ih =>
      by_cases he : e.event.body.briefLane = some lane
      · simp [he, ih]
      · simp [he, ih]
  rw [BTreeMap.valuesAt, List.map_filterMap, List.filterMap_congr hview, hpick, h.entriesInOrder]
  exact entriesFrom_filter fun ev => decide (ev.body.briefLane = some lane)

theorem Admitted.mem_lane_iff (h : Admitted P g log b) {lane : String} :
    lane ∈ b.lanes.map (·.lane) ↔ ∃ x ∈ log, ∃ to_, x.event.body = .brief to_ lane := by
  have hbriefs := congrArg List.length (h.valuesAt_lane lane)
  rw [List.length_map, List.length_map] at hbriefs
  have hnil : BTreeMap.valuesAt b.laneAttempt lane b.entriesInOrder ≠ [] ↔
      ∃ x ∈ log, ∃ to_, x.event.body = .brief to_ lane := by
    rw [ne_eq, ← List.length_eq_zero_iff, hbriefs, List.length_eq_zero_iff,
      List.filter_eq_nil_iff]
    simp [Body.briefLane_some]
  rw [← hnil, List.mem_map]
  constructor
  · rintro ⟨v, hv, rfl⟩
    rw [Board.mem_lanes.mp hv]
    simp
  · intro hne
    -- the last attempt of the lane is shown as its latest
    obtain ⟨older, latest, hsplit⟩ := List.eq_nil_or_concat _ |>.resolve_left hne
    exact ⟨⟨lane, latest, older⟩, Board.mem_lanes.mpr (by simpa using hsplit), rfl⟩

theorem Board.attempt_of_lane {v : LaneView} (hv : v ∈ b.lanes) {a : AttemptView}
    (ha : a ∈ v.older ++ [v.latest]) : b.attempt a.brief = some a := by
  rw [← Board.mem_lanes.mp hv, BTreeMap.valuesAt, List.mem_filterMap] at ha
  obtain ⟨e, -, he⟩ := ha
  obtain ⟨p, hp, hif⟩ := Option.bind_eq_some_iff.mp he
  rw [Board.laneAttempt] at hp
  obtain ⟨lane, -, hp⟩ := Option.bind_eq_some_iff.mp hp
  obtain ⟨view, hview, hp⟩ := Option.bind_eq_some_iff.mp hp
  cases hp
  split at hif
  · cases hif
    have hbrief : view.brief = e.id := by
      rw [Board.attempt] at hview
      obtain ⟨_, -, hview⟩ := Option.bind_eq_some_iff.mp hview
      obtain ⟨_, -, hview⟩ := Option.bind_eq_some_iff.mp hview
      cases hview
      rfl
    rw [hbrief]
    exact hview
  · cases hif

end Lanes

/-- **Lanes and attempts.**  On every board that calls reach: every lane of an
admitted brief is listed once, with the attempts of its briefs in admission
order; the view of a brief is what the admitted entries say; and a completed or
failed attempt stays so, whatever is applied later. -/
theorem attempts_and_lanes (P : Primitives) (g : MerkleNode Genesis) (calls : List LogEntry) :
    ((Board.reached P g calls).lanes.map (·.lane)).Nodup ∧
    (∀ lane, lane ∈ (Board.reached P g calls).lanes.map (·.lane) ↔
      ∃ x ∈ admitted P g calls, ∃ to_, x.event.body = .brief to_ lane) ∧
    (∀ v ∈ (Board.reached P g calls).lanes,
      (v.older ++ [v.latest]).map (·.brief) = ((admitted P g calls).filter fun x =>
        decide (x.event.body.briefLane = some v.lane)).map (·.id P) ∧
      ((v.older ++ [v.latest]).map (·.brief)).Nodup ∧
      ∀ a ∈ v.older ++ [v.latest], (Board.reached P g calls).attempt a.brief = some a) ∧
    (∀ x ∈ admitted P g calls, ∀ to_ lane, x.event.body = .brief to_ lane →
      ∃ v, (Board.reached P g calls).attempt (x.id P) = some v ∧
        AttemptSpec P (admitted P g calls) (x.id P) lane v ∧
        ∀ more : List LogEntry, ∃ v',
          (Board.reached P g (calls ++ more)).attempt (x.id P) = some v' ∧
          (v.state = .completed ∨ v.state = .failed → v'.state = v.state)) := by
  have hcalls := Board.reached_admitted P g calls
  refine ⟨Board.lanes_nodup _, fun lane => hcalls.mem_lane_iff, ?_, ?_⟩
  · intro v hv
    have hbriefs := hcalls.valuesAt_lane v.lane
    rw [Board.mem_lanes.mp hv] at hbriefs
    refine ⟨hbriefs, ?_, fun a ha => Board.attempt_of_lane hv ha⟩
    rw [hbriefs]
    exact hcalls.nodup.sublist (List.filter_sublist.map _)
  · intro x hx to_ lane hbody
    have hlane : x.event.body.briefLane = some lane := Body.briefLane_some.mpr ⟨to_, hbody⟩
    obtain ⟨v, hv, hspec⟩ := hcalls.attempt hx hlane
    refine ⟨v, hv, hspec, fun more => ?_⟩
    have hmore := Board.reached_admitted P g (calls ++ more)
    rw [admitted_append] at hmore
    obtain ⟨v', hv', hspec'⟩ := hmore.attempt (List.mem_append_left _ hx) hlane
    refine ⟨v', hv', fun hfinal => ?_⟩
    obtain ⟨e, he, hr⟩ := hspec.final.mp hfinal
    obtain ⟨outcome, hout, hstate⟩ := hspec.outcome e he hr
    -- the result is still there, as it was taken in
    have he' : e ∈ entriesFrom P [] (admitted P g calls ++
        (Board.reached P g calls).admittedOf P more) := by
      obtain ⟨pre, y, post, hsplit, rfl⟩ := mem_entriesFrom.mp he
      refine mem_entriesFrom.mpr ⟨pre, y,
        post ++ (Board.reached P g calls).admittedOf P more, ?_, rfl⟩
      rw [hsplit]
      simp
    obtain ⟨outcome', hout', hstate'⟩ := hspec'.outcome e he' hr
    rw [hout, Body.result.injEq] at hout'
    rw [hstate', hstate, hout']

end Flock
