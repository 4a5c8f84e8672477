/-
The event rows of the viewer.

Each admitted event is shown as a row, built from its entry and the rows before
it: what it points at is named by position, and its lane may be that of the
event it answers.  `foldEvents` builds the rows of a board, and takes over those
it is given if their ids are the ids of the board's first entries.

* `rowsOf_get` — the row at a position, and the rows it was built from;
* `rowsOf_parents` — positions point backwards, at the row of that id;
* `foldEvents_reuse` — rows of a front part of the entries can be taken over.
-/
import AgentMesh.Attempts

open Std Mesh Flock

namespace Tui

structure Texts where
  contentId : ContentId → String
  rawContentId : RawContentId → String
  /-- A body as pretty-printed JSON. -/
  bodyJson : Body → Except String String
  conflictDebug : ConflictKind → String

/-- One thing an event points at: its `prev`, or a named reference. -/
structure Parent where
  role : String
  id : String
  /-- Its position in the event list, if the log has it. -/
  row : Option ℕ
  deriving DecidableEq

structure EventRow where
  index : ℕ
  id : String
  cid : ContentId
  kind : String
  /-- The roster member whose session signed it, or `server`. -/
  member : String
  /-- The lane it belongs to, from itself or the event it answers. -/
  lane : Option String
  summary : String
  conflict : Bool
  signer : String
  at_ : ℕ
  parents : List Parent
  files : List String
  body : List String
  verified : String
  deriving DecidableEq

/-! ### Texts -/

def kindName : Kind → String
  | .roster => "roster"
  | .brief => "brief"
  | .review => "review"
  | .ack => "ack"
  | .result => "result"
  | .verdict => "verdict"
  | .job => "job"
  | .jobEnd => "job-end"
  | .ask => "ask"
  | .answer => "answer"
  | .relayedAnswer => "relayed-answer"
  | .status => "status"
  | .nudged => "nudged"
  | .nudgeMisfire => "nudge-misfire"
  | .pane => "pane"
  | .epoch => "epoch"
  | .renewal => "renewal"
  | .sessionStart => "session-start"
  | .deviceCert => "device-cert"
  | .sessionEnd => "session-end"
  | .handoff => "handoff"
  | .invite => "invite"

def outcomeText : Outcome → String
  | .completed => "completed"
  | .failed => "failed"

def endText : EndReason → String
  | .closed => "closed"
  | .lost => "lost"

/-- One line about an event. -/
def summary : Body → String
  | .brief to_ lane => "to " ++ to_ ++ " lane " ++ lane
  | .review to_ lane head => "to " ++ to_ ++ " lane " ++ lane ++ " head " ++ head
  | .result outcome => outcomeText outcome
  | .verdict head approved => (if approved then "approved" else "rejected") ++ " " ++ head
  | .job lane label => "lane " ++ lane ++ " " ++ label
  | .jobEnd (some c) none => "exit " ++ toString c
  | .jobEnd none (some s) => "signal " ++ toString s
  | .jobEnd _ _ => "unreadable exit"
  | .ask _ text | .status text | .answer text => text
  | .pane pane tab => "pane " ++ pane ++ " tab " ++ tab
  | .nudged target => "nudged " ++ target
  | .nudgeMisfire target _ _ => target ++ ": may have reached the wrong pane"
  | .epoch epoch => "epoch " ++ toString epoch
  | .invite member _ => "for " ++ member
  | .sessionStart member _ _ => member ++ " started"
  | .sessionEnd _ reason => endText reason
  | _ => ""

/-- The pieces of a text, each up to and with its line feed. -/
def splitInclusive : List Char → List (List Char)
  | [] => []
  | c :: cs =>
    if c = '\n' then [c] :: splitInclusive cs
    else match splitInclusive cs with
      | [] => [[c]]
      | l :: ls => (c :: l) :: ls

/-- A line without its end. -/
def stripEnd (l : List Char) : List Char :=
  match l.reverse with
  | '\n' :: '\r' :: r => r.reverse
  | '\n' :: r => r.reverse
  | _ => l

def lines (s : String) : List String :=
  (splitInclusive s.toList).map fun l => String.ofList (stripEnd l)

/-! ### Rows -/

/-- The lane a body names itself, if it names one. -/
def ownLane : Body → Option String
  | .brief _ lane | .review _ lane _ | .job lane _ => some lane
  | .ask lane _ => lane
  | _ => none

/-- The reference that says which lane an event answers, by kind. -/
def laneRef : Kind → Option String
  | .ack => some "of"
  | .result => some "brief"
  | .verdict => some "review"
  | .jobEnd => some "job"
  | .ask => some "about"
  | .answer | .relayedAnswer => some "ask"
  | _ => none

variable (T : Texts)

def parent (rows : List EventRow) (role : String) (id : ContentId) : Parent where
  role := role
  id := T.contentId id
  row := rows.findIdx? fun r => decide (r.id = T.contentId id)

/-- Its `prev`, then its references. -/
def parentsOf (e : Flock.Entry) (rows : List EventRow) : List Parent :=
  e.event.prev.toList.map (parent T rows "prev") ++
    e.event.refs.toList.map fun r => parent T rows r.1 r.2

/-- The lane of the event that the kind answers; never that of `prev`. -/
def answeredLane (e : Flock.Entry) (rows : List EventRow) : Option String := do
  let role ← laneRef e.event.kind
  let p ← (parentsOf T e rows).find? fun p => decide (p.role = role)
  let i ← p.row
  let r ← rows[i]?
  r.lane

/-- What was checked before an event is shown. -/
def verifiedText (e : Flock.Entry) : String :=
  match e.conflict with
  | none =>
    "✓ signature, session certificate and admission checked; admitted at #" ++ toString e.index
  | some c => "✓ checked; admitted at #" ++ toString e.index ++ " as a conflict (" ++
      T.conflictDebug c ++ "): it closes nothing"

def rowOf (e : Flock.Entry) (rows : List EventRow) : EventRow :=
  let member := e.member.getD "server"
  { index := e.index
    id := T.contentId e.id
    cid := e.id
    kind := kindName e.event.kind
    member := member
    lane := (ownLane e.event.body).or (answeredLane T e rows)
    summary := summary e.event.body
    conflict := e.conflict.isSome
    signer := member ++ "; session " ++ e.event.author
    at_ := e.event.at_
    parents := parentsOf T e rows
    files := e.event.files.map fun f =>
      f.root ++ "/" ++ f.path ++ " (" ++ T.rawContentId f.id ++ ")"
    body := lines ((T.bodyJson e.event.body).toOption.getD "")
    verified := verifiedText T e }

/-- The rows of further entries, after those there are. -/
def rowsFrom (rows : List EventRow) (entries : List Flock.Entry) : List EventRow :=
  entries.foldl (fun rows e => rows ++ [rowOf T e rows]) rows

/-- Whether cached rows are those of the first entries. -/
def reusable (cached : List EventRow) (entries : List Flock.Entry) : Bool :=
  decide (cached.length ≤ entries.length) &&
    (cached.zip entries).all fun p => decide (p.1.cid = p.2.id)

def kept (prev : Option (List EventRow)) (entries : List Flock.Entry) : List EventRow :=
  match prev with
  | some p => if reusable p entries then p else []
  | none => []

/-- Every event of a board in admission order, with the rows of `prev` taken
over if they are a front part of this log. -/
def foldEvents (board : Board) (prev : Option (List EventRow)) : List EventRow :=
  let entries := board.entriesInOrder
  let rows := kept prev entries
  rowsFrom T rows (entries.drop rows.length)

def rowsOf (entries : List Flock.Entry) : List EventRow := rowsFrom T [] entries

variable {T} {entries : List Flock.Entry}

theorem foldEvents_none (board : Board) :
    foldEvents T board none = rowsOf T board.entriesInOrder := rfl

theorem rowsOf_snoc (entries : List Flock.Entry) (e : Flock.Entry) :
    rowsOf T (entries ++ [e]) = rowsOf T entries ++ [rowOf T e (rowsOf T entries)] := by
  rw [rowsOf, rowsFrom, List.foldl_append]
  rfl

theorem rowsOf_append (entries more : List Flock.Entry) :
    rowsOf T (entries ++ more) = rowsFrom T (rowsOf T entries) more := by
  rw [rowsOf, rowsFrom, List.foldl_append]
  rfl

theorem length_rowsOf (entries : List Flock.Entry) :
    (rowsOf T entries).length = entries.length := by
  induction entries using List.reverseRecOn with
  | nil => rfl
  | append_singleton entries e ih =>
    rw [rowsOf_snoc, List.length_append, List.length_append, ih]
    rfl

theorem rowsOf_cids (entries : List Flock.Entry) :
    (rowsOf T entries).map (·.cid) = entries.map (·.id) := by
  induction entries using List.reverseRecOn with
  | nil => rfl
  | append_singleton entries e ih =>
    rw [rowsOf_snoc, List.map_append, List.map_append, ih]
    rfl

/-- **The row at a position** is that of the entry there, built from the rows
before it. -/
theorem rowsOf_get {i : ℕ} {row : EventRow} (h : (rowsOf T entries)[i]? = some row) :
    ∃ e, entries[i]? = some e ∧ row = rowOf T e ((rowsOf T entries).take i) := by
  induction entries using List.reverseRecOn with
  | nil => cases h
  | append_singleton entries e ih =>
    have hlen := length_rowsOf (T := T) entries
    rw [rowsOf_snoc] at h ⊢
    rcases Nat.lt_trichotomy i entries.length with hlt | rfl | hgt
    · rw [List.getElem?_append_left (by omega)] at h
      obtain ⟨e', he', hrow⟩ := ih h
      refine ⟨e', ?_, ?_⟩
      · rw [List.getElem?_append_left hlt, he']
      · rw [List.take_append_of_le_length (by omega), hrow]
    · rw [List.getElem?_append_right (by omega), hlen, Nat.sub_self] at h
      cases h
      refine ⟨e, ?_, ?_⟩
      · rw [List.getElem?_append_right le_rfl, Nat.sub_self]
        rfl
      · rw [← hlen, List.take_left]
    · rw [List.getElem?_eq_none (by simp; omega)] at h
      cases h

theorem rowsOf_id {row : EventRow} (h : row ∈ rowsOf T entries) :
    row.id = T.contentId row.cid := by
  obtain ⟨i, hi⟩ := List.mem_iff_getElem?.mp h
  obtain ⟨e, -, rfl⟩ := rowsOf_get hi
  rfl

/-- Each parent is the text of an id, with the first row of that text. -/
theorem mem_parentsOf {e : Flock.Entry} {rows : List EventRow} {p : Parent}
    (h : p ∈ parentsOf T e rows) :
    ∃ role id, p = parent T rows role id ∧
      ((role = "prev" ∧ e.event.prev = some id) ∨ e.event.refs[role]? = some id) := by
  rcases List.mem_append.mp h with h | h
  · obtain ⟨id, hid, rfl⟩ := List.mem_map.mp h
    exact ⟨"prev", id, rfl, .inl ⟨rfl, Option.mem_toList.mp hid⟩⟩
  · obtain ⟨r, hr, rfl⟩ := List.mem_map.mp h
    exact ⟨r.1, r.2, rfl, .inr (ExtTreeMap.mem_toList_iff_getElem?_eq_some.mp hr)⟩

theorem parent_row {rows : List EventRow} {role : String} {id : ContentId} {k : ℕ}
    (h : (parent T rows role id).row = some k) :
    ∃ r, rows[k]? = some r ∧ r.id = T.contentId id := by
  obtain ⟨hk, hid, -⟩ := List.findIdx?_eq_some_iff_getElem.mp h
  exact ⟨rows[k], List.getElem?_eq_getElem hk, by simpa using hid⟩

/-- **Positions point backwards**, at the row of that content id. -/
theorem rowsOf_parents (hids : Function.Injective T.contentId) {i : ℕ} {row : EventRow}
    (h : (rowsOf T entries)[i]? = some row) {p : Parent} (hp : p ∈ row.parents) {k : ℕ}
    (hk : p.row = some k) :
    k < i ∧ ∃ r id, (rowsOf T entries)[k]? = some r ∧ p.id = T.contentId id ∧ r.id = p.id ∧
      r.cid = id := by
  obtain ⟨e, -, rfl⟩ := rowsOf_get h
  obtain ⟨role, id, rfl, -⟩ := mem_parentsOf hp
  obtain ⟨r, hr, hid⟩ := parent_row hk
  rw [List.getElem?_take] at hr
  obtain ⟨hlt, hget⟩ := Option.ite_none_right_eq_some.mp hr
  refine ⟨hlt, r, id, hget, rfl, hid, hids ?_⟩
  rw [← rowsOf_id (List.mem_of_getElem? hget), hid]

/-! ### Taking rows over -/

/-- Cached rows are taken over if their ids are those of the first entries. -/
theorem reusable_iff {cached : List EventRow} {entries : List Flock.Entry} :
    reusable cached entries = true ↔ cached.map (·.cid) <+: entries.map (·.id) := by
  induction cached generalizing entries with
  | nil => simp [reusable]
  | cons row cached ih =>
    cases entries with
    | nil => simp [reusable]
    | cons e entries =>
      have hcons : reusable (row :: cached) (e :: entries) = true ↔
          row.cid = e.id ∧ reusable cached entries = true := by
        simp only [reusable, List.length_cons, Nat.add_le_add_iff_right, List.zip_cons_cons,
          List.all_cons, Bool.and_eq_true, decide_eq_true_eq]
        tauto
      rw [hcons, ih, List.map_cons, List.map_cons, List.cons_prefix_cons]

/-- **Rows of a front part can be taken over**, and others are not. -/
theorem foldEvents_reuse {board : Board} {front : List Flock.Entry}
    (h : front.map (·.id) <+: board.entriesInOrder.map (·.id) → front <+: board.entriesInOrder) :
    foldEvents T board (some (rowsOf T front)) = foldEvents T board none := by
  rw [foldEvents_none]
  by_cases hre : reusable (rowsOf T front) board.entriesInOrder = true
  · have hids := reusable_iff.mp hre
    rw [rowsOf_cids] at hids
    obtain ⟨more, hmore⟩ := h hids
    rw [foldEvents, kept, if_pos hre, length_rowsOf, ← hmore, List.drop_left, rowsOf_append]
  · rw [foldEvents, kept, if_neg hre]
    rfl

end Tui
