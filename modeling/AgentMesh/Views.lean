/-
What the viewer shows.

`fold` turns a verified log into everything the views need: the header, the
roster with what each member is doing, every event as a row, the lanes and what
waits for someone.  A newer log is folded onto an older model: `foldOnto` takes
its event rows over and builds only the new ones.

* `reuse_of_reaches` — the rows of one follower, folded onto another;
* `views_agree` — the result is that of folding from nothing.
-/
import AgentMesh.EventLogs
import AgentMesh.EventRows

open Std Mesh Flock

/-- The label a board shows. -/
def Flock.AttemptView.label (a : AttemptView) : String :=
  let state := match a.state with
    | .submitted => "submitted"
    | .working => "working"
    | .inputRequired => "input-required"
    | .completed => "completed"
    | .failed => "failed"
  if a.jobOpen then state ++ ", job open" else state

namespace Tui

/-- What the fold reads: a verified front part of one flock. -/
structure Source where
  name : String
  /-- The flock id. -/
  id : ContentId
  board : Board
  sessions : Sessions
  admitted : ℕ
  epoch : ℕ

/-- From a follower (the live feed). -/
def Source.ofFollower (name : String) (id : ContentId) (f : Follower) : Source :=
  ⟨name, id, f.st.board, f.st.sessions, f.admitted, f.st.chain.epoch⟩

/-- Whether the view is following the server. -/
inductive Link where
  | live
  /-- The stream is down; the view is the log as of `since` events. -/
  | stale (since : ℕ)
  | failed (why : String)
  /-- A verified frame could not be saved. -/
  | unsaved (why : String)
  deriving DecidableEq

/-- What every view shows at the top. -/
structure Header where
  flock : String
  shortId : String
  members : ℕ
  verified : ℕ
  epoch : ℕ
  link : Link
  deriving DecidableEq

structure Open where
  jobs : ℕ
  lanes : ℕ
  asks : ℕ
  deriving DecidableEq

/-- One roster member as the board shows it. -/
structure MemberRow where
  name : String
  role : String
  session : String
  /-- The member's own latest `status` text. -/
  says_ : String
  open_ : Open
  /-- Events since the member last wrote anything. -/
  quietFor : Option ℕ
  deriving DecidableEq

/-- One attempt (a brief) of a lane. -/
structure Attempt where
  index : ℕ
  label : String
  /-- Admission indexes of the conflict events aimed at it. -/
  conflicts : List ℕ
  deriving DecidableEq

/-- A review or verdict of a lane and whether a later result has overtaken it. -/
structure Reviewed where
  index : ℕ
  kind : String
  head : String
  newerResult : Option ℕ
  deriving DecidableEq

/-- One lane as the lane view shows it. -/
structure LaneRow where
  lane : String
  latest : Attempt
  older : List Attempt
  reviews : List Reviewed
  files : List FileRef
  deriving DecidableEq

/-- One thing that waits for someone: an unanswered ask, a review with no
verdict, a brief nobody has taken. -/
structure Waiting where
  kind : String
  index : ℕ
  /-- Events admitted since. -/
  age : ℕ
  /-- The member it waits on, or `-` if the log does not say. -/
  on : String
  lane : Option String
  what : String
  draft : Option String
  deriving DecidableEq

/-- Everything the views need. -/
structure Model where
  header : Header
  members : List MemberRow
  events : List EventRow
  lanes : List LaneRow
  waiting : List Waiting
  deriving DecidableEq

/-! ### Members -/

/-- The `Debug` text of a role, lower case. -/
def roleText : Role → String
  | .shepherd => "shepherd"
  | .reviewer => "reviewer"
  | .helper => "helper"
  | .adapter => "adapter"
  | .operator => "operator"

/-- A member can hold one active session and pending replacements. -/
def sessionState (sessions : Sessions) (member : String) : String :=
  let mine := (sessions.live.filterMap fun s => sessions.get s.1).filter fun s =>
    decide (s.member = member)
  let active := mine.countP fun s => decide (s.status = .active)
  let pending := mine.countP fun s => decide (s.status = .pending)
  match active, pending with
  | 0, 0 => "none"
  | 0, _ => "pending"
  | _, 0 => "active"
  | _, n => "active +" ++ toString n

def statusText : Body → Option String
  | .status text => some text
  | _ => none

def latestStatus (board : Board) (member : String) : String :=
  let mine := board.entriesInOrder.filter fun e =>
    decide (e.event.kind = .status) && decide (e.member = some member)
  (mine.getLast?.bind fun e => statusText e.event.body).getD "-"

/-- The member's events of a kind that nothing has closed. -/
def openOf (board : Board) (member : String) (kind : Kind) : ℕ :=
  board.entriesInOrder.countP fun e =>
    decide (e.member = some member) && decide (e.event.kind = kind) && e.conflict.isNone &&
      (board.closerOf e.id).isNone

def briefed (body : Body) : Option String :=
  match body with
  | .brief to_ _ => some to_
  | _ => none

def openWork (board : Board) (member : String) : Open where
  jobs := openOf board member .job
  asks := openOf board member .ask
  lanes := board.lanes.countP fun l =>
    decide (l.latest.state = .submitted ∨ l.latest.state = .working ∨
      l.latest.state = .inputRequired) &&
    (board.get l.latest.brief).any fun e => decide (briefed e.event.body = some member)

def quietFor (board : Board) (member : String) (admitted : ℕ) : Option ℕ :=
  let mine := board.entriesInOrder.filter fun e => decide (e.member = some member)
  (mine.map (·.index)).max?.map fun last => admitted - last

def memberRow (src : Source) (m : Member) : MemberRow where
  name := m.name
  role := roleText m.role
  session := sessionState src.sessions m.name
  says_ := latestStatus src.board m.name
  open_ := openWork src.board m.name
  quietFor := quietFor src.board m.name src.admitted

/-! ### Lanes -/

def attempt (a : AttemptView) (board : Board) : Attempt :=
  let at_ := fun id => (board.get id).elim 0 (·.index)
  ⟨at_ a.brief, a.label, a.conflicts.map at_⟩

/-- The head a review or a verdict names, with which of them it is. -/
def reviewedHead : Body → Option (String × String)
  | .review _ _ head => some ("review", head)
  | .verdict head _ => some ("verdict", head)
  | _ => none

/-- Files in the order they were first cited. -/
def distinctFiles (files : List FileRef) : List FileRef :=
  files.foldl (fun seen f => if f ∈ seen then seen else seen ++ [f]) []

def laneRow (board : Board) (events : List EventRow) (l : LaneView) : LaneRow :=
  let mine := (board.entriesInOrder.zip events).filter fun p => decide (p.2.lane = some l.lane)
  let results := (mine.filter fun p =>
    decide (p.1.event.kind = .result) && p.1.conflict.isNone).map (·.1.index)
  { lane := l.lane
    latest := attempt l.latest board
    older := l.older.map fun a => attempt a board
    reviews := mine.filterMap fun p => do
      let kindHead ← reviewedHead p.1.event.body
      return ⟨p.1.index, kindHead.1, kindHead.2, results.find? fun i => decide (p.2.index < i)⟩
    files := distinctFiles (mine.flatMap (·.1.event.files)) }

def laneRows (board : Board) (events : List EventRow) : List LaneRow :=
  board.lanes.map (laneRow board events)

/-! ### What waits -/

/-- An open ask waits on whoever briefed the work it is about; a review waits
on its addressee. -/
def waitingRow (board : Board) (admitted : ℕ) (e : Flock.Entry) : Option Waiting :=
  match e.event.body with
  | .ask lane text =>
    let on := ((e.event.refs["about"]?.bind board.get).bind (·.member)).getD "-"
    let draft := e.event.files.head?.map fun f => f.root ++ "/" ++ f.path
    some ⟨"ask", e.index, admitted - e.index, on, lane, text, draft⟩
  | .review to_ lane head =>
    some ⟨"review", e.index, admitted - e.index, to_, some lane, "head " ++ head, none⟩
  | _ => none

/-- A lane's latest attempt that nobody has taken. -/
def waitingBrief (board : Board) (admitted : ℕ) (l : LaneView) : Option Waiting :=
  if l.latest.state ≠ .submitted then none
  else do
    let e ← board.get l.latest.brief
    match e.event.body with
    | .brief to_ lane =>
      some ⟨"brief", e.index, admitted - e.index, to_, some lane, "to " ++ to_, none⟩
    | _ => none

def waitingRows (board : Board) (admitted : ℕ) : List Waiting :=
  let unclosed := board.entriesInOrder.filter fun e =>
    e.conflict.isNone && (board.closerOf e.id).isNone
  (unclosed.filterMap (waitingRow board admitted) ++
    board.lanes.filterMap (waitingBrief board admitted)).insertionSort fun v w => v.index ≤ w.index

/-! ### The model -/

/-- How many characters of the flock id are shown. -/
def shortId : ℕ := 12

variable (T : Texts)

/-- `fold`, with the event rows of an earlier model of the same log taken
over. -/
def foldOnto (prev : Option Model) (src : Source) (link : Link) : Model :=
  let events := foldEvents T src.board (prev.map (·.events))
  { header :=
      { flock := src.name
        shortId := String.ofList ((T.contentId src.id).toList.take shortId)
        members := src.board.members.length
        verified := src.admitted
        epoch := src.epoch
        link := link }
    members := src.board.members.map (memberRow src)
    events := events
    lanes := laneRows src.board events
    waiting := waitingRows src.board src.admitted }

/-- Fold a verified log into the model. -/
def fold (src : Source) (link : Link) : Model := foldOnto T none src link

/-! ### Folding onto an older model -/

variable {T} {P : Primitives} {g : MerkleNode Genesis}

theorem reuse_of_reaches (hinj : Function.Injective P.eventId) (hkeys : P.KeysInjective)
    {frames frames' : List (List Sealed)} {a b : Follower}
    (ha : Follower.Reaches P g frames a) (hb : Follower.Reaches P g frames' b) :
    foldEvents T b.st.board (some (foldEvents T a.st.board none)) =
      foldEvents T b.st.board none := by
  rw [foldEvents_none a.st.board]
  refine foldEvents_reuse fun hids => ?_
  rw [ha.replays.entries_ids, hb.replays.entries_ids] at hids
  -- the other log starts with the same events
  obtain ⟨ids, hids⟩ := hids
  obtain ⟨ys, zs, hsplit, hys, -⟩ := List.map_eq_append_iff.mp hids.symm
  have hevents : frames.flatten.map (·.event) = ys.map (·.event) := by
    refine List.map_injective_iff.mpr hinj ?_
    rw [List.map_map, List.map_map]
    exact hys.symm
  have hlog := hb.replays
  rw [hsplit] at hlog
  exact ha.replays.entries_isPrefix hkeys hlog hevents

theorem cids_of_reaches {frames : List (List Sealed)} {f : Follower}
    (h : Follower.Reaches P g frames f) :
    (foldEvents T f.st.board none).map (·.cid) =
      frames.flatten.map fun x => P.eventId x.event := by
  rw [foldEvents_none, rowsOf_cids, h.replays.entries_ids]

/-- **An incremental view is the full view.**  For two followers of one flock,
whatever frames each accepted, folding the board of one onto the rows, or the
model, of the other gives what folding it from nothing gives; its rows are the
events it accepted, in their order, numbered from one; and a parent's position
is that of an earlier row, the one with the parent's content id. -/
theorem views_agree (hinj : Function.Injective P.eventId) (hkeys : P.KeysInjective)
    (htext : Function.Injective T.contentId) {frames frames' : List (List Sealed)}
    {a b : Follower} (ha : Follower.Reaches P g frames a) (hb : Follower.Reaches P g frames' b) :
    foldEvents T b.st.board (some (foldEvents T a.st.board none)) =
      foldEvents T b.st.board none ∧
    (∀ name name' id id' link link',
      foldOnto T (some (fold T (.ofFollower name' id' a) link')) (.ofFollower name id b) link =
        fold T (.ofFollower name id b) link) ∧
    (foldEvents T b.st.board none).map (·.cid) =
      frames'.flatten.map (fun x => P.eventId x.event) ∧
    (∀ i row, (foldEvents T b.st.board none)[i]? = some row →
      row.index = i + 1 ∧
      ∀ p ∈ row.parents, ∀ k, p.row = some k →
        k < i ∧ ∃ r id, (foldEvents T b.st.board none)[k]? = some r ∧
          p.id = T.contentId id ∧ r.id = p.id ∧ r.cid = id) := by
  have hreuse : foldEvents T b.st.board (some (foldEvents T a.st.board none)) =
      foldEvents T b.st.board none := reuse_of_reaches hinj hkeys ha hb
  refine ⟨hreuse, ?_, cids_of_reaches hb, ?_⟩
  · intro name name' id id' link link'
    have hevents : foldEvents T (Source.ofFollower name id b).board
        ((some (fold T (.ofFollower name' id' a) link')).map (·.events)) =
        foldEvents T (Source.ofFollower name id b).board none := hreuse
    rw [foldOnto, hevents]
    rfl
  · intro i row hrow
    rw [foldEvents_none] at hrow ⊢
    refine ⟨?_, fun p hp k hk => rowsOf_parents htext hrow hp hk⟩
    obtain ⟨e, he, rfl⟩ := rowsOf_get hrow
    exact hb.replays.entry_index he

/-! ### A hand-over, seen twice -/

theorem keysInjective (tables : Tables) : tables.primitives.KeysInjective := by
  intro k k' h
  have hmarks : List.replicate k.toNat 'k' = List.replicate k'.toNat 'k' :=
    String.ofList_injective h
  have hlength := congrArg List.length hmarks
  rw [List.length_replicate, List.length_replicate] at hlength
  exact BitVec.eq_of_toNat_eq hlength

/-- Ids as texts of one character a byte. -/
def plainTexts : Texts where
  contentId c := String.ofList (c.bytes.map fun b => Char.ofNat b.toNat)
  rawContentId _ := "raw"
  bodyJson _ := .error "not shown"
  conflictDebug _ := "SecondCloser"

theorem charOfByte_injective : Function.Injective fun b : UInt8 => Char.ofNat b.toNat := by
  intro a b h
  have hvalid : ∀ c : UInt8, c.toNat.isValidChar := by
    intro c
    have hlt := c.toNat_lt
    exact .inl (by omega)
  have hnat := congrArg Char.toNat h
  rw [Char.toNat_ofNat, Char.toNat_ofNat, if_pos (hvalid a), if_pos (hvalid b)] at hnat
  exact UInt8.toNat_inj.mp hnat

theorem plainTexts_injective : Function.Injective plainTexts.contentId := by
  rintro ⟨c⟩ ⟨c'⟩ h
  have hchars := String.ofList_injective h
  exact congrArg ContentId.mk (List.map_injective_iff.mpr charOfByte_injective hchars)

/-- The small flock's hand-over, folded onto a model from before it. -/
theorem views_agree_handover :
    ∃ a b, Follower.Reaches Small.P Small.genesis Small.beforeHandoff a ∧
      Follower.Reaches Small.P Small.genesis Small.handover b ∧
      foldOnto plainTexts (some (fold plainTexts (.ofFollower "f" Small.gid a) .live))
          (.ofFollower "f" Small.gid b) .live =
        fold plainTexts (.ofFollower "f" Small.gid b) .live := by
  obtain ⟨b, hb, -⟩ := Small.handover_reached
  obtain ⟨f₀, hnew, hrun⟩ := hb
  obtain ⟨a, hbefore, hafter⟩ := Steps.run_append.mp hrun
  have ha : Follower.Reaches Small.P Small.genesis Small.beforeHandoff a := ⟨f₀, hnew, hbefore⟩
  have hb : Follower.Reaches Small.P Small.genesis Small.handover b := ⟨f₀, hnew, hrun⟩
  refine ⟨a, b, ha, hb, ?_⟩
  exact (views_agree Small.ids_injective.event (keysInjective _) plainTexts_injective ha hb).2.1
    "f" "f" Small.gid Small.gid .live .live

end Tui
