/-
Which brief a result is for, or review a verdict.

A closer sent to a target that is already closed is admitted as a conflict
that closes nothing, and the lane stays open.  So the command line picks the
target from the verified log before anything is sent: the one open target of
the member in a lane, or the one named unless it is closed.  What it picks the
board then closes.

* `mem_openIn` — the targets that are found open;
* `closer_admitted` — a closer of an open target is admitted;
* `picked_closes` — what `pick` returns can be closed, and the one open target
  of a lane is returned.
-/
import AgentMesh.ChainHeads
import AgentMesh.Text

open Std Mesh

namespace Flock

inductive Closing where
  /-- A brief, by a `result`. -/
  | brief
  /-- A review, by a `verdict`. -/
  | review
  deriving DecidableEq

namespace Closing

def kind : Closing → Kind
  | brief => .brief
  | review => .review

def noun : Closing → String
  | brief => "brief"
  | review => "review"

def closer : Closing → String
  | brief => "result"
  | review => "verdict"

end Closing

/-- The id and the lane of `e` if it is a `closing` addressed to `member`. -/
def mine (e : Entry) (closing : Closing) (member : String) : Option (ContentId × String) :=
  if e.conflict ≠ none ∨ e.event.kind ≠ closing.kind then none
  else match e.event.body with
    | .brief to_ lane | .review to_ lane _ => if to_ = member then some (e.id, lane) else none
    | _ => none

def openIn (b : Board) (closing : Closing) (member lane : String) : List ContentId :=
  ((b.entriesInOrder.filterMap fun e => mine e closing member).filter fun p =>
    decide (p.2 = lane ∧ b.closerOf p.1 = none)).map (·.1)

/-- How content ids are written and read. -/
structure IdText where
  display : ContentId → String
  parse : String → Option ContentId

variable (T : IdText)

/-- Why there is no target in `lane`. -/
def noTarget (b : Board) (closing : Closing) (member lane : String) : String :=
  let closed := ((b.entriesInOrder.filterMap fun e => mine e closing member).filter fun p =>
    decide (p.2 = lane)).map fun p => T.display p.1
  if closed = [] then
    "no " ++ closing.noun ++ " for " ++ inert member ++ " in lane " ++ inert lane ++
      ": nothing is addressed to this member there"
  else
    "no open " ++ closing.noun ++ " for " ++ inert member ++ " in lane " ++ inert lane ++
      ": already closed: " ++ ", ".intercalate closed

/-- What to close instead of a target that is closed, if there is something. -/
def openHint (b : Board) (closing : Closing) (member : String) (id : ContentId) : String :=
  match (b.get id).bind fun e => mine e closing member with
  | none => ""
  | some (_, lane) =>
    if openIn b closing member lane = [] then ""
    else
      "; the open " ++ closing.noun ++ " in lane " ++ inert lane ++ " is " ++
        ", ".intercalate ((openIn b closing member lane).map T.display) ++
        " (or use --lane " ++ inert lane ++ ")"

/-- The content id to close: `cid` if it names an open target, or the one open
target of `member` in `lane`.  `b` is the verified log's board. -/
def pick (b : Board) (closing : Closing) (member : String) (cid lane : Option String) :
    Except String String :=
  match cid, lane with
  | none, some lane =>
    match openIn b closing member lane with
    | [one] => .ok (T.display one)
    | [] => .error (noTarget T b closing member lane)
    | many =>
      .error (toString many.length ++ " open " ++ closing.noun ++ "s for " ++ inert member ++
        " in lane " ++ inert lane ++ "; name one by id:\n  " ++
        "\n  ".intercalate (many.map T.display))
  | some cid, none =>
    match T.parse cid with
    | none => .ok cid
    | some id =>
      match b.closerOf id with
      | none => .ok cid
      | some first =>
        .error (closing.noun ++ " " ++ T.display id ++ " is already closed (by " ++
          T.display first ++ "): a second " ++ closing.closer ++
          " would be admitted as a conflict that closes nothing and the lane would stay open" ++
          openHint T b closing member id)
  | _, _ =>
    .error ("name the " ++ closing.noun ++ " by id or by --lane, not both and not neither")

/-! ### What is found -/

/-- A brief to `member` in `lane`, or a review. -/
def Closing.Addresses (member lane : String) : Closing → Body → Prop
  | .brief, body => body = .brief member lane
  | .review, body => ∃ head, body = .review member lane head

variable {P : Primitives} {g : MerkleNode Genesis} {log : List LogEntry} {b : Board}
  {closing : Closing} {member lane : String}

/-- `mine` finds exactly the targets addressed to the member: no brief and no
review is ever flagged. -/
theorem mine_iff (h : Admitted P g log b) {e : Entry} (hget : b.get e.id = some e)
    {id : ContentId} :
    mine e closing member = some (id, lane) ↔
      e.id = id ∧ closing.Addresses member lane e.event.body := by
  obtain ⟨-, hfits, hflag⟩ := h.get_fits hget
  constructor
  · intro hmine
    unfold mine at hmine
    split at hmine
    · cases hmine
    · rename_i hkept
      rw [not_or, not_not, not_not] at hkept
      have hkind : e.event.body.kind = closing.kind := hfits.trans hkept.2
      split at hmine
      · rename_i to_ lane' hbody
        rw [hbody] at hkind ⊢
        obtain ⟨rfl, hsome⟩ := Option.ite_none_right_eq_some.mp hmine
        cases hsome
        cases closing with
        | brief => exact ⟨rfl, rfl⟩
        | review => cases hkind
      · rename_i to_ lane' head hbody
        rw [hbody] at hkind ⊢
        obtain ⟨rfl, hsome⟩ := Option.ite_none_right_eq_some.mp hmine
        cases hsome
        cases closing with
        | brief => cases hkind
        | review => exact ⟨rfl, head, rfl⟩
      · cases hmine
  · rintro ⟨rfl, haddr⟩
    cases closing with
    | brief =>
      have hbody : e.event.body = .brief member lane := haddr
      rw [hbody] at hfits
      have hconflict : e.conflict = none := hflag (by rw [closedBy, ← hfits]; rfl)
      simp [mine, hconflict, ← hfits, hbody, Body.kind, Closing.kind]
    | review =>
      obtain ⟨head, hbody⟩ := haddr
      rw [hbody] at hfits
      have hconflict : e.conflict = none := hflag (by rw [closedBy, ← hfits]; rfl)
      simp [mine, hconflict, ← hfits, hbody, Body.kind, Closing.kind]

/-- `id` is an admitted target of the member in the lane, and nothing has
closed it. -/
def Board.OpenTarget (b : Board) (closing : Closing) (member lane : String) (id : ContentId) :
    Prop :=
  ∃ e, b.get id = some e ∧ closing.Addresses member lane e.event.body ∧ b.closerOf id = none

/-- **What is found open.** -/
theorem mem_openIn (h : Admitted P g log b) {id : ContentId} :
    id ∈ openIn b closing member lane ↔ b.OpenTarget closing member lane id := by
  simp only [openIn, List.mem_map, List.mem_filter, List.mem_filterMap, decide_eq_true_eq]
  constructor
  · rintro ⟨⟨_, _⟩, ⟨⟨e, he, hmine⟩, rfl, hopen⟩, rfl⟩
    have hget := h.mem_iff_get.mp he
    obtain ⟨rfl, haddr⟩ := (mine_iff h hget).mp hmine
    exact ⟨e, hget, haddr, hopen⟩
  · rintro ⟨e, hget, haddr, hopen⟩
    obtain ⟨rfl, -⟩ := h.get_fits hget
    exact ⟨(e.id, lane), ⟨⟨e, h.mem_iff_get.mpr hget, (mine_iff h hget).mpr ⟨rfl, haddr⟩⟩, rfl,
      hopen⟩, rfl⟩

theorem openIn_nodup (h : Admitted P g log b) : (openIn b closing member lane).Nodup := by
  have hid : ∀ e p, mine e closing member = some p → p.1 = e.id := by
    intro e p hmine
    unfold mine at hmine
    split at hmine
    · cases hmine
    · split at hmine
      · obtain ⟨-, hsome⟩ := Option.ite_none_right_eq_some.mp hmine
        cases hsome
        rfl
      · obtain ⟨-, hsome⟩ := Option.ite_none_right_eq_some.mp hmine
        cases hsome
        rfl
      · cases hmine
  have hsub : ∀ es : List Entry,
      ((es.filterMap fun e => mine e closing member).map (·.1)).Sublist (es.map (·.id)) := by
    intro es
    induction es with
    | nil => exact .slnil
    | cons e es ih =>
      cases hmine : mine e closing member with
      | none =>
        simp only [List.filterMap_cons, hmine, List.map_cons]
        exact ih.cons _
      | some p =>
        simp only [List.filterMap_cons, hmine, List.map_cons, hid e p hmine]
        exact ih.cons_cons _
  have hids : (b.entriesInOrder.map (·.id)).Nodup := by
    rw [h.entriesInOrder, entriesFrom_id]
    exact h.nodup
  exact (((List.filter_sublist).map _).trans (hsub _)).nodup hids

/-! ### What closes it -/

/-- The event that closes target `id`, whose entry is `e`: a result citing the
brief, or a verdict on the review with the review's head. -/
def Closing.Closer (id : ContentId) (e : Entry) (ev : Event) : Closing → Prop
  | .brief => ev.kind = .result ∧ ev.refs = (∅ : BTreeMap String ContentId).insert "brief" id ∧
      ∃ outcome, ev.body = .result outcome
  | .review => ev.kind = .verdict ∧
      ev.refs = (∅ : BTreeMap String ContentId).insert "review" id ∧
      ∃ to_ lane head approved, e.event.body = .review to_ lane head ∧
        ev.body = .verdict head approved

theorem addressed_of {id : ContentId} {e : Entry} (hget : b.get id = some e)
    (haddr : addressee e = some member) (role : Role) (r : String) :
    addressed b (some (member, role)) (some id) r = .ok e := by
  simp only [addressed, bind_ok, okOr_ok, ensure_ok, pure, Except.pure, Except.ok.injEq]
  exact ⟨_, rfl, e, hget, (), haddr, rfl⟩

/-- **A closer of an open target is admitted**, from an active session of the
member that the target is addressed to. -/
theorem closer_admitted (hinj : Function.Injective P.eventId) {s : Sessions}
    (h : b.Serves P g s) (hmember : ∃ m ∈ b.members, m.name = member) {id : ContentId} {e : Entry}
    (hget : b.get id = some e) (haddr : closing.Addresses member lane e.event.body)
    (hopen : b.closerOf id = none) {ev : Event} {signer : Signer}
    (hcloser : closing.Closer id e ev) (hfiles : ∀ f ∈ ev.files, f.root ∈ b.roots)
    (hw : s.Writes P b ev signer member) : admitEvent P b ev.node signer = .admitted := by
  obtain ⟨log, hlog⟩ := h.admitted
  obtain ⟨-, hfits, -⟩ := hlog.get_fits hget
  obtain ⟨m, hm⟩ : ∃ m, (b.members.find? fun m => decide (m.name = member)) = some m := by
    obtain ⟨m, hm, hname⟩ := hmember
    exact Option.isSome_iff_exists.mp (List.find?_isSome.mpr ⟨m, hm, decide_eq_true hname⟩)
  cases closing with
  | brief =>
    obtain ⟨hkind, hrefs, outcome, hbody⟩ := hcloser
    have hbrief : e.event.body = .brief member lane := haddr
    have hcited : checkRefs b ev = .ok (some id) :=
      checkRefs_single (by rw [hkind]; rfl) (by simp [hkind]) (by rw [hkind]; rfl) hrefs hget
        (by rw [← hfits, hbrief]; simp [Body.kind]) (by rw [hbody]; rfl)
    have htable : applyTable b ev (some (member, m.role)) (some id) = .ok (some id) := by
      simp only [applyTable, hkind, bind_ok, pure, Except.pure]
      exact ⟨e, addressed_of hget (by rw [addressee, hbrief]) _ _, trivial⟩
    exact h.admits hinj hw hm (by rw [hkind]; rfl) (by simp [hkind]) (by rw [hkind]; rfl)
      (by rw [hkind, hbody]; rfl) hfiles hcited htable hopen
  | review =>
    obtain ⟨hkind, hrefs, to_, lane', head, approved, hreview, hbody⟩ := hcloser
    obtain ⟨head', hreview'⟩ := haddr
    rw [hreview'] at hreview
    cases hreview
    have hcited : checkRefs b ev = .ok (some id) :=
      checkRefs_single (by rw [hkind]; rfl) (by simp [hkind]) (by rw [hkind]; rfl) hrefs hget
        (by rw [← hfits, hreview']; simp [Body.kind]) (by rw [hbody]; rfl)
    have htable : applyTable b ev (some (member, m.role)) (some id) = .ok (some id) := by
      simp only [applyTable, hkind, hbody, bind_ok, pure, Except.pure]
      exact ⟨e, addressed_of hget (by rw [addressee, hreview']) _ _, (),
        by rw [hreview']; exact ensure_of rfl, trivial⟩
    exact h.admits hinj hw hm (by rw [hkind]; rfl) (by simp [hkind]) (by rw [hkind]; rfl)
      (by rw [hkind, hbody]; rfl) hfiles hcited htable hopen

/-! ### What is picked -/

theorem pick_lane {T : IdText} {text : String} :
    pick T b closing member none (some lane) = .ok text ↔
      ∃ id, openIn b closing member lane = [id] ∧ text = T.display id := by
  constructor
  · intro hpick
    simp only [pick] at hpick
    split at hpick
    · rename_i one hone
      cases hpick
      exact ⟨one, hone, rfl⟩
    · cases hpick
    · cases hpick
  · rintro ⟨id, hone, rfl⟩
    simp only [pick, hone]

theorem pick_cid {T : IdText} {cid text : String}
    (h : pick T b closing member (some cid) none = .ok text) :
    text = cid ∧ ∀ id, T.parse cid = some id → b.closerOf id = none := by
  simp only [pick] at h
  split at h
  · rename_i hparse
    cases h
    refine ⟨rfl, fun id hid => ?_⟩
    rw [hparse] at hid
    cases hid
  · rename_i id hparse
    split at h
    · rename_i hopen
      cases h
      refine ⟨rfl, fun id' hid => ?_⟩
      rw [hparse] at hid
      cases hid
      exact hopen
    · cases h

/-- **The target the command line picks closes cleanly.**  If picking by lane
returns an id, it is the only open target of the member in that lane, and its
closer, from an active session of the member, is admitted without a conflict;
so is the closer of a target that picking by id returns; and the only open
target of a lane is returned. -/
theorem picked_closes (T : IdText) (hinj : Function.Injective P.eventId) {s : Sessions}
    (h : b.Serves P g s) (hmember : ∃ m ∈ b.members, m.name = member) (closing : Closing) :
    (∀ lane text, pick T b closing member none (some lane) = .ok text →
      ∃ id e, text = T.display id ∧ b.get id = some e ∧
        closing.Addresses member lane e.event.body ∧ b.closerOf id = none ∧
        (∀ id', b.OpenTarget closing member lane id' → id' = id) ∧
        ∀ ev signer, closing.Closer id e ev → (∀ f ∈ ev.files, f.root ∈ b.roots) →
          s.Writes P b ev signer member → admitEvent P b ev.node signer = .admitted) ∧
    (∀ cid text id e lane, pick T b closing member (some cid) none = .ok text →
      T.parse text = some id → b.get id = some e → closing.Addresses member lane e.event.body →
        ∀ ev signer, closing.Closer id e ev → (∀ f ∈ ev.files, f.root ∈ b.roots) →
          s.Writes P b ev signer member → admitEvent P b ev.node signer = .admitted) ∧
    ∀ lane id, b.OpenTarget closing member lane id →
      (∀ id', b.OpenTarget closing member lane id' → id' = id) →
      pick T b closing member none (some lane) = .ok (T.display id) := by
  obtain ⟨log, hlog⟩ := h.admitted
  refine ⟨fun lane text hpick => ?_, fun cid text id e lane hpick hparse hget haddr => ?_,
    fun lane id htarget hone => ?_⟩
  · obtain ⟨id, hone, rfl⟩ := pick_lane.mp hpick
    have hmem : ∀ id', b.OpenTarget closing member lane id' ↔ id' = id := by
      intro id'
      rw [← mem_openIn hlog, hone, List.mem_singleton]
    obtain ⟨e, hget, haddr, hopen⟩ := (hmem id).mpr rfl
    exact ⟨id, e, rfl, hget, haddr, hopen, fun id' => (hmem id').mp, fun ev signer hcloser hfiles =>
      closer_admitted hinj h hmember hget haddr hopen hcloser hfiles⟩
  · obtain ⟨rfl, hopen⟩ := pick_cid hpick
    exact fun ev signer hcloser hfiles =>
      closer_admitted hinj h hmember hget haddr (hopen id hparse) hcloser hfiles
  · refine pick_lane.mpr ⟨id, ?_, rfl⟩
    have hmem : id ∈ openIn b closing member lane := (mem_openIn hlog).mpr htarget
    by_contra hne
    rcases ((openIn_nodup hlog).ne_singleton_iff id).mp hne with hnil | ⟨id', hid, hother⟩
    · rw [hnil] at hmem
      cases hmem
    · exact hother (hone id' ((mem_openIn hlog).mp hid))

/-! The shepherd `h` briefs the helper `w`, who then reports. -/

namespace Small

def briefs : MerkleNode Event := event .brief "kk" none [] 0 (.brief "w" "l")

def reports : Event :=
  ⟨gid, .result, "kkkk", none, (∅ : BTreeMap String ContentId).insert "brief" (eid 0), [], 0,
    .result .completed⟩

noncomputable def closingTables : Tables where
  metadata := metadata
  genesis := genesis
  events := [briefs, reports.node]
  records := []
  approvals := []
  certs := certs
  frames := []

noncomputable def briefed : Board :=
  Board.reached closingTables.primitives genesis [⟨briefs, ⟨⟨2⟩, .session "h" false⟩⟩]

/-- The table with the helper's session. -/
def helperTable : Sessions :=
  ⟨∅, ∅, (∅ : BTreeMap String Session).insert "kkkk" ⟨"w", 4, eid 1, .active, ∅, 0, none⟩, {"w"},
    ∅, ∅, ∅⟩

theorem briefed_serves : briefed.Serves closingTables.primitives genesis helperTable :=
  .of_first (Board.reached_admitted _ _ _) rfl rfl

def idText : IdText where
  display id := String.ofList (List.replicate id.bytes.length 'b')
  parse _ := none

end Small

set_option maxRecDepth 100000 in
theorem picked_closes_reported :
    ∃ text, pick Small.idText Small.briefed .brief "w" none (some "l") = .ok text ∧
      admitEvent Small.closingTables.primitives Small.briefed Small.reports.node
        ⟨⟨4⟩, .session "w" false⟩ = .admitted := by
  obtain ⟨text, hpick⟩ : ∃ text, pick Small.idText Small.briefed .brief "w" none (some "l") =
      .ok text := ⟨"bb", by decide +kernel⟩
  have hget : (Small.briefed.get (Small.eid 0)).map (·.event.body) = some (.brief "w" "l") := by
    decide +kernel
  have hmember : ∃ m ∈ Small.briefed.members, m.name = "w" := by decide +kernel
  have hone : Small.briefed.OpenTarget .brief "w" "l" (Small.eid 0) := by
    obtain ⟨e, he, hbody⟩ := Option.map_eq_some_iff.mp hget
    exact ⟨e, he, hbody, by decide +kernel⟩
  obtain ⟨id, e, -, -, -, -, hunique, hadmits⟩ := (picked_closes Small.idText
    Small.closingTables.idsInjective.event Small.briefed_serves hmember .brief).1 "l" text hpick
  obtain rfl := hunique _ hone
  refine ⟨text, hpick, hadmits _ _ ⟨rfl, rfl, .completed, rfl⟩ (by decide) ?_⟩
  exact ⟨⟨⟨"w", 4, Small.eid 1, .active, ∅, 0, none⟩, by decide +kernel, rfl, rfl⟩, rfl,
    by decide +kernel, by decide +kernel, by decide +kernel⟩

end Flock
