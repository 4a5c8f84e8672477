/-
Who may be nudged.

`resolve` finds the pane to prompt for a member, or says why there is none.  It
looks only at one listing of the panes and runs again on every fresh one.  A
pane that is or might be the operator's or an adapter's is never the answer:
`join` leaves an ambiguous member unplaced, which would free its panes for
somebody else, so they are collected apart.

* `Entry.covers_iff` — what a line of a deny or allow list covers;
* `resolve_ok` — everything `resolve` checked of the pane it returns;
* `nudge_confined` — the pane is in scope, its own member's and nobody
  else's.
-/
import AgentMesh.Herdr

open Std Flock

namespace Herdr

inductive Entry where
  | tab (id : String)
  | workspace (id : String)
  | pane (id : String)
  deriving DecidableEq

/-- Whether the entry covers a pane; `unknown` is the answer for a workspace
when herdr reports none. -/
def Entry.covers (p : Pane) (unknown : Bool) : Entry → Bool
  | .tab t => decide (p.tabId = t)
  | .pane i => decide (p.paneId = i)
  | .workspace w => p.workspaceId.elim unknown fun pw => decide (pw = w)

/-- Where a nudge may never go and, when set, the only places it may. -/
structure Scope where
  deny : List Entry
  allow : List Entry
  deriving DecidableEq

inductive Refusal where
  | notNudgeable
  | unidentified
  | noPane
  | ambiguous (n : ℕ)
  | mapGone (id : String)
  | claimGone (id : String)
  | mapping (why : String)
  | ownPane
  | protectedPane
  | denied
  | notAllowed
  | unsafeId
  deriving DecidableEq

def Refusal.text : Refusal → String
  | .notNudgeable => "not a member that is nudged"
  | .unidentified => "cannot identify this herdr session"
  | .noPane => "no pane"
  | .ambiguous n => s!"ambiguous pane ({n})"
  | .mapGone id => s!"mapped pane {id} is gone"
  | .claimGone id => s!"its claimed pane {id} is gone"
  | .mapping why => s!"mapping: {why}"
  | .ownPane => "the adapter's own pane"
  | .protectedPane => "a protected pane (the operator's or an adapter's)"
  | .denied => "on the deny list"
  | .notAllowed => "not on the allow list"
  | .unsafeId => "a pane id that is not safe to pass"

/-- Who is nudged and what bounds it. -/
structure Target where
  roster : List Member
  member : String
  /-- Each member's active session's last claimed pane. -/
  claims : BTreeMap String String
  /-- `--map member=pane`. -/
  explicit : BTreeMap String String
  /-- The pane this command runs in. -/
  ownPane : Option String
  scope : Scope
  deriving DecidableEq

def reserved (role : Role) : Bool := decide (role = .operator ∨ role = .adapter)

namespace Target

variable (t : Target) (panes : List Pane)

/-- The claims, with `--map` over them. -/
def effective : BTreeMap String String :=
  t.explicit.toList.foldl (fun m p => m.insert p.1 p.2) t.claims

/-- A claimed pane must still be there, unless `--map` says otherwise. -/
def checkClaim (name : String) : Except Refusal Unit :=
  if name ∈ t.explicit then .ok ()
  else match t.claims[name]? with
    | some claimed => ensure (panes.any fun p => decide (p.paneId = claimed)) (.claimGone claimed)
    | none => .ok ()

/-- Every pane that is, or might be, the operator's or an adapter's. -/
def protectedPanes : List String :=
  (t.roster.filter fun m => reserved m.role).flatMap fun m =>
    ((panes.filter fun p => decide (p.label = some m.name)).map (·.paneId)) ++
      t.explicit[m.name]?.toList ++ t.claims[m.name]?.toList

end Target

def placedPane (placed : List Placement) (name : String) : Except Refusal Pane :=
  match placed.find? fun p => decide (p.1.name = name) with
  | some (_, .ok pane) => .ok pane
  | some (_, .error .noPane) | none => .error .noPane
  | some (_, .error (.ambiguous n)) => .error (.ambiguous n)
  | some (_, .error (.gone id)) => .error (.mapGone id)

/-- The pane to prompt for `t.member`, or why none. -/
def resolve (t : Target) (panes : List Pane) : Except Refusal Pane := do
  let member ← okOr ((t.roster.find? fun m => decide (m.name = t.member)).filter fun m =>
    !reserved m.role) .notNudgeable
  -- we must be in the herdr we are asking: our own pane is in its listing
  let own ← okOr (t.ownPane.filter fun id => panes.any fun p => decide (p.paneId = id))
    .unidentified
  t.checkClaim panes member.name
  let placed ← (join t.roster panes t.effective none).mapError .mapping
  let pane ← placedPane placed member.name
  ensure (safeId pane.paneId && safeId pane.tabId) .unsafeId
  ensure (pane.paneId ≠ own) .ownPane
  ensure (pane.paneId ∉ t.protectedPanes panes) .protectedPane
  ensure (¬(t.scope.deny.any fun e => e.covers pane true)) .denied
  ensure (t.scope.allow = [] ∨ t.scope.allow.any fun e => e.covers pane false) .notAllowed
  return pane

/-! ### What is checked -/

/-- The pane is in the place for certain. -/
def Entry.Within (p : Pane) : Entry → Prop
  | .tab t => p.tabId = t
  | .pane i => p.paneId = i
  | .workspace w => p.workspaceId = some w

/-- The pane may be in the place: herdr does not say which workspace it is in. -/
def Entry.Unsure (p : Pane) : Entry → Prop
  | .workspace _ => p.workspaceId = none
  | _ => False

/-- **What an entry covers**: what is in its place, and on doubt what it is
told to. -/
theorem Entry.covers_iff {p : Pane} {unknown : Bool} {e : Entry} :
    e.covers p unknown = true ↔ e.Within p ∨ (unknown = true ∧ e.Unsure p) := by
  cases e with
  | tab t => simp [covers, Within, Unsure]
  | pane i => simp [covers, Within, Unsure]
  | workspace w => cases hw : p.workspaceId <;> simp [covers, Within, Unsure, hw]

variable {t : Target} {panes : List Pane} {p : Pane}

/-- A pane that is not among the protected ones is not one of a reserved
member, however that member comes to it. -/
theorem not_mem_protectedPanes (h : p.paneId ∉ t.protectedPanes panes) {m : Member}
    (hm : m ∈ t.roster) (hrole : reserved m.role = true) :
    (∀ q ∈ panes, q.label = some m.name → q.paneId ≠ p.paneId) ∧
      t.explicit[m.name]? ≠ some p.paneId ∧ t.claims[m.name]? ≠ some p.paneId := by
  have hnot : p.paneId ∉ ((panes.filter fun p => decide (p.label = some m.name)).map (·.paneId)) ++
      t.explicit[m.name]?.toList ++ t.claims[m.name]?.toList := by
    intro hmem
    exact h (List.mem_flatMap.mpr ⟨m, List.mem_filter.mpr ⟨hm, hrole⟩, hmem⟩)
  simp only [List.mem_append, not_or, Option.mem_toList] at hnot
  refine ⟨fun q hq hlabel hid => ?_, hnot.1.2, hnot.2⟩
  exact hnot.1.1 (List.mem_map.mpr ⟨q, List.mem_filter.mpr ⟨hq, decide_eq_true hlabel⟩, hid⟩)

theorem placedPane_ok {placed : List Placement} {name : String}
    (h : placedPane placed name = .ok p) : ∃ m, m.name = name ∧ (m, .ok p) ∈ placed := by
  unfold placedPane at h
  split at h
  · rename_i m pane hfind
    cases h
    exact ⟨m, by simpa using List.find?_some hfind, List.mem_of_find?_eq_some hfind⟩
  all_goals cases h

/-- What `resolve` established of the pane it returns. -/
structure Resolved (t : Target) (panes : List Pane) (p : Pane) : Prop where
  member : ∃ m ∈ t.roster, m.name = t.member ∧ reserved m.role = false
  own : ∃ own, t.ownPane = some own ∧ p.paneId ≠ own ∧ ∃ q ∈ panes, q.paneId = own
  placed : ∃ placed m, join t.roster panes t.effective none = .ok placed ∧ m.name = t.member ∧
    (m, .ok p) ∈ placed
  safe : safeId p.paneId = true
  free : p.paneId ∉ t.protectedPanes panes
  permitted : ∀ e ∈ t.scope.deny, e.covers p true = false
  allowed : t.scope.allow = [] ∨ ∃ e ∈ t.scope.allow, e.covers p false = true

/-- **Everything `resolve` checked.** -/
theorem resolve_ok (h : resolve t panes = .ok p) : Resolved t panes p := by
  simp only [resolve, bind_ok, okOr_ok, mapError_ok, ensure_ok, pure, Except.pure,
    Except.ok.injEq] at h
  obtain ⟨member, hmember, own, hown, _, -, placed, hjoin, pane, hpane, _, hsafe, _, hne, _, hfree,
    _, hdeny, _, hallow, rfl⟩ := h
  obtain ⟨hfind, hrole⟩ := Option.filter_eq_some_iff.mp hmember
  have hname : member.name = t.member := by simpa using List.find?_some hfind
  obtain ⟨hown, hlisted⟩ := Option.filter_eq_some_iff.mp hown
  obtain ⟨m, hm, hmem⟩ := placedPane_ok hpane
  refine ⟨⟨member, List.mem_of_find?_eq_some hfind, hname, by simpa using hrole⟩,
    ⟨own, hown, hne, by simpa using hlisted⟩, ⟨placed, m, hjoin, hm.trans hname, hmem⟩,
    (Bool.and_eq_true _ _ |>.mp hsafe).1, hfree, by simpa using hdeny, ?_⟩
  exact hallow.imp id fun h => by simpa using h

/-- **A nudge never targets a protected or out-of-scope pane.**  A pane that
`resolve` returns for a member is listed and not the adapter's own; no operator
or adapter has it by label, map or claim; nobody else is placed on it; no deny
entry covers it, not even on doubt, and an allow entry covers it for certain if
there is one.  And `join` gives no pane to two members, and none by a label
that several panes carry. -/
theorem nudge_confined (t : Target) (panes : List Pane) :
    (∀ p, resolve t panes = .ok p →
      (∃ m ∈ t.roster, m.name = t.member ∧ m.role ≠ .operator ∧ m.role ≠ .adapter) ∧
      p ∈ panes ∧
      (∃ own, t.ownPane = some own ∧ p.paneId ≠ own ∧ ∃ q ∈ panes, q.paneId = own) ∧
      (∀ m ∈ t.roster, m.role = .operator ∨ m.role = .adapter →
        (∀ q ∈ panes, q.label = some m.name → q.paneId ≠ p.paneId) ∧
        t.explicit[m.name]? ≠ some p.paneId ∧ t.claims[m.name]? ≠ some p.paneId) ∧
      (∃ placed, join t.roster panes t.effective none = .ok placed ∧
        ∀ m q, (m, .ok q) ∈ placed → m.name ≠ t.member → q.paneId ≠ p.paneId) ∧
      (∀ e ∈ t.scope.deny, ¬e.Within p ∧ ¬e.Unsure p) ∧
      (t.scope.allow ≠ [] → ∃ e ∈ t.scope.allow, e.Within p)) ∧
    ∀ explicit tab placed, join t.roster panes explicit tab = .ok placed →
      (∀ m m' p p', (m, .ok p) ∈ placed → (m', .ok p') ∈ placed → m ≠ m' →
        p.paneId ≠ p'.paneId) ∧
      ∀ m p, (m, .ok p) ∈ placed → explicit[m.name]? = none →
        labelled panes tab m.name = [p] := by
  refine ⟨fun p h => ?_, fun explicit tab placed hjoin => ⟨?_, ?_⟩⟩
  · obtain ⟨hmember, hown, ⟨placed, m, hjoin, hm, hmem⟩, -, hfree, hdeny, hallow⟩ := resolve_ok h
    obtain ⟨hroster, hplace, -⟩ := (join_ok hjoin).mp hmem
    refine ⟨?_, (mem_place hplace).1, hown, ?_, ⟨placed, hjoin, ?_⟩, ?_, ?_⟩
    · obtain ⟨m', hm', hname, hrole⟩ := hmember
      simp only [reserved, decide_eq_false_iff_not, not_or] at hrole
      exact ⟨m', hm', hname, hrole⟩
    · intro m' hm' hrole
      exact not_mem_protectedPanes hfree hm' (decide_eq_true hrole)
    · intro m' q hq hname
      refine join_distinct hjoin hq hmem ?_
      rintro rfl
      exact hname hm
    · intro e he
      have hcovers := hdeny e he
      rw [← Bool.not_eq_true, Entry.covers_iff, not_or] at hcovers
      exact ⟨hcovers.1, fun hunsure => hcovers.2 ⟨rfl, hunsure⟩⟩
    · intro hne
      obtain ⟨e, he, hcovers⟩ := hallow.resolve_left hne
      rw [Entry.covers_iff] at hcovers
      exact ⟨e, he, hcovers.resolve_right fun h => Bool.false_ne_true h.1⟩
  · exact fun m m' p p' hm hm' hne => join_distinct hjoin hm hm' hne
  · intro m p hm hnone
    obtain ⟨-, hplace, -⟩ := (join_ok hjoin).mp hm
    rcases (mem_place hplace).2 with hmap | ⟨-, hone⟩
    · rw [hnone] at hmap
      cases hmap
    · exact hone

/-! The operator's label is on two panes, so the operator is placed on neither;
the helper claims one of them, and then its own. -/

namespace Small

def roster : List Member :=
  [⟨"op", .operator, [], false⟩, ⟨"ad", .adapter, [], false⟩, ⟨"h1", .helper, [], false⟩]

def listing : List Pane :=
  [⟨"w1:p1", "w1:t1", some "w1", some "op"⟩, ⟨"w1:p2", "w1:t1", some "w1", some "op"⟩,
    ⟨"w1:p3", "w1:t1", some "w1", some "ad"⟩, ⟨"w1:p4", "w1:t2", none, some "h1"⟩]

/-- The helper, with this claim. -/
def target (claimed : String) : Target where
  roster := roster
  member := "h1"
  claims := (∅ : BTreeMap String String).insert "h1" claimed
  explicit := ∅
  ownPane := some "w1:p3"
  scope := ⟨[.tab "w9:t1"], [.pane "w1:p4", .workspace "w1"]⟩

end Small

set_option maxRecDepth 100000 in
theorem nudge_confined_small :
    resolve (Small.target "w1:p1") Small.listing = .error .protectedPane ∧
    ∃ p, resolve (Small.target "w1:p4") Small.listing = .ok p ∧ p.paneId = "w1:p4" ∧
      (∀ q ∈ Small.listing, q.label = some "op" → q.paneId ≠ p.paneId) ∧
      ∃ e ∈ (Small.target "w1:p4").scope.allow, e.Within p := by
  have hresolve : resolve (Small.target "w1:p4") Small.listing =
      .ok ⟨"w1:p4", "w1:t2", none, some "h1"⟩ := by decide +kernel
  have hop : (⟨"op", .operator, [], false⟩ : Member) ∈ (Small.target "w1:p4").roster :=
    List.mem_cons_self
  obtain ⟨-, -, -, hreserved, -, -, hallow⟩ :=
    (nudge_confined (Small.target "w1:p4") Small.listing).1 _ hresolve
  exact ⟨by decide +kernel, _, hresolve, rfl, (hreserved _ hop (.inl rfl)).1,
    hallow (List.cons_ne_nil _ _)⟩

end Herdr
