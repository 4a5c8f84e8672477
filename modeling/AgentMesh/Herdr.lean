/-
Panes, and the join of a roster onto them.

herdr lists the panes of a terminal; a flock's members are found among them by
an explicit map first and by the pane's label otherwise.  One pane can speak
for one member: a pane that two members map to is nobody's.

* `join_ok` — a member is placed where it maps, unless another one maps there;
* `mem_place` — a member maps to a pane of the listing, by the map or as the
  only one with its label;
* `join_nodup` — no pane id is given to two members.
-/
import AgentMesh.Event

open Std Flock

namespace Herdr

/-- One pane as `herdr pane list` reports it. -/
structure Pane where
  paneId : String
  tabId : String
  /-- Absent in older output. -/
  workspaceId : Option String
  label : Option String
  deriving DecidableEq

/-- What `herdr agent get` says about the agent in a pane. -/
structure Agent where
  terminalId : String
  name : Option String
  agent : Option String
  agentStatus : String
  paneId : String
  tabId : String
  deriving DecidableEq

/-- The longest id of a pane we will put on a command line. -/
def maxId : ℕ := 64

/-- An id that cannot be read as an option or carry anything but id
characters. -/
def safeId (id : String) : Bool :=
  decide (id ≠ "") && decide (id.utf8ByteSize ≤ maxId) && decide (id.toList.head? ≠ some '-') &&
    id.toList.all fun c => c.isAlphanum || c == ':' || c == '_' || c == '.' || c == '-'

inductive Gap where
  | noPane
  | ambiguous (n : ℕ)
  | gone (id : String)
  deriving DecidableEq

/-- A member and the pane it maps to. -/
abbrev Placement := Member × Except Gap Pane

/-- The panes with a member's label, within `tab` when given. -/
def labelled (panes : List Pane) (tab : Option String) (name : String) : List Pane :=
  (panes.filter fun p => decide (tab = none ∨ tab = some p.tabId)).filter fun p =>
    decide (p.label = some name)

/-- Where one member maps, before the others are looked at. -/
def place (panes : List Pane) (explicit : BTreeMap String String) (tab : Option String)
    (m : Member) : Except Gap Pane :=
  match explicit[m.name]? with
  | some id => okOr (panes.find? fun p => decide (p.paneId = id)) (.gone id)
  | none =>
    match labelled panes tab m.name with
    | [] => .error .noPane
    | [one] => .ok one
    | many => .error (.ambiguous many.length)

def taken (out : List Placement) : List String :=
  out.filterMap fun p => p.2.toOption.map (·.paneId)

/-- One pane can speak for one member. -/
def unshared (taken : List String) (p : Placement) : Placement :=
  match p.2 with
  | .ok pane =>
    (p.1, if 1 < taken.count pane.paneId then .error (.ambiguous (taken.count pane.paneId))
      else .ok pane)
  | .error gap => (p.1, .error gap)

def join (roster : List Member) (panes : List Pane) (explicit : BTreeMap String String)
    (tab : Option String) : Except String (List Placement) :=
  match explicit.keys.find? fun who => !roster.any fun m => decide (m.name = who) with
  | some who => .error s!"--map names '{who}', who is not on the roster"
  | none =>
    let out := roster.map fun m => (m, place panes explicit tab m)
    .ok (out.map (unshared (taken out)))

/-! ### Where a member maps -/

variable {roster : List Member} {panes : List Pane} {explicit : BTreeMap String String}
  {tab : Option String} {m : Member} {p : Pane}

/-- **Where a member maps**: to a pane of the listing, the one it is mapped to
or the only one that carries its label. -/
theorem mem_place (h : place panes explicit tab m = .ok p) :
    p ∈ panes ∧ (explicit[m.name]? = some p.paneId ∨
      explicit[m.name]? = none ∧ labelled panes tab m.name = [p]) := by
  unfold place at h
  split at h
  · rename_i id hid
    have hfind := okOr_ok.mp h
    have hp : p.paneId = id := by simpa using List.find?_some hfind
    exact ⟨List.mem_of_find?_eq_some hfind, .inl (by rw [hid, hp])⟩
  · rename_i hnone
    split at h
    · cases h
    · rename_i one hone
      cases h
      have hmem : p ∈ labelled panes tab m.name := by
        rw [hone]
        exact List.mem_singleton_self p
      exact ⟨(List.mem_filter.mp (List.mem_filter.mp hmem).1).1, .inr ⟨hnone, hone⟩⟩
    · cases h

theorem unshared_ok {ids : List String} {q : Placement} :
    unshared ids q = (m, .ok p) ↔ q = (m, .ok p) ∧ ids.count p.paneId ≤ 1 := by
  obtain ⟨m', placed⟩ := q
  cases placed with
  | error gap => simp [unshared]
  | ok pane =>
    simp only [unshared, Prod.mk.injEq]
    by_cases hcount : 1 < ids.count pane.paneId
    · rw [if_pos hcount]
      constructor
      · rintro ⟨-, h⟩
        cases h
      · rintro ⟨⟨rfl, h⟩, hle⟩
        cases h
        omega
    · rw [if_neg hcount]
      constructor
      · rintro ⟨rfl, h⟩
        cases h
        exact ⟨⟨rfl, rfl⟩, by omega⟩
      · rintro ⟨⟨rfl, h⟩, -⟩
        exact ⟨rfl, h⟩

/-- **A member is placed where it maps**, unless another one maps there. -/
theorem join_ok {placed : List Placement} (h : join roster panes explicit tab = .ok placed) :
    (m, .ok p) ∈ placed ↔ m ∈ roster ∧ place panes explicit tab m = .ok p ∧
      (taken (roster.map fun m => (m, place panes explicit tab m))).count p.paneId ≤ 1 := by
  unfold join at h
  split at h
  · cases h
  · cases h
    rw [List.mem_map]
    constructor
    · rintro ⟨q, hq, hshared⟩
      obtain ⟨rfl, hcount⟩ := unshared_ok.mp hshared
      obtain ⟨m', hm', heq⟩ := List.mem_map.mp hq
      obtain ⟨rfl, hplace⟩ := Prod.mk.inj heq
      exact ⟨hm', hplace, hcount⟩
    · rintro ⟨hm, hplace, hcount⟩
      exact ⟨(m, .ok p), List.mem_map.mpr ⟨m, hm, by rw [hplace]⟩, unshared_ok.mpr ⟨rfl, hcount⟩⟩

theorem taken_unshared_sublist (ids : List String) (out : List Placement) :
    (taken (out.map (unshared ids))).Sublist (taken out) := by
  induction out with
  | nil => exact List.Sublist.slnil
  | cons q out ih =>
    obtain ⟨m, placed⟩ := q
    cases placed with
    | error gap => exact ih
    | ok pane =>
      by_cases hcount : 1 < ids.count pane.paneId
      · have hgone : unshared ids (m, .ok pane) =
            (m, .error (.ambiguous (ids.count pane.paneId))) := by
          simp [unshared, hcount]
        rw [List.map_cons, hgone]
        exact ih.cons _
      · have hkept : unshared ids (m, .ok pane) = (m, .ok pane) := by
          simp [unshared, hcount]
        rw [List.map_cons, hkept]
        exact ih.cons_cons _

/-- **No pane id is given to two members.** -/
theorem join_nodup {placed : List Placement} (h : join roster panes explicit tab = .ok placed) :
    (taken placed).Nodup := by
  have hplaced := fun (m : Member) (p : Pane) => join_ok (m := m) (p := p) h
  unfold join at h
  split at h
  · cases h
  · cases h
    rw [List.nodup_iff_count_le_one]
    intro id
    by_cases hid : id ∈ taken ((roster.map fun m => (m, place panes explicit tab m)).map
        (unshared (taken (roster.map fun m => (m, place panes explicit tab m)))))
    · obtain ⟨⟨m, where_⟩, hmem, hsome⟩ := List.mem_filterMap.mp hid
      cases where_ with
      | error gap => cases hsome
      | ok p =>
        cases hsome
        -- the pane was kept, so nobody else mapped to it
        exact ((taken_unshared_sublist _ _).count_le _).trans ((hplaced m p).mp hmem).2.2
    · rw [List.count_eq_zero_of_not_mem hid]
      omega

theorem join_distinct {placed : List Placement} (h : join roster panes explicit tab = .ok placed)
    {m' : Member} {p' : Pane} (hm : (m, .ok p) ∈ placed) (hm' : (m', .ok p') ∈ placed)
    (hne : m ≠ m') : p.paneId ≠ p'.paneId := by
  have hpairwise := List.pairwise_filterMap.mp (join_nodup h)
  have hsymm : Std.Symm fun x y : Placement => ∀ a, x.2.toOption.map (·.paneId) = some a →
      ∀ b, y.2.toOption.map (·.paneId) = some b → a ≠ b :=
    ⟨fun x y hxy a ha b hb heq => hxy b hb a ha heq.symm⟩
  exact hpairwise.forall hm hm' (fun heq => hne (Prod.mk.inj heq).1) _ rfl _ rfl

end Herdr
