/-
The bound on a native fence.

A fence is projected, axis by axis, into what it permits: some concrete items
and some named classes, everything, or something nobody could resolve.  It is
admitted if on each confinement axis it permits no more than the delegated
caveats and the runtime closure together.

What a resolved scope is for: a set of permitted items, a concrete item and a
class of the same name being different items.  The comparison of two scopes,
made dimension by dimension with cases for the two extremes, is the comparison
of those sets, and an unresolved scope compares with nothing.

* `relate_iff` — the five-way comparison tells how the two sets stand;
* `stays_iff` — one axis is passed exactly when the fence's set is contained;
* `admission_is_containment` — the decision over the four axes, and the axis
  a rejection names.
-/
import AgentMesh.Attenuation

namespace Provenance

/-! ### Scopes, and how they compare -/

/-- What a native fence actually permits on one axis. -/
inductive ResolvedScope where
  /-- Concrete items, and named classes it permits but cannot enumerate. -/
  | bounded (concrete classes : Finset String)
  /-- No restriction on this axis. -/
  | unbounded
  /-- Could not be resolved: any comparison with it is unknown. -/
  | unknown
  deriving DecidableEq

namespace ResolvedScope

/-- Permits nothing: the identity of `union`. -/
def empty : ResolvedScope := .bounded ∅ ∅

def fromScope : Scope String → ResolvedScope
  | .all => .unbounded
  | .only set => .bounded set ∅

/-- The bound when the delegated grant is combined with the closure. -/
def union : ResolvedScope → ResolvedScope → ResolvedScope
  | .unknown, _ => .unknown
  | _, .unknown => .unknown
  | .unbounded, _ => .unbounded
  | _, .unbounded => .unbounded
  | .bounded ca la, .bounded cb lb => .bounded (ca ∪ cb) (la ∪ lb)

end ResolvedScope

/-- How a resolved scope stands relative to its bound. -/
inductive ScopeRelation where
  | equal
  | subset
  | superset
  | incomparable
  | unknown
  deriving DecidableEq, Repr

/-- Relate a resolved fence scope to the bound it must stay within. -/
def relate : ResolvedScope → ResolvedScope → ScopeRelation
  | .unknown, _ => .unknown
  | _, .unknown => .unknown
  | .unbounded, .unbounded => .equal
  -- the fence permits everything and the bound does not: a widening
  | .unbounded, _ => .superset
  | _, .unbounded => .subset
  | .bounded ca la, .bounded cb lb =>
    if ca = cb ∧ la = lb then .equal
    else if ca ⊆ cb ∧ la ⊆ lb then .subset
    else if cb ⊆ ca ∧ lb ⊆ la then .superset
    else .incomparable

/-! ### The decision -/

inductive ConfinedAxis where
  | fsRead
  | fsWrite
  | exec
  | net
  deriving DecidableEq, Repr

structure ResolvedAuthority where
  fsRead : ResolvedScope
  fsWrite : ResolvedScope
  exec : ResolvedScope
  net : ResolvedScope
  deriving DecidableEq

namespace ResolvedAuthority

def axes (a : ResolvedAuthority) : List (ConfinedAxis × ResolvedScope) :=
  [(.fsRead, a.fsRead), (.fsWrite, a.fsWrite), (.exec, a.exec), (.net, a.net)]

def axis (a : ResolvedAuthority) : ConfinedAxis → ResolvedScope
  | .fsRead => a.fsRead
  | .fsWrite => a.fsWrite
  | .exec => a.exec
  | .net => a.net

/-- The bound the grant alone authorizes. -/
def fromDelegated (c : Caveats) : ResolvedAuthority where
  fsRead := .fromScope c.fsRead
  fsWrite := .fromScope c.fsWrite
  exec := .fromScope c.exec
  net := .fromScope c.net

end ResolvedAuthority

/-- The axis whose fence exceeded its bound, and how. -/
structure AdmissionReject where
  axis : ConfinedAxis
  relation : ScopeRelation
  deriving DecidableEq, Repr

inductive AdmissionDecision where
  | admits
  | reject (r : AdmissionReject)
  deriving DecidableEq, Repr

/-- The loop over the axes: the first one not within its bound is reported. -/
def admitAxes (delegated closure : ResolvedAuthority) :
    List (ConfinedAxis × ResolvedScope) → AdmissionDecision
  | [] => .admits
  | (axis, fence) :: rest =>
    match relate fence ((delegated.axis axis).union (closure.axis axis)) with
    | .equal => admitAxes delegated closure rest
    | .subset => admitAxes delegated closure rest
    | relation => .reject ⟨axis, relation⟩

/-- The admission decision: on every axis the fence must stay within what was
delegated and what the closure adds. -/
def admitFence (resolved : ResolvedAuthority) (delegated : Caveats)
    (closure : ResolvedAuthority) : AdmissionDecision :=
  admitAxes (.fromDelegated delegated) closure resolved.axes

/-- A closure that adds nothing. -/
def emptyClosure : ResolvedAuthority where
  fsRead := .empty
  fsWrite := .empty
  exec := .empty
  net := .empty

/-! ### What a scope permits -/

/-- What a fence can permit: a concrete item, or a class. -/
abbrev Item := String ⊕ String

/-- The items a resolved scope permits, if it is resolved. -/
def ResolvedScope.permits : ResolvedScope → Option (Set Item)
  | .bounded concrete classes => some ↑(concrete.disjSum classes)
  | .unbounded => some Set.univ
  | .unknown => none

/-- The items a delegated scope permits: it names concrete items only. -/
def delegatedItems : Scope String → Set Item
  | .all => Set.univ
  | .only set => Sum.inl '' (set : Set String)

namespace ScopeRelation

/-- How two sets stand. -/
def Between {α : Type} (A B : Set α) : ScopeRelation → Prop
  | .equal => A = B
  | .subset => A ⊂ B
  | .superset => B ⊂ A
  | .incomparable => ¬A ⊆ B ∧ ¬B ⊆ A
  | .unknown => False

/-- How two sets stand, either of which may not be known. -/
def Stands {α : Type} (r : ScopeRelation) : Option (Set α) → Option (Set α) → Prop
  | some A, some B => r.Between A B
  | _, _ => r = .unknown

theorem Between.unique {α : Type} {A B : Set α} {r r' : ScopeRelation} (h : r.Between A B)
    (h' : r'.Between A B) : r = r' := by
  -- which of the two inclusions hold is read off each relation
  have hle : ∀ {q : ScopeRelation}, q.Between A B →
      (A ⊆ B ↔ q = .equal ∨ q = .subset) ∧ (B ⊆ A ↔ q = .equal ∨ q = .superset) ∧
        q ≠ .unknown := by
    intro q hq
    cases q with
    | equal =>
      have he : A = B := hq
      simp [he]
    | subset => exact ⟨by simp [hq.subset], by simp [hq.not_subset], by simp⟩
    | superset =>
      have hs : B ⊂ A := hq
      exact ⟨by simp [hs.not_subset], by simp [hs.subset], by simp⟩
    | incomparable => exact ⟨by simp [hq.1], by simp [hq.2], by simp⟩
    | unknown => exact hq.elim
  obtain ⟨ha, hb, hr⟩ := hle h
  obtain ⟨ha', hb', hr'⟩ := hle h'
  have hsub : (r = .equal ∨ r = .subset) ↔ (r' = .equal ∨ r' = .subset) := ha.symm.trans ha'
  have hsup : (r = .equal ∨ r = .superset) ↔ (r' = .equal ∨ r' = .superset) := hb.symm.trans hb'
  clear h h' ha hb ha' hb' hle
  cases r <;> cases r' <;> simp at hsub hsup hr hr' ⊢

end ScopeRelation

theorem disjSum_ssubset_univ (concrete classes : Finset String) :
    (↑(concrete.disjSum classes) : Set Item) ⊂ Set.univ := by
  refine Set.ssubset_univ_iff.mpr fun h => ?_
  have hfin : (Set.univ : Set Item).Finite := h ▸ (concrete.disjSum classes).finite_toSet
  exact Set.infinite_univ hfin

theorem disjSum_subset_iff {ca la cb lb : Finset String} :
    (↑(ca.disjSum la) : Set Item) ⊆ ↑(cb.disjSum lb) ↔ ca ⊆ cb ∧ la ⊆ lb := by
  rw [Finset.coe_subset]
  constructor
  · intro h
    exact ⟨fun x hx => Finset.inl_mem_disjSum.mp (h (Finset.inl_mem_disjSum.mpr hx)),
      fun x hx => Finset.inr_mem_disjSum.mp (h (Finset.inr_mem_disjSum.mpr hx))⟩
  · rintro ⟨hc, hl⟩
    exact Finset.disjSum_mono hc hl

theorem relate_bounded (ca la cb lb : Finset String) :
    (relate (.bounded ca la) (.bounded cb lb)).Between
      (↑(ca.disjSum la) : Set Item) ↑(cb.disjSum lb) := by
  simp only [relate]
  split
  · rename_i h
    obtain ⟨rfl, rfl⟩ := h
    exact rfl
  · rename_i hne
    have hproper : ¬((ca ⊆ cb ∧ la ⊆ lb) ∧ (cb ⊆ ca ∧ lb ⊆ la)) := by
      rintro ⟨⟨h1, h2⟩, h3, h4⟩
      exact hne ⟨h1.antisymm h3, h2.antisymm h4⟩
    split
    · rename_i h
      refine ⟨disjSum_subset_iff.mpr h, fun hback => hproper ⟨h, ?_⟩⟩
      exact disjSum_subset_iff.mp hback
    · rename_i hsub
      split
      · rename_i h
        refine ⟨disjSum_subset_iff.mpr h, fun hback => hsub ?_⟩
        exact disjSum_subset_iff.mp hback
      · rename_i hsup
        exact ⟨fun h => hsub (disjSum_subset_iff.mp h), fun h => hsup (disjSum_subset_iff.mp h)⟩

theorem relate_stands (a b : ResolvedScope) : (relate a b).Stands a.permits b.permits := by
  cases a with
  | unknown => exact rfl
  | unbounded =>
    cases b with
    | unknown => exact rfl
    | unbounded => exact rfl
    | bounded cb lb => exact disjSum_ssubset_univ cb lb
  | bounded ca la =>
    cases b with
    | unknown => exact rfl
    | unbounded => exact disjSum_ssubset_univ ca la
    | bounded cb lb => exact relate_bounded ca la cb lb

/-- **The comparison of two scopes is the comparison of what they permit.** -/
theorem relate_iff {a b : ResolvedScope} {r : ScopeRelation} :
    relate a b = r ↔ r.Stands a.permits b.permits := by
  have hstands := relate_stands a b
  refine ⟨fun h => h ▸ hstands, fun h => ?_⟩
  cases ha : a.permits with
  | none =>
    rw [ha] at h hstands
    exact hstands.trans h.symm
  | some A =>
    cases hb : b.permits with
    | none =>
      rw [ha, hb] at h hstands
      exact hstands.trans h.symm
    | some B =>
      rw [ha, hb] at h hstands
      exact hstands.unique h

/-! ### One axis -/

theorem permits_fromScope (s : Scope String) :
    (ResolvedScope.fromScope s).permits = some (delegatedItems s) := by
  cases s with
  | all => rfl
  | only set =>
    refine congrArg some (Set.ext fun x => ?_)
    cases x with
    | inl x => simp [delegatedItems]
    | inr x => simp [delegatedItems]

theorem permits_union (a b : ResolvedScope) :
    (a.union b).permits = Option.map₂ (· ∪ ·) a.permits b.permits := by
  cases a with
  | unknown => rfl
  | unbounded => cases b <;> simp [ResolvedScope.union, ResolvedScope.permits]
  | bounded ca la =>
    cases b with
    | unknown => rfl
    | unbounded => simp [ResolvedScope.union, ResolvedScope.permits]
    | bounded cb lb =>
      refine congrArg some (Set.ext fun x => ?_)
      cases x with
      | inl x => simp
      | inr x => simp

theorem delegatedItems_mono {s s' : Scope String} (h : s.leq s' = true) :
    delegatedItems s ⊆ delegatedItems s' := by
  cases s' with
  | all => exact Set.subset_univ _
  | only b =>
    cases s with
    | all => cases h
    | only a =>
      have hsub : a ⊆ b := of_decide_eq_true h
      exact Set.image_mono (Finset.coe_subset.mpr hsub)

/-- The fence and the closure are resolved, and the fence permits nothing but
what is delegated or what the closure adds. -/
def Within (fence : ResolvedScope) (delegated : Set Item) (closure : ResolvedScope) : Prop :=
  ∃ F C, fence.permits = some F ∧ closure.permits = some C ∧ F ⊆ delegated ∪ C

theorem Within.mono {fence closure : ResolvedScope} {D D' : Set Item} (h : Within fence D closure)
    (hD : D ⊆ D') : Within fence D' closure := by
  obtain ⟨F, C, hF, hC, hsub⟩ := h
  exact ⟨F, C, hF, hC, hsub.trans (Set.union_subset_union_left C hD)⟩

/-- The two relations that let the loop go on. -/
def ScopeRelation.Passes (r : ScopeRelation) : Prop := r = .equal ∨ r = .subset

/-- **An axis is passed exactly when the fence's set is contained.** -/
theorem stays_iff {fence closure : ResolvedScope} {s : Scope String} :
    (relate fence ((ResolvedScope.fromScope s).union closure)).Passes ↔
      Within fence (delegatedItems s) closure := by
  have hbound : ((ResolvedScope.fromScope s).union closure).permits =
      closure.permits.map (delegatedItems s ∪ ·) := by
    rw [permits_union, permits_fromScope]
    cases closure.permits <;> rfl
  rw [ScopeRelation.Passes, relate_iff, relate_iff, hbound, Within]
  cases hF : fence.permits with
  | none => simp [ScopeRelation.Stands]
  | some F =>
    cases hC : closure.permits with
    | none => simp [ScopeRelation.Stands]
    | some C =>
      have hle : F = delegatedItems s ∪ C ∨ F ⊂ delegatedItems s ∪ C ↔
          F ⊆ delegatedItems s ∪ C := by
        rw [or_comm]
        exact le_iff_lt_or_eq.symm
      simpa [ScopeRelation.Stands, ScopeRelation.Between] using hle

/-! ### The four axes -/

section Loop

variable {delegated closure : ResolvedAuthority}

/-- The fence scope of one axis stays within its bound. -/
def Stays (delegated closure : ResolvedAuthority) (p : ConfinedAxis × ResolvedScope) : Prop :=
  (relate p.2 ((delegated.axis p.1).union (closure.axis p.1))).Passes

theorem admitAxes_cons (delegated closure : ResolvedAuthority) (p : ConfinedAxis × ResolvedScope)
    (rest : List (ConfinedAxis × ResolvedScope)) :
    (Stays delegated closure p ∧
        admitAxes delegated closure (p :: rest) = admitAxes delegated closure rest) ∨
      (¬Stays delegated closure p ∧ admitAxes delegated closure (p :: rest) =
        .reject ⟨p.1, relate p.2 ((delegated.axis p.1).union (closure.axis p.1))⟩) := by
  obtain ⟨axis, fence⟩ := p
  simp only [Stays, ScopeRelation.Passes, admitAxes]
  cases relate fence ((delegated.axis axis).union (closure.axis axis)) <;> simp

theorem admitAxes_admits {axes : List (ConfinedAxis × ResolvedScope)} :
    admitAxes delegated closure axes = .admits ↔ ∀ p ∈ axes, Stays delegated closure p := by
  induction axes with
  | nil => simp [admitAxes]
  | cons p rest ih =>
    rw [List.forall_mem_cons, ← ih]
    obtain ⟨hp, he⟩ | ⟨hp, he⟩ := admitAxes_cons delegated closure p rest
    · rw [he]
      exact (and_iff_right hp).symm
    · rw [he]
      exact ⟨fun h => (nomatch h), fun h => absurd h.1 hp⟩

theorem admitAxes_reject {axes : List (ConfinedAxis × ResolvedScope)} {r : AdmissionReject} :
    admitAxes delegated closure axes = .reject r ↔
      ∃ passed p rest, axes = passed ++ p :: rest ∧ (∀ q ∈ passed, Stays delegated closure q) ∧
        ¬Stays delegated closure p ∧
        r = ⟨p.1, relate p.2 ((delegated.axis p.1).union (closure.axis p.1))⟩ := by
  induction axes with
  | nil => simp [admitAxes]
  | cons p rest ih =>
    obtain ⟨hp, he⟩ | ⟨hp, he⟩ := admitAxes_cons delegated closure p rest
    · rw [he, ih]
      constructor
      · rintro ⟨passed, q, tail, rfl, hpassed, hq, hr⟩
        exact ⟨p :: passed, q, tail, rfl, List.forall_mem_cons.mpr ⟨hp, hpassed⟩, hq, hr⟩
      · rintro ⟨passed, q, tail, hsplit, hpassed, hq, hr⟩
        cases passed with
        | nil =>
          cases hsplit
          exact absurd hp hq
        | cons p' passed =>
          cases hsplit
          exact ⟨passed, q, tail, rfl, (List.forall_mem_cons.mp hpassed).2, hq, hr⟩
    · rw [he, AdmissionDecision.reject.injEq]
      constructor
      · intro hr
        exact ⟨[], p, rest, rfl, fun q hq => (nomatch hq), hp, hr.symm⟩
      · rintro ⟨passed, q, tail, hsplit, hpassed, hq, hr⟩
        cases passed with
        | nil =>
          cases hsplit
          exact hr.symm
        | cons p' passed =>
          cases hsplit
          exact absurd (hpassed p List.mem_cons_self) hp

end Loop

def delegatedAxis (c : Caveats) : ConfinedAxis → Scope String
  | .fsRead => c.fsRead
  | .fsWrite => c.fsWrite
  | .exec => c.exec
  | .net => c.net

theorem delegatedAxis_leq {c c' : Caveats} (h : c.leq c' = true) (axis : ConfinedAxis) :
    (delegatedAxis c axis).leq (delegatedAxis c' axis) = true := by
  simp only [Caveats.leq, Bool.and_eq_true, and_assoc] at h
  obtain ⟨hread, hwrite, hexec, hnet, -⟩ := h
  cases axis with
  | fsRead => exact hread
  | fsWrite => exact hwrite
  | exec => exact hexec
  | net => exact hnet

def ConfinedAxis.order : List ConfinedAxis := [.fsRead, .fsWrite, .exec, .net]

theorem ConfinedAxis.mem_order (a : ConfinedAxis) : a ∈ ConfinedAxis.order := by
  cases a <;> simp [ConfinedAxis.order]

theorem ResolvedAuthority.axes_eq (a : ResolvedAuthority) :
    a.axes = ConfinedAxis.order.map fun axis => (axis, a.axis axis) := rfl

theorem axis_fromDelegated (c : Caveats) (axis : ConfinedAxis) :
    (ResolvedAuthority.fromDelegated c).axis axis = .fromScope (delegatedAxis c axis) := by
  cases axis <;> rfl

theorem stays_fromDelegated {fence closure : ResolvedAuthority} {c : Caveats}
    {axis : ConfinedAxis} :
    Stays (.fromDelegated c) closure (axis, fence.axis axis) ↔
      Within (fence.axis axis) (delegatedItems (delegatedAxis c axis)) (closure.axis axis) := by
  rw [Stays, axis_fromDelegated]
  exact stays_iff

theorem admitFence_admits {fence closure : ResolvedAuthority} {c : Caveats} :
    admitFence fence c closure = .admits ↔ ∀ axis,
      Within (fence.axis axis) (delegatedItems (delegatedAxis c axis)) (closure.axis axis) := by
  rw [admitFence, admitAxes_admits, ResolvedAuthority.axes_eq, List.forall_mem_map]
  refine ⟨fun h axis => ?_, fun h axis _ => stays_fromDelegated.mpr (h axis)⟩
  exact stays_fromDelegated.mp (h axis axis.mem_order)

/-- **Admission is set containment, failing closed.**  A fence is admitted
exactly when on every axis it and the closure are resolved and it permits
nothing beyond the delegated scope and the closure; a rejection names the first
axis, in the fixed order, where that fails; and scopes compare as the sets of
items they permit. -/
theorem admission_is_containment (fence : ResolvedAuthority) (c : Caveats)
    (closure : ResolvedAuthority) :
    (admitFence fence c closure = .admits ↔ ∀ axis,
      Within (fence.axis axis) (delegatedItems (delegatedAxis c axis)) (closure.axis axis)) ∧
    (∀ axis relation, admitFence fence c closure = .reject ⟨axis, relation⟩ ↔
      (∃ passed rest, [.fsRead, .fsWrite, .exec, .net] = passed ++ axis :: rest ∧
        ∀ before ∈ passed, Within (fence.axis before)
          (delegatedItems (delegatedAxis c before)) (closure.axis before)) ∧
      ¬Within (fence.axis axis) (delegatedItems (delegatedAxis c axis)) (closure.axis axis) ∧
      relation = relate (fence.axis axis)
        ((ResolvedScope.fromScope (delegatedAxis c axis)).union (closure.axis axis))) ∧
    ∀ (a b : ResolvedScope) (r : ScopeRelation),
      relate a b = r ↔ r.Stands a.permits b.permits := by
  refine ⟨admitFence_admits, fun axis relation => ?_, fun a b r => relate_iff⟩
  rw [admitFence, admitAxes_reject, ResolvedAuthority.axes_eq]
  constructor
  · rintro ⟨passed, p, rest, hsplit, hpassed, hp, hr⟩
    obtain ⟨before, after, horder, rfl, hafter⟩ := List.map_eq_append_iff.mp hsplit
    obtain ⟨a, tail, rfl, rfl, rfl⟩ := List.map_eq_cons_iff.mp hafter
    obtain ⟨rfl, rfl⟩ := AdmissionReject.mk.inj hr
    refine ⟨⟨before, tail, horder, fun b hb => ?_⟩, ?_, ?_⟩
    · exact stays_fromDelegated.mp (hpassed _ (List.mem_map_of_mem hb))
    · exact fun h => hp (stays_fromDelegated.mpr h)
    · rw [axis_fromDelegated]
  · rintro ⟨⟨before, tail, horder, hbefore⟩, hfail, rfl⟩
    refine ⟨before.map fun a => (a, fence.axis a), (axis, fence.axis axis),
      tail.map fun a => (a, fence.axis a), ?_, ?_, ?_, ?_⟩
    · rw [ConfinedAxis.order, horder, List.map_append, List.map_cons]
    · rw [List.forall_mem_map]
      exact fun a ha => stays_fromDelegated.mpr (hbefore a ha)
    · exact fun h => hfail (stays_fromDelegated.mp h)
    · rw [axis_fromDelegated]

/-- A class is no concrete item: a fence that permits the class `lo` is not
within a grant of the host `lo`, and the rejection names `net`. -/
example :
    admitFence { emptyClosure with net := .bounded ∅ {"lo"} }
      { Caveats.top with net := .only {"lo"} } emptyClosure =
      .reject ⟨.net, .incomparable⟩ := by
  decide

end Provenance
