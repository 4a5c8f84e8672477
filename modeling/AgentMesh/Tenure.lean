/-
Exclusive tenure of a role, with successors.

A general library: claimants compete for roles.  The first claimant of a role
holds it; later ones wait; the holder gives the role up by a transfer to one
of those waiting, and only so.  A claimant that retires, or that a transfer
takes the role from, is out for good; a role keeps its last holder even when
that holder has retired.

* `Step.exclusive` — every step keeps the role held by at most one claimant,
  the one the register names;
* `Step.ended_stays` — retirement is final;
* `Step.activation` — a waiting claimant becomes active only by a transfer to
  it, which ends the claimant it replaces;
* `Exclusive.active_unique` — one active claimant per role.
-/
import AgentMesh.Runs

namespace Tenure

/-- Where a claimant stands. -/
inductive Phase where
  | active | pending | ended
  deriving DecidableEq

/-- Who claims which role, and who holds each role. -/
structure Register (R C : Type) where
  claims : C → Option (R × Phase)
  holder : R → Option C

section Exclusive

variable {R C : Type} {s : Register R C}

/-- The register names the one claimant that may be active in each role. -/
structure Exclusive (s : Register R C) : Prop where
  holder_claims : ∀ {r c}, s.holder r = some c → ∃ p, s.claims c = some (r, p) ∧ p ≠ .pending
  active_holds : ∀ {c r}, s.claims c = some (r, .active) → s.holder r = some c

theorem Exclusive.active_unique (h : Exclusive s) {a b : C} {r : R}
    (ha : s.claims a = some (r, .active)) (hb : s.claims b = some (r, .active)) : a = b := by
  have hra := h.active_holds ha
  rw [h.active_holds hb] at hra
  exact (Option.some.inj hra).symm

theorem Exclusive.not_holder (h : Exclusive s) {a : C} {r : R} {p : Phase}
    (ha : s.claims a = some (r, p)) (hn : s.holder r ≠ some a) : p = .pending ∨ p = .ended := by
  cases p with
  | active => exact absurd (h.active_holds ha) hn
  | pending => exact .inl rfl
  | ended => exact .inr rfl

end Exclusive

variable {R C : Type} [DecidableEq R] [DecidableEq C] {s s' : Register R C}

/-- One step of the register, by what it does to every claimant and every
role.  The label of a transfer is the pair (from, to); no other step has a
label. -/
inductive Step (s s' : Register R C) : Option (C × C) → Prop where
  /-- The first claimant of a role holds it. -/
  | first (c : C) (r : R) (fresh : s.claims c = none) (free : s.holder r = none)
      (claims : ∀ x, s'.claims x = if c = x then some (r, .active) else s.claims x)
      (holder : ∀ x, s'.holder x = if r = x then some c else s.holder x) : Step s s' none
  /-- Any later claimant waits. -/
  | wait (c : C) (r : R) (fresh : s.claims c = none)
      (claims : ∀ x, s'.claims x = if c = x then some (r, .pending) else s.claims x)
      (holder : ∀ x, s'.holder x = s.holder x) : Step s s' none
  | retire (c : C) (r : R) (p : Phase) (known : s.claims c = some (r, p))
      (claims : ∀ x, s'.claims x = if c = x then some (r, .ended) else s.claims x)
      (holder : ∀ x, s'.holder x = s.holder x) : Step s s' none
  | transfer (a b : C) (r : R) (p : Phase) (holds : s.holder r = some a)
      (old : s.claims a = some (r, p)) (new : s.claims b = some (r, .pending))
      (claims : ∀ x, s'.claims x = if b = x then some (r, .active) else
        if a = x then some (r, .ended) else s.claims x)
      (holder : ∀ x, s'.holder x = if r = x then some b else s.holder x) : Step s s' (some (a, b))
  | idle (claims : ∀ x, s'.claims x = s.claims x) (holder : ∀ x, s'.holder x = s.holder x) :
      Step s s' none

/-- **Every step keeps tenure exclusive.** -/
theorem Step.exclusive {l : Option (C × C)} (hs : Step s s' l) (h : Exclusive s) :
    Exclusive s' := by
  cases hs with
  | first c r fresh free claims holder =>
    refine ⟨fun {r' c'} hc' => ?_, fun {c' r'} hc' => ?_⟩
    · rw [holder] at hc'
      rw [claims]
      split at hc'
      · rename_i hr
        subst hr
        cases hc'
        exact ⟨.active, if_pos rfl, by decide⟩
      · obtain ⟨p, hp, hne⟩ := h.holder_claims hc'
        have hcc : c ≠ c' := fun he => by rw [he, hp] at fresh; cases fresh
        exact ⟨p, by rw [if_neg hcc, hp], hne⟩
    · rw [claims] at hc'
      rw [holder]
      split at hc'
      · rename_i hc
        subst hc
        cases hc'
        exact if_pos rfl
      · have hr := h.active_holds hc'
        have hrr : r ≠ r' := fun he => by rw [he, hr] at free; cases free
        rw [if_neg hrr, hr]
  | wait c r fresh claims holder =>
    refine ⟨fun {r' c'} hc' => ?_, fun {c' r'} hc' => ?_⟩
    · rw [holder] at hc'
      obtain ⟨p, hp, hne⟩ := h.holder_claims hc'
      have hcc : c ≠ c' := fun he => by rw [he, hp] at fresh; cases fresh
      exact ⟨p, by rw [claims, if_neg hcc, hp], hne⟩
    · rw [claims] at hc'
      rw [holder]
      split at hc'
      · cases hc'
      · exact h.active_holds hc'
  | retire c r p known claims holder =>
    refine ⟨fun {r' c'} hc' => ?_, fun {c' r'} hc' => ?_⟩
    · rw [holder] at hc'
      obtain ⟨q, hq, hne⟩ := h.holder_claims hc'
      rw [claims]
      split
      · rename_i hc
        rw [← hc, known] at hq
        cases hq
        exact ⟨.ended, rfl, by decide⟩
      · exact ⟨q, hq, hne⟩
    · rw [claims] at hc'
      rw [holder]
      split at hc'
      · cases hc'
      · exact h.active_holds hc'
  | transfer a b r p holds old new claims holder =>
    refine ⟨fun {r' c'} hc' => ?_, fun {c' r'} hc' => ?_⟩
    · rw [holder] at hc'
      rw [claims]
      split at hc'
      · rename_i hr
        subst hr
        cases hc'
        exact ⟨.active, if_pos rfl, by decide⟩
      · rename_i hr
        obtain ⟨q, hq, hne⟩ := h.holder_claims hc'
        -- the holder of another role is neither of the two claimants of `r`
        have hcb : b ≠ c' := fun he => by rw [← he, new] at hq; cases hq; exact hr rfl
        have hca : a ≠ c' := fun he => by rw [← he, old] at hq; cases hq; exact hr rfl
        exact ⟨q, by rw [if_neg hcb, if_neg hca, hq], hne⟩
    · rw [claims] at hc'
      rw [holder]
      split at hc'
      · rename_i hb
        subst hb
        cases hc'
        exact if_pos rfl
      · split at hc'
        · cases hc'
        · rename_i hca
          have hr := h.active_holds hc'
          have hrr : r ≠ r' := fun he => by
            rw [← he, holds] at hr
            exact hca (Option.some.inj hr)
          rw [if_neg hrr, hr]
  | idle claims holder =>
    refine ⟨fun {r' c'} hc' => ?_, fun {c' r'} hc' => ?_⟩
    · rw [claims]
      exact h.holder_claims (by rw [← holder, hc'])
    · rw [holder]
      exact h.active_holds (by rw [← claims, hc'])

/-- **Retirement is final.** -/
theorem Step.ended_stays {l : Option (C × C)} (hs : Step s s' l) {c : C} {r : R}
    (hc : s.claims c = some (r, .ended)) : s'.claims c = some (r, .ended) := by
  cases hs with
  | first c' r' fresh free claims holder =>
    have hne : c' ≠ c := fun he => by rw [he, hc] at fresh; cases fresh
    rw [claims, if_neg hne, hc]
  | wait c' r' fresh claims holder =>
    have hne : c' ≠ c := fun he => by rw [he, hc] at fresh; cases fresh
    rw [claims, if_neg hne, hc]
  | retire c' r' p known claims holder =>
    rw [claims]
    split
    · rename_i he
      rw [he, hc] at known
      cases known
      rfl
    · exact hc
  | transfer a b r' p holds old new claims holder =>
    have hne : b ≠ c := fun he => by rw [he, hc] at new; cases new
    rw [claims, if_neg hne]
    split
    · rename_i he
      rw [he, hc] at old
      cases old
      rfl
    · exact hc
  | idle claims holder => rw [claims, hc]

/-- **A waiting claimant becomes active only by a transfer to it**, and that
transfer ends the claimant it replaces. -/
theorem Step.activation {l : Option (C × C)} (hs : Step s s' l) (h : Exclusive s) {c : C}
    {r r' : R} (hc : s.claims c = some (r, .pending)) (hc' : s'.claims c = some (r', .active)) :
    ∃ a, l = some (a, c) ∧ s'.claims a = some (r, .ended) := by
  cases hs with
  | first b q fresh free claims holder =>
    have hne : b ≠ c := fun he => by rw [he, hc] at fresh; cases fresh
    rw [claims, if_neg hne, hc] at hc'
    cases hc'
  | wait b q fresh claims holder =>
    have hne : b ≠ c := fun he => by rw [he, hc] at fresh; cases fresh
    rw [claims, if_neg hne, hc] at hc'
    cases hc'
  | retire b q p known claims holder =>
    rw [claims] at hc'
    split at hc'
    · cases hc'
    · rw [hc] at hc'
      cases hc'
  | transfer a b q p holds old new claims holder =>
    rw [claims] at hc'
    split at hc'
    · rename_i he
      subst he
      rw [hc] at new
      cases new
      -- the one replaced holds the role, so it was not the one waiting
      obtain ⟨p', hp', hpend⟩ := h.holder_claims holds
      have hne : b ≠ a := fun he => by
        rw [← he, hc] at hp'
        cases hp'
        exact hpend rfl
      exact ⟨a, rfl, by rw [claims, if_neg hne, if_pos rfl]⟩
    · split at hc'
      · cases hc'
      · rw [hc] at hc'
        cases hc'
  | idle claims holder =>
    rw [claims, hc] at hc'
    cases hc'

end Tenure
