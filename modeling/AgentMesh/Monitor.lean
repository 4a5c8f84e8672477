/-
Condition variables.

A general library: a system goes on by itself, and threads wait until a test of
what a mutex guards comes out.  A waiter holds the mutex from its test to its
wait, so that test and sleep are one turn.  The system counts the announcements
its steps are to make, but each is made only some time after: in between, waiters
may test and go to sleep.  A sleeper may also wake for no reason.

* `Monitor.Awake` — who sleeps has nothing to wake for, unless an announcement
  is owed; `Monitor.Awake.run` over every interleaving;
* `Monitor.Answered.run` — what a waiter returned stays true, if the system keeps
  it so;
* `Monitor.delivered` — once what is owed was announced, a waiter whose test
  comes out returns at its next turn.
-/
import Mathlib.Data.List.Basic

namespace Monitors

variable {S A σ ρ : Type}

inductive Waiting (ρ : Type) where
  /-- About to test. -/
  | ready
  | asleep
  | returned (r : ρ)

structure Wait (σ ρ : Type) where
  test : σ → Option ρ
  state : Waiting ρ

/-- A system, the announcements it owes, and who waits. -/
structure Monitor (S σ ρ : Type) where
  system : S
  owed : ℕ
  waits : List (Wait σ ρ)

inductive Turn (A σ ρ : Type) where
  /-- The system goes on. -/
  | act (a : A)
  /-- Somebody announces a change: every sleeper wakes. -/
  | announce
  /-- A thread starts to wait. -/
  | join (test : σ → Option ρ)
  /-- A waiter tests, and returns or sleeps. -/
  | look (i : ℕ)
  /-- A sleeper wakes for no reason. -/
  | stir (i : ℕ)

def Wait.wake (w : Wait σ ρ) : Wait σ ρ :=
  match w.state with
  | .asleep => { w with state := .ready }
  | _ => w

def Wait.look (w : Wait σ ρ) (v : σ) : Wait σ ρ :=
  match w.state with
  | .ready =>
    match w.test v with
    | some r => { w with state := .returned r }
    | none => { w with state := .asleep }
  | _ => w

namespace Monitor

variable (step : S → A → S) (view : S → σ) (due : S → ℕ)

/-- One turn.  `due` is how many announcements the system was to make so far. -/
def turn (m : Monitor S σ ρ) : Turn A σ ρ → Monitor S σ ρ
  | .act a =>
    { m with
      system := step m.system a
      owed := m.owed + (due (step m.system a) - due m.system) }
  | .announce => { m with owed := m.owed - 1, waits := m.waits.map Wait.wake }
  | .join test => { m with waits := m.waits ++ [⟨test, .ready⟩] }
  | .look i => { m with waits := m.waits.modify i fun w => w.look (view m.system) }
  | .stir i => { m with waits := m.waits.modify i Wait.wake }

def run (m : Monitor S σ ρ) (turns : List (Turn A σ ρ)) : Monitor S σ ρ :=
  turns.foldl (turn step view due) m

theorem run_append (m : Monitor S σ ρ) (turns turns' : List (Turn A σ ρ)) :
    m.run step view due (turns ++ turns') =
      (m.run step view due turns).run step view due turns' :=
  List.foldl_append

theorem run_acts (m : Monitor S σ ρ) (acts : List A) :
    (m.run step view due (acts.map Turn.act)).waits = m.waits ∧
      (m.run step view due (acts.map Turn.act)).system = acts.foldl step m.system := by
  induction acts generalizing m with
  | nil => exact ⟨rfl, rfl⟩
  | cons a acts ih => exact ih (m.turn step view due (.act a))

/-- A thread that tests in vain sleeps while the system goes on. -/
theorem run_asleep (s : S) {test : σ → Option ρ} (h : test (view s) = none) (acts : List A) :
    let m := run step view due ⟨s, 0, []⟩ ([.join test, .look 0] ++ acts.map Turn.act)
    m.waits[0]? = some ⟨test, .asleep⟩ ∧ m.system = acts.foldl step s := by
  have hlook : Wait.look ⟨test, .ready⟩ (view s) = ⟨test, .asleep⟩ := by simp only [Wait.look, h]
  obtain ⟨hwaits, hsystem⟩ :=
    run_acts step view due ⟨s, 0, [Wait.look ⟨test, .ready⟩ (view s)]⟩ acts
  intro m
  have hwaits' : m.waits = [Wait.look ⟨test, .ready⟩ (view s)] := hwaits
  rw [hwaits', hlook]
  exact ⟨rfl, hsystem⟩

end Monitor

/-! ### Waiters -/

theorem Wait.wake_test (w : Wait σ ρ) : w.wake.test = w.test := by
  unfold Wait.wake
  split <;> rfl

theorem Wait.wake_state (w : Wait σ ρ) : w.wake.state ≠ .asleep := by
  unfold Wait.wake
  split
  · intro h
    cases h
  · assumption

theorem Wait.wake_returned {w : Wait σ ρ} {r : ρ} (h : w.wake.state = .returned r) :
    w.state = .returned r := by
  unfold Wait.wake at h
  split at h
  · cases h
  · exact h

theorem Wait.wake_of_ready {w : Wait σ ρ} (h : w.state = .ready) : w.wake = w := by
  unfold Wait.wake
  split
  · rename_i hasleep
    rw [h] at hasleep
    cases hasleep
  · rfl

theorem Wait.look_test (w : Wait σ ρ) (v : σ) : (w.look v).test = w.test := by
  unfold Wait.look
  split
  · split <;> rfl
  · rfl

theorem Wait.look_asleep {w : Wait σ ρ} {v : σ} (h : (w.look v).state = .asleep) :
    w.state = .asleep ∨ w.test v = none := by
  unfold Wait.look at h
  split at h
  · split at h
    · cases h
    · rename_i hnone
      exact .inr hnone
  · exact .inl h

theorem Wait.look_returned {w : Wait σ ρ} {v : σ} {r : ρ} (h : (w.look v).state = .returned r) :
    w.state = .returned r ∨ w.test v = some r := by
  unfold Wait.look at h
  split at h
  · split at h
    · rename_i hsome
      cases h
      exact .inr hsome
    · cases h
  · exact .inl h

theorem mem_modify {α : Type} {l : List α} {i : ℕ} {f : α → α} {b : α} (h : b ∈ l.modify i f) :
    b ∈ l ∨ ∃ a ∈ l, b = f a := by
  obtain ⟨j, hj⟩ := List.getElem?_of_mem h
  rw [List.getElem?_modify] at hj
  obtain ⟨a, ha, hb⟩ := Option.map_eq_some_iff.mp hj
  have hmem := List.mem_of_getElem? ha
  by_cases hij : i = j
  · rw [if_pos hij] at hb
    exact .inr ⟨a, hmem, hb.symm⟩
  · rw [if_neg hij] at hb
    exact .inl (hb ▸ hmem)

namespace Monitor

variable {step : S → A → S} {view : S → σ} {due : S → ℕ} {m : Monitor S σ ρ}

/-! ### Nobody sleeps through a change -/

/-- A test that does not come out by a step that is to announce nothing. -/
def Heeds (step : S → A → S) (view : S → σ) (due : S → ℕ) (test : σ → Option ρ) : Prop :=
  ∀ s a, due (step s a) ≤ due s → test (view s) = none → test (view (step s a)) = none

/-- **Who sleeps has nothing to wake for**, unless an announcement is owed. -/
def Awake (step : S → A → S) (view : S → σ) (due : S → ℕ) (m : Monitor S σ ρ) : Prop :=
  m.owed = 0 → ∀ w ∈ m.waits, Heeds step view due w.test → w.state = .asleep →
    w.test (view m.system) = none

theorem Awake.turn (h : m.Awake step view due) (t : Turn A σ ρ) :
    (m.turn step view due t).Awake step view due := by
  cases t with
  | act a =>
    intro howed w hw hheeds hasleep
    have howed' : m.owed + (due (step m.system a) - due m.system) = 0 := howed
    exact hheeds _ a (by omega) (h (by omega) w hw hheeds hasleep)
  | announce =>
    intro howed w hw _ hasleep
    obtain ⟨w', -, rfl⟩ := List.mem_map.mp hw
    exact absurd hasleep w'.wake_state
  | join test =>
    intro howed w hw hheeds hasleep
    rcases List.mem_append.mp hw with hw | hw
    · exact h howed w hw hheeds hasleep
    · rw [List.mem_singleton.mp hw] at hasleep
      cases hasleep
  | look i =>
    intro howed w hw hheeds hasleep
    rcases mem_modify hw with hw | ⟨w', hw', rfl⟩
    · exact h howed w hw hheeds hasleep
    · rw [Wait.look_test] at hheeds ⊢
      rcases Wait.look_asleep hasleep with hslept | hvain
      · exact h howed w' hw' hheeds hslept
      · exact hvain
  | stir i =>
    intro howed w hw hheeds hasleep
    rcases mem_modify hw with hw | ⟨w', -, rfl⟩
    · exact h howed w hw hheeds hasleep
    · exact absurd hasleep w'.wake_state

theorem Awake.run (h : m.Awake step view due) (turns : List (Turn A σ ρ)) :
    (m.run step view due turns).Awake step view due := by
  induction turns generalizing m with
  | nil => exact h
  | cons t turns ih => exact ih (h.turn t)

/-! ### What waiters return -/

/-- What the waiters returned is still so, by `K`. -/
def Answered (K : (σ → Option ρ) → ρ → S → Prop) (m : Monitor S σ ρ) : Prop :=
  ∀ w ∈ m.waits, ∀ r, w.state = .returned r → K w.test r m.system

theorem run_system {I : S → Prop} (hI : ∀ s a, I s → I (step s a)) (h : I m.system)
    (turns : List (Turn A σ ρ)) : I (m.run step view due turns).system := by
  induction turns generalizing m with
  | nil => exact h
  | cons t turns ih =>
    refine ih ?_
    cases t with
    | act a => exact hI _ a h
    | announce | join | look | stir => exact h

/-- **What a test said stays true**, if the system keeps it so while `I` holds. -/
theorem Answered.run {I : S → Prop} (hI : ∀ s a, I s → I (step s a))
    {K : (σ → Option ρ) → ρ → S → Prop}
    (hlook : ∀ test r s, I s → test (view s) = some r → K test r s)
    (hstep : ∀ test r s a, I s → K test r s → K test r (step s a)) (hm : I m.system)
    (h : m.Answered K) (turns : List (Turn A σ ρ)) : (m.run step view due turns).Answered K := by
  induction turns generalizing m with
  | nil => exact h
  | cons t turns ih =>
    refine ih (run_system hI hm [t]) ?_
    cases t with
    | act a => exact fun w hw r hr => hstep _ _ _ _ hm (h w hw r hr)
    | announce =>
      intro w hw r hr
      obtain ⟨w', hw', rfl⟩ := List.mem_map.mp hw
      rw [Wait.wake_test]
      exact h w' hw' r (Wait.wake_returned hr)
    | join test =>
      intro w hw r hr
      rcases List.mem_append.mp hw with hw | hw
      · exact h w hw r hr
      · rw [List.mem_singleton.mp hw] at hr
        cases hr
    | look i =>
      intro w hw r hr
      rcases mem_modify hw with hw | ⟨w', hw', rfl⟩
      · exact h w hw r hr
      · rw [Wait.look_test]
        rcases Wait.look_returned hr with hbefore | hnow
        · exact h w' hw' r hbefore
        · exact hlook _ _ _ hm hnow
    | stir i =>
      intro w hw r hr
      rcases mem_modify hw with hw | ⟨w', hw', rfl⟩
      · exact h w hw r hr
      · rw [Wait.wake_test]
        exact h w' hw' r (Wait.wake_returned hr)

/-! ### Announcements are enough -/

/-- Announcements leave the system, and wake who sleeps. -/
theorem run_announce (m : Monitor S σ ρ) (n : ℕ) :
    m.run step view due (List.replicate n Turn.announce) =
      { m with
        owed := m.owed - n
        waits := if n = 0 then m.waits else m.waits.map Wait.wake } := by
  induction n generalizing m with
  | zero => rfl
  | succ n ih =>
    have hwake : ∀ l : List (Wait σ ρ), (l.map Wait.wake).map Wait.wake = l.map Wait.wake := by
      intro l
      rw [List.map_map]
      refine List.map_congr_left fun w _ => ?_
      show w.wake.wake = w.wake
      cases hstate : w.wake.state with
      | ready => exact Wait.wake_of_ready hstate
      | asleep => exact absurd hstate w.wake_state
      | returned r => rw [Wait.wake, hstate]
    show (m.turn step view due .announce).run step view due (List.replicate n .announce) = _
    rw [ih]
    simp only [turn, hwake, ite_self, Nat.add_one_ne_zero, if_false, Nat.sub_sub, Nat.add_comm 1 n]

/-- **Once what is owed was announced, who may return returns** at its next
turn. -/
theorem delivered (h : m.Awake step view due) {i : ℕ} {w : Wait σ ρ} (hw : m.waits[i]? = some w)
    (hheeds : Heeds step view due w.test) {r : ρ} (hr : w.test (view m.system) = some r)
    (hwaits : ∀ r', w.state ≠ .returned r') :
    (m.run step view due (List.replicate m.owed .announce ++ [.look i])).waits[i]? =
      some ⟨w.test, .returned r⟩ := by
  obtain ⟨test, state⟩ := w
  have htest : test (view m.system) = some r := hr
  -- after the announcements the waiter is about to test
  have hready : (m.run step view due (List.replicate m.owed Turn.announce)).waits[i]? =
      some ⟨test, .ready⟩ := by
    rw [run_announce]
    cases state with
    | returned r' => exact absurd rfl (hwaits r')
    | ready =>
      show (if m.owed = 0 then m.waits else m.waits.map Wait.wake)[i]? = _
      split
      · exact hw
      · rw [List.getElem?_map, hw]
        rfl
    | asleep =>
      show (if m.owed = 0 then m.waits else m.waits.map Wait.wake)[i]? = _
      split
      · rename_i howed
        have hnone := h howed _ (List.mem_of_getElem? hw) hheeds rfl
        rw [hr] at hnone
        cases hnone
      · rw [List.getElem?_map, hw]
        rfl
  have hsystem :
      (m.run step view due (List.replicate m.owed Turn.announce)).system = m.system := by
    rw [run_announce]
  rw [run_append]
  show (List.modify _ i _)[i]? = _
  rw [List.getElem?_modify, hready, hsystem]
  simp [Wait.look, htest]

end Monitor

end Monitors
