/-
Runs of a fallible step function.

A general library: a step function that may refuse, run over a list of inputs.
A run is accepted when every step is.

* `run_append`, `run_split` — a run over a concatenation is a run over the
  first part continued by one over the second, so every accepted input has a
  state it was accepted in;
* `run_invariant` — the induction rule: a property of (inputs so far, state)
  that holds at the start and is kept by every accepted step holds after every
  accepted run;
* `run_rel` — a reflexive and transitive relation kept by every accepted step
  relates the ends of every accepted run;
* `run_tip` — when every step leaves a tip that determines the tip before it
  and, from a given state, what was taken, the last tip determines the run;
* `Trace.split` — the state an input of a trace was taken in;
* `Trace.nodup` — keys that a step takes only while they are unused, and marks
  used for good, are distinct along every trace of a step relation.
-/
import AgentMesh.Collections

namespace Steps

variable {σ ι ε : Type} {step : σ → ι → Except ε σ}

/-- Feed the inputs one after another; stop at the first refusal. -/
def run (step : σ → ι → Except ε σ) : σ → List ι → Except ε σ
  | s, [] => .ok s
  | s, x :: xs => step s x >>= fun s' => run step s' xs

@[simp] theorem run_nil (s : σ) : run step s [] = .ok s := rfl

theorem run_cons {s t : σ} {x : ι} {xs : List ι} :
    run step s (x :: xs) = .ok t ↔ ∃ u, step s x = .ok u ∧ run step u xs = .ok t := by
  rw [run, bind_ok]

theorem run_append {t : σ} {xs ys : List ι} :
    ∀ {s : σ}, run step s (xs ++ ys) = .ok t ↔
      ∃ u, run step s xs = .ok u ∧ run step u ys = .ok t := by
  induction xs with
  | nil =>
    intro s
    constructor
    · intro h
      exact ⟨s, rfl, h⟩
    · rintro ⟨u, hu, h⟩
      cases hu
      exact h
  | cons x xs ih =>
    intro s
    rw [List.cons_append, run_cons]
    constructor
    · rintro ⟨v, hv, h⟩
      obtain ⟨u, hu, ht⟩ := ih.mp h
      exact ⟨u, run_cons.mpr ⟨v, hv, hu⟩, ht⟩
    · rintro ⟨u, hu, ht⟩
      obtain ⟨v, hv, hu⟩ := run_cons.mp hu
      exact ⟨v, hv, ih.mpr ⟨u, hu, ht⟩⟩

theorem run_snoc {s t : σ} {xs : List ι} {x : ι} :
    run step s (xs ++ [x]) = .ok t ↔ ∃ u, run step s xs = .ok u ∧ step u x = .ok t := by
  rw [run_append]
  constructor
  · rintro ⟨u, hu, h⟩
    obtain ⟨v, hv, h⟩ := run_cons.mp h
    cases h
    exact ⟨u, hu, hv⟩
  · rintro ⟨u, hu, h⟩
    exact ⟨u, hu, run_cons.mpr ⟨t, h, rfl⟩⟩

theorem run_split {s t : σ} {xs ys : List ι} {x : ι}
    (h : run step s (xs ++ x :: ys) = .ok t) :
    ∃ u v, run step s xs = .ok u ∧ step u x = .ok v ∧ run step v ys = .ok t := by
  obtain ⟨u, hu, h⟩ := run_append.mp h
  obtain ⟨v, hv, h⟩ := run_cons.mp h
  exact ⟨u, v, hu, hv, h⟩

/-- **Induction over accepted runs.**  The invariant may mention the inputs
accepted so far. -/
theorem run_invariant {s₀ : σ} (Inv : List ι → σ → Prop) (h0 : Inv [] s₀)
    (hstep : ∀ xs s x s', run step s₀ xs = .ok s → Inv xs s → step s x = .ok s' →
      Inv (xs ++ [x]) s') :
    ∀ {xs s}, run step s₀ xs = .ok s → Inv xs s := by
  intro xs
  induction xs using List.reverseRecOn with
  | nil =>
    intro s h
    cases h
    exact h0
  | append_singleton xs x ih =>
    intro s h
    obtain ⟨u, hu, hx⟩ := run_snoc.mp h
    exact hstep xs u x s hu (ih hu) hx

/-- A reflexive and transitive relation kept by every accepted step relates
the ends of an accepted run. -/
theorem run_rel {R : σ → σ → Prop} (hrefl : ∀ s, R s s)
    (htrans : ∀ {a b c}, R a b → R b c → R a c)
    (hstep : ∀ {s x s'}, step s x = .ok s' → R s s') :
    ∀ {xs s t}, run step s xs = .ok t → R s t := by
  intro xs
  induction xs with
  | nil =>
    intro s t h
    cases h
    exact hrefl s
  | cons x xs ih =>
    intro s t h
    obtain ⟨u, hu, h⟩ := run_cons.mp h
    exact htrans (hstep hu) (ih h)

/-- **A run is determined by its tip.**  Each accepted step leaves a tip; equal
tips come from equal earlier tips and, from one state, from inputs related by
`R` and leading to one state. -/
theorem run_tip {κ : Type} {s₀ : σ} (R : ι → ι → Prop) (tip : σ → κ)
    (hlink : ∀ {s t x y s' t'}, step s x = .ok s' → step t y = .ok t' → tip s' = tip t' →
      tip s = tip t)
    (hsame : ∀ {s x y s' t'}, step s x = .ok s' → step s y = .ok t' → tip s' = tip t' →
      R x y ∧ s' = t') :
    ∀ {xs ys s t}, xs.length = ys.length → run step s₀ xs = .ok s → run step s₀ ys = .ok t →
      tip s = tip t → List.Forall₂ R xs ys ∧ s = t := by
  intro xs
  induction xs using List.reverseRecOn with
  | nil =>
    intro ys s t hlen hs ht _
    cases List.length_eq_zero_iff.mp hlen.symm
    rw [hs] at ht
    cases ht
    exact ⟨.nil, rfl⟩
  | append_singleton xs x ih =>
    intro ys s t hlen hs ht htip
    induction ys using List.reverseRecOn with
    | nil => simp at hlen
    | append_singleton ys y _ =>
      obtain ⟨u, hu, hx⟩ := run_snoc.mp hs
      obtain ⟨v, hv, hy⟩ := run_snoc.mp ht
      obtain ⟨hall, rfl⟩ := ih (by simpa using hlen) hu hv (hlink hx hy htip)
      obtain ⟨hR, rfl⟩ := hsame hx hy htip
      exact ⟨List.rel_append hall (.cons hR .nil), rfl⟩

/-! ### Traces of a relation -/

/-- An element of a list with one more at its end is the last one or stands in
the list. -/
theorem snoc_split {α : Type} {xs pre post : List α} {x y : α} :
    xs ++ [x] = pre ++ y :: post ↔
      (post = [] ∧ pre = xs ∧ y = x) ∨ ∃ post', post = post' ++ [x] ∧ xs = pre ++ y :: post' := by
  constructor
  · intro h
    induction post using List.reverseRecOn with
    | nil =>
      obtain ⟨rfl, hx⟩ := List.append_inj' h rfl
      cases hx
      exact .inl ⟨rfl, rfl, rfl⟩
    | append_singleton post z _ =>
      rw [← List.cons_append, ← List.append_assoc] at h
      obtain ⟨rfl, hz⟩ := List.append_inj' h rfl
      cases hz
      exact .inr ⟨post, rfl, rfl⟩
  · rintro (⟨rfl, rfl, rfl⟩ | ⟨post', rfl, rfl⟩)
    · rfl
    · simp

/-- The inputs `xs`, taken one after another by `step` from a state in `start`,
lead to the state. -/
inductive Trace (start : σ → Prop) (step : σ → ι → σ → Prop) : List ι → σ → Prop where
  | nil {s : σ} (h : start s) : Trace start step [] s
  | snoc {xs : List ι} {s s' : σ} {x : ι} (h : Trace start step xs s) (hx : step s x s') :
      Trace start step (xs ++ [x]) s'

section Trace

variable {start : σ → Prop} {R : σ → ι → σ → Prop}

theorem Trace.of_run {s₀ s : σ} {xs : List ι} (h0 : start s₀)
    (hR : ∀ {s x s'}, step s x = .ok s' → R s x s') (h : run step s₀ xs = .ok s) :
    Trace start R xs s :=
  run_invariant (Trace start R) (.nil h0) (fun _ _ _ _ _ ht hx => .snoc ht (hR hx)) h

theorem Trace.split {xs ys : List ι} {x : ι} {s : σ} (h : Trace start R (xs ++ x :: ys) s) :
    ∃ u v, Trace start R xs u ∧ R u x v := by
  generalize hzs : xs ++ x :: ys = zs at h
  induction h generalizing ys with
  | nil => simp at hzs
  | @snoc zs s s' z htrace hz ih =>
    rcases snoc_split.mp hzs.symm with ⟨-, rfl, rfl⟩ | ⟨ys', -, rfl⟩
    · exact ⟨s, s', htrace, hz⟩
    · exact ih rfl

/-- **Single use.**  If a step that takes key `k` finds it unused and leaves it
used, and used keys stay used, no two inputs of a trace take the same key. -/
theorem Trace.nodup {κ : Type} (key : ι → Option κ) (used : σ → κ → Prop)
    (hkeep : ∀ {xs s x s' k}, Trace start R xs s → R s x s' → used s k → used s' k)
    (huse : ∀ {xs s x s' k}, Trace start R xs s → R s x s' → key x = some k →
      ¬used s k ∧ used s' k) {xs : List ι} {s : σ} (h : Trace start R xs s) :
    (xs.filterMap key).Nodup ∧ ∀ k ∈ xs.filterMap key, used s k := by
  induction h with
  | nil => exact ⟨List.nodup_nil, by simp⟩
  | @snoc xs s s' x htrace hx ih =>
    rw [List.filterMap_append]
    cases hk : key x with
    | none =>
      rw [List.filterMap_cons_none hk, List.filterMap_nil, List.append_nil]
      exact ⟨ih.1, fun k hmem => hkeep htrace hx (ih.2 k hmem)⟩
    | some k =>
      obtain ⟨hfree, hused⟩ := huse htrace hx hk
      rw [List.filterMap_cons_some hk, List.filterMap_nil]
      refine ⟨List.nodup_append.mpr ⟨ih.1, List.nodup_singleton k, ?_⟩, ?_⟩
      · intro a ha b hb hab
        rw [List.mem_singleton] at hb
        rw [hab, hb] at ha
        exact hfree (ih.2 k ha)
      · intro a ha
        rcases List.mem_append.mp ha with ha | ha
        · exact hkeep htrace hx (ih.2 a ha)
        · rw [List.mem_singleton] at ha
          rw [ha]
          exact hused

end Trace

end Steps
