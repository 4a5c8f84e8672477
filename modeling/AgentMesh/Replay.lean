/-
Replay defence.

A general library of the two checks a receiver makes against replays, over
arbitrary nonces and peers.

* `NonceCache` — a bounded first-in-first-out set: a nonce it holds is
  rejected, a new one is taken in and the oldest leave.  Its two containers
  always hold the same nonces, at most `capacity` of them.
* `SequenceTracker` — the highest sequence accepted from each peer: only a
  strictly higher one is accepted.

* `NonceCache.checkAndInsert_true`, `mem_of_mem_checkAndInsert` — what is
  accepted, and that nothing but the accepted nonce comes in;
* `NonceCache.order_run` — over any calls, the cache holds the last of the
  nonces it accepted, as many as its capacity;
* `SequenceTracker.checkAndAdvance_ok`, `high_le` — what is accepted, and that
  the marks never fall;
* `SequenceTracker.high_run_lt`, `high_run_lt_accepted` — over any calls, a mark
  is the highest sequence that came, and the highest that was accepted.
-/
import Mathlib.Algebra.Group.Nat.Defs
import Mathlib.Data.Finset.Basic
import Mathlib.Data.List.DropRight
import Mathlib.Data.List.Nodup

/-! ### The last of a list -/

/-- The last of a list are the last of what was left of it and what came since. -/
theorem rtake_rtake_append {α : Type} (k : ℕ) (l m : List α) :
    (l.rtake k ++ m).rtake k = (l ++ m).rtake k := by
  have hle : l.length - k ≤ l.length := Nat.sub_le _ _
  rw [List.rtake, List.rtake, List.rtake, ← List.drop_append_of_le_length hle, List.drop_drop]
  congr 1
  rw [List.length_drop, List.length_append]
  omega

theorem rtake_of_length_le {α : Type} {k : ℕ} {l : List α} (h : l.length ≤ k) :
    l.rtake k = l := by
  rw [List.rtake, Nat.sub_eq_zero_of_le h]
  rfl

/-! ### Nonces -/

section Nonces

variable {N : Type} [DecidableEq N]

/-- A bounded set of nonces, evicted in the order they came. -/
structure NonceCache (N : Type) [DecidableEq N] where
  capacity : ℕ
  seen : Finset N
  order : List N
  seen_order : ∀ n, n ∈ seen ↔ n ∈ order
  nodup : order.Nodup
  bounded : order.length ≤ capacity

namespace NonceCache

def new (capacity : ℕ) : NonceCache N :=
  ⟨capacity, ∅, [], fun _ => iff_of_false (Finset.notMem_empty _) List.not_mem_nil,
    List.nodup_nil, Nat.zero_le _⟩

/-- Drop the oldest while there are too many. -/
def evict (capacity : ℕ) : Finset N → List N → Finset N × List N
  | seen, [] => (seen, [])
  | seen, old :: order =>
    if capacity < (old :: order).length then evict capacity (seen.erase old) order
    else (seen, old :: order)

theorem evict_spec (capacity : ℕ) {order : List N} :
    ∀ {seen : Finset N}, (∀ n, n ∈ seen ↔ n ∈ order) → order.Nodup →
      (∀ n, n ∈ (evict capacity seen order).1 ↔ n ∈ (evict capacity seen order).2) ∧
        (evict capacity seen order).2.Nodup ∧
        (evict capacity seen order).2.length ≤ capacity ∧
        (evict capacity seen order).1 ⊆ seen := by
  induction order with
  | nil =>
    intro seen hmem hnodup
    exact ⟨hmem, hnodup, Nat.zero_le _, subset_rfl⟩
  | cons old order ih =>
    intro seen hmem hnodup
    rw [evict]
    split
    · -- the oldest leaves both containers
      obtain ⟨hold, hnodup⟩ := List.nodup_cons.mp hnodup
      have hmem' : ∀ n, n ∈ seen.erase old ↔ n ∈ order := by
        intro n
        rw [Finset.mem_erase, hmem, List.mem_cons]
        constructor
        · rintro ⟨hne, rfl | h⟩
          · exact absurd rfl hne
          · exact h
        · intro h
          exact ⟨fun he => hold (he ▸ h), .inr h⟩
      obtain ⟨h1, h2, h3, h4⟩ := ih hmem' hnodup
      exact ⟨h1, h2, h3, h4.trans (Finset.erase_subset _ _)⟩
    · rename_i hle
      exact ⟨hmem, hnodup, Nat.le_of_not_lt hle, subset_rfl⟩

theorem evict_order (capacity : ℕ) (order : List N) :
    ∀ seen : Finset N, (evict capacity seen order).2 = order.rtake capacity := by
  induction order with
  | nil =>
    intro seen
    rw [List.rtake_nil]
    rfl
  | cons old order ih =>
    intro seen
    rw [evict]
    split
    · rename_i hlt
      have hlen : (old :: order).length - capacity = order.length - capacity + 1 := by
        rw [List.length_cons] at hlt ⊢
        omega
      rw [ih, List.rtake, List.rtake, hlen]
      rfl
    · rename_i hle
      exact (rtake_of_length_le (Nat.le_of_not_lt hle)).symm

variable (c : NonceCache N) (n : N)

theorem mem_insert_iff (m : N) : m ∈ insert n c.seen ↔ m ∈ c.order ++ [n] := by
  rw [Finset.mem_insert, List.mem_append, List.mem_singleton, c.seen_order, or_comm]

theorem nodup_push {c : NonceCache N} {n : N} (h : n ∉ c.seen) : (c.order ++ [n]).Nodup := by
  rw [List.nodup_append]
  refine ⟨c.nodup, List.nodup_singleton n, fun a ha b hb hab => h ?_⟩
  rw [List.mem_singleton] at hb
  rw [c.seen_order, ← hb, ← hab]
  exact ha

/-- Check and insert: `true` if the nonce is new, and was inserted. -/
def checkAndInsert : NonceCache N × Bool :=
  if h : n ∈ c.seen then (c, false)
  else
    let r := evict c.capacity (insert n c.seen) (c.order ++ [n])
    have hr := evict_spec c.capacity (c.mem_insert_iff n) (nodup_push h)
    (⟨c.capacity, r.1, r.2, hr.1, hr.2.1, hr.2.2.1⟩, true)

variable {c n}

theorem checkAndInsert_true : (c.checkAndInsert n).2 = true ↔ n ∉ c.seen := by
  rw [checkAndInsert]
  split
  · rename_i h
    exact ⟨fun hf => (nomatch hf), fun hn => absurd h hn⟩
  · rename_i h
    exact ⟨fun _ => h, fun _ => rfl⟩

theorem mem_of_mem_checkAndInsert {m : N} (h : m ∈ (c.checkAndInsert n).1.seen) :
    m = n ∨ m ∈ c.seen := by
  rw [checkAndInsert] at h
  split at h
  · exact .inr h
  · rename_i hn
    have hr := evict_spec c.capacity (c.mem_insert_iff n) (nodup_push hn)
    exact Finset.mem_insert.mp (hr.2.2.2 h)

/-! ### Runs of calls -/

theorem checkAndInsert_old (h : n ∈ c.seen) : c.checkAndInsert n = (c, false) := dif_pos h

theorem capacity_checkAndInsert (n : N) : (c.checkAndInsert n).1.capacity = c.capacity := by
  rw [checkAndInsert]
  split <;> rfl

theorem order_checkAndInsert (h : n ∉ c.seen) :
    (c.checkAndInsert n).1.order = (c.order ++ [n]).rtake c.capacity := by
  rw [checkAndInsert, dif_neg h]
  exact evict_order c.capacity _ _

variable (c) in
def run (calls : List N) : NonceCache N := calls.foldl (fun c n => (c.checkAndInsert n).1) c

def accepted (c : NonceCache N) : List N → List N
  | [] => []
  | n :: calls =>
    (if (c.checkAndInsert n).2 then [n] else []) ++ accepted (c.checkAndInsert n).1 calls

theorem capacity_run (c : NonceCache N) (calls : List N) : (c.run calls).capacity = c.capacity := by
  induction calls generalizing c with
  | nil => rfl
  | cons n calls ih => exact (ih _).trans (capacity_checkAndInsert n)

/-- **The cache holds the last nonces it accepted.** -/
theorem order_run (c : NonceCache N) (calls : List N) :
    (c.run calls).order = (c.order ++ c.accepted calls).rtake c.capacity := by
  induction calls generalizing c with
  | nil =>
    rw [accepted, List.append_nil, rtake_of_length_le c.bounded]
    rfl
  | cons n calls ih =>
    have hrun : c.run (n :: calls) = (c.checkAndInsert n).1.run calls := rfl
    rw [hrun, ih, capacity_checkAndInsert, accepted]
    by_cases hn : n ∈ c.seen
    · rw [checkAndInsert_old hn]
      rfl
    · rw [order_checkAndInsert hn, if_pos (checkAndInsert_true.mpr hn), rtake_rtake_append,
        List.append_assoc]

end NonceCache

end Nonces

/-! ### Sequences -/

section Sequences

variable {K : Type} [DecidableEq K]

/-- The highest sequence accepted from each peer. -/
structure SequenceTracker (K : Type) where
  last : K → Option ℕ

namespace SequenceTracker

def new : SequenceTracker K := ⟨fun _ => none⟩

/-- The mark of a peer: 0 if none is known. -/
def high (t : SequenceTracker K) (peer : K) : ℕ := (t.last peer).getD 0

/-- Accept and advance iff `seq` is above the mark; a rejection gives the
lowest sequence that would be accepted (as a 64-bit number) and the one that
arrived. -/
def checkAndAdvance (t : SequenceTracker K) (peer : K) (seq : ℕ) :
    SequenceTracker K × Except (ℕ × ℕ) Unit :=
  if t.high peer < seq then (⟨Function.update t.last peer (some seq)⟩, .ok ())
  else (t, .error ((t.high peer + 1) % 2 ^ 64, seq))

variable {t : SequenceTracker K} {peer : K} {seq : ℕ}

theorem checkAndAdvance_ok : (t.checkAndAdvance peer seq).2 = .ok () ↔ t.high peer < seq := by
  rw [checkAndAdvance]
  split
  · rename_i h
    exact ⟨fun _ => h, fun _ => rfl⟩
  · rename_i h
    constructor
    · intro hf
      cases hf
    · intro hlt
      exact absurd hlt h

theorem checkAndAdvance_error (h : ¬t.high peer < seq) :
    t.checkAndAdvance peer seq = (t, .error ((t.high peer + 1) % 2 ^ 64, seq)) := if_neg h

theorem high_checkAndAdvance (h : t.high peer < seq) (k : K) :
    (t.checkAndAdvance peer seq).1.high k = if k = peer then seq else t.high k := by
  rw [checkAndAdvance, if_pos h]
  show (Function.update t.last peer (some seq) k).getD 0 = _
  by_cases hk : k = peer
  · rw [if_pos hk, hk, Function.update_self]
    rfl
  · rw [if_neg hk, Function.update_of_ne hk]
    rfl

theorem high_lt_iff {k : K} {v : ℕ} :
    (t.checkAndAdvance peer seq).1.high k < v ↔ t.high k < v ∧ (k = peer → seq < v) := by
  by_cases h : t.high peer < seq
  · rw [high_checkAndAdvance h]
    by_cases hk : k = peer
    · rw [if_pos hk, hk]
      exact ⟨fun hv => ⟨h.trans hv, fun _ => hv⟩, fun hv => hv.2 rfl⟩
    · rw [if_neg hk]
      exact ⟨fun hv => ⟨hv, fun hk' => absurd hk' hk⟩, fun hv => hv.1⟩
  · rw [checkAndAdvance_error h]
    refine ⟨fun hv => ⟨hv, fun hk => ?_⟩, fun hv => hv.1⟩
    rw [hk] at hv
    exact Nat.lt_of_le_of_lt (Nat.le_of_not_lt h) hv

theorem high_le (k : K) : t.high k ≤ (t.checkAndAdvance peer seq).1.high k := by
  by_cases h : t.high peer < seq
  · rw [high_checkAndAdvance h]
    split
    · rename_i hk
      rw [hk]
      exact Nat.le_of_lt h
    · exact Nat.le_refl _
  · rw [checkAndAdvance_error h]

/-! ### Runs of calls -/

def run (t : SequenceTracker K) (calls : List (K × ℕ)) : SequenceTracker K :=
  calls.foldl (fun t x => (t.checkAndAdvance x.1 x.2).1) t

def accepted (t : SequenceTracker K) : List (K × ℕ) → List (K × ℕ)
  | [] => []
  | x :: calls =>
    (if t.high x.1 < x.2 then [x] else []) ++ accepted (t.checkAndAdvance x.1 x.2).1 calls

omit [DecidableEq K] in
theorem forall_lt_cons {x : K × ℕ} {calls : List (K × ℕ)} {k : K} {v : ℕ} :
    (∀ s, (k, s) ∈ x :: calls → s < v) ↔
      (k = x.1 → x.2 < v) ∧ ∀ s, (k, s) ∈ calls → s < v := by
  constructor
  · intro h
    refine ⟨?_, fun s hs => h s (List.mem_cons_of_mem _ hs)⟩
    rintro rfl
    exact h x.2 List.mem_cons_self
  · rintro ⟨hx, hcalls⟩ s hs
    rcases List.mem_cons.mp hs with rfl | hs
    · exact hx rfl
    · exact hcalls s hs

/-- **A mark is the highest sequence that came.** -/
theorem high_run_lt (t : SequenceTracker K) (calls : List (K × ℕ)) {k : K} {v : ℕ} :
    (t.run calls).high k < v ↔ t.high k < v ∧ ∀ s, (k, s) ∈ calls → s < v := by
  induction calls generalizing t with
  | nil => exact ⟨fun h => ⟨h, fun s hs => absurd hs List.not_mem_nil⟩, fun h => h.1⟩
  | cons x calls ih =>
    have hrun : t.run (x :: calls) = (t.checkAndAdvance x.1 x.2).1.run calls := rfl
    rw [hrun, ih, high_lt_iff, forall_lt_cons, and_assoc]

/-- **A mark is the highest sequence that was accepted.** -/
theorem high_run_lt_accepted (t : SequenceTracker K) (calls : List (K × ℕ)) {k : K} {v : ℕ} :
    (t.run calls).high k < v ↔ t.high k < v ∧ ∀ s, (k, s) ∈ t.accepted calls → s < v := by
  induction calls generalizing t with
  | nil => exact ⟨fun h => ⟨h, fun s hs => absurd hs List.not_mem_nil⟩, fun h => h.1⟩
  | cons x calls ih =>
    have hrun : t.run (x :: calls) = (t.checkAndAdvance x.1 x.2).1.run calls := rfl
    rw [hrun, ih, high_lt_iff, accepted]
    by_cases hx : t.high x.1 < x.2
    · rw [if_pos hx, List.singleton_append, forall_lt_cons, and_assoc]
    · -- a rejected sequence is not above the mark
      have hbelow : t.high k < v → k = x.1 → x.2 < v := by
        rintro hhigh rfl
        omega
      rw [if_neg hx, List.nil_append, and_iff_left_of_imp hbelow]

end SequenceTracker

end Sequences
