/-
The nonce window.

`check_and_insert` keeps a set and a queue in step by an eviction loop.  Here
the two containers are as the source has them, with nothing that ties one to
the other, and they are shown to follow the library's cache, whose fields do.
So after any calls the queue is the last `capacity` nonces that were accepted
and the set is the queue.

* `NonceInner.run_follows` — the containers follow the library's cache;
* `nonce_window` — what is remembered after any calls, and so what is rejected.
-/
import AgentMesh.Sending

namespace Bus

/-- What the lock of a nonce cache guards. -/
structure NonceInner where
  seen : Finset (BitVec 192)
  order : List (BitVec 192)
  deriving DecidableEq

namespace NonceInner

def new : NonceInner := ⟨∅, []⟩

/-- Check and insert, with the lock held: `true` if the nonce is new, and was
inserted. -/
def checkAndInsert (capacity : ℕ) (inner : NonceInner) (nonce : BitVec 192) :
    NonceInner × Bool :=
  if nonce ∈ inner.seen then (inner, false)
  else
    let kept := NonceCache.evict capacity (insert nonce inner.seen) (inner.order ++ [nonce])
    (⟨kept.1, kept.2⟩, true)

def run (capacity : ℕ) (inner : NonceInner) (calls : List (BitVec 192)) : NonceInner :=
  calls.foldl (fun inner nonce => (inner.checkAndInsert capacity nonce).1) inner

def accepted (capacity : ℕ) (inner : NonceInner) : List (BitVec 192) → List (BitVec 192)
  | [] => []
  | nonce :: calls =>
    (if (inner.checkAndInsert capacity nonce).2 then [nonce] else []) ++
      accepted capacity (inner.checkAndInsert capacity nonce).1 calls

/-! ### The library's cache -/

def of (c : NonceCache (BitVec 192)) : NonceInner := ⟨c.seen, c.order⟩

variable (c : NonceCache (BitVec 192))

theorem checkAndInsert_follows (n : BitVec 192) :
    (of c).checkAndInsert c.capacity n = (of (c.checkAndInsert n).1, (c.checkAndInsert n).2) := by
  rw [checkAndInsert, NonceCache.checkAndInsert]
  by_cases hn : n ∈ c.seen
  · rw [dif_pos hn]
    exact if_pos hn
  · rw [dif_neg hn]
    exact if_neg hn

/-- **The containers follow the cache.** -/
theorem run_follows (calls : List (BitVec 192)) :
    run c.capacity (of c) calls = of (c.run calls) := by
  induction calls generalizing c with
  | nil => rfl
  | cons n calls ih =>
    have hstep := checkAndInsert_follows c n
    show run c.capacity ((of c).checkAndInsert c.capacity n).1 calls =
      of ((c.checkAndInsert n).1.run calls)
    rw [hstep, ← ih, NonceCache.capacity_checkAndInsert]

theorem run_new (capacity : ℕ) (calls : List (BitVec 192)) :
    run capacity new calls = of ((NonceCache.new capacity).run calls) :=
  run_follows (.new capacity) calls

theorem accepted_follows (calls : List (BitVec 192)) :
    accepted c.capacity (of c) calls = c.accepted calls := by
  induction calls generalizing c with
  | nil => rfl
  | cons n calls ih =>
    have hstep := checkAndInsert_follows c n
    rw [accepted, hstep, NonceCache.accepted, ← ih, NonceCache.capacity_checkAndInsert]

/-! ### What is rejected -/

variable {capacity : ℕ} {inner : NonceInner} {n : BitVec 192}

theorem checkAndInsert_old (h : n ∈ inner.seen) :
    inner.checkAndInsert capacity n = (inner, false) := if_pos h

theorem checkAndInsert_false : (inner.checkAndInsert capacity n).2 = false ↔ n ∈ inner.seen := by
  constructor
  · intro h
    by_contra hn
    rw [checkAndInsert, if_neg hn] at h
    cases h
  · intro hn
    rw [checkAndInsert_old hn]

theorem run_old {flood : List (BitVec 192)} (h : ∀ n ∈ flood, n ∈ inner.seen) :
    inner.run capacity flood = inner := by
  induction flood with
  | nil => rfl
  | cons n flood ih =>
    have hn : n ∈ inner.seen := h n List.mem_cons_self
    show run capacity (inner.checkAndInsert capacity n).1 flood = inner
    rw [checkAndInsert_old hn]
    exact ih fun m hm => h m (List.mem_cons_of_mem _ hm)

/-- **What is held after any calls**: the last that were accepted. -/
theorem mem_seen_run (capacity : ℕ) (calls : List (BitVec 192)) :
    n ∈ (run capacity new calls).seen ↔ n ∈ (accepted capacity new calls).rtake capacity := by
  have haccepted : accepted capacity new calls = (NonceCache.new capacity).accepted calls :=
    accepted_follows (.new capacity) calls
  rw [run_new, haccepted]
  show n ∈ ((NonceCache.new capacity).run calls).seen ↔ _
  rw [NonceCache.seen_order, NonceCache.order_run]
  rfl

end NonceInner

/-- **The nonce window.**  After any calls the set and the queue hold the same
nonces, the queue each of them once and at most `capacity` of them.  A call
returns `false` exactly if its nonce is among the last `capacity` that were
accepted, and then changes nothing: a flood of such calls evicts nothing. -/
theorem nonce_window (capacity : ℕ) (calls : List (BitVec 192)) :
    let inner := NonceInner.run capacity .new calls
    let window := (NonceInner.accepted capacity .new calls).rtake capacity
    (∀ n, n ∈ inner.seen ↔ n ∈ inner.order) ∧ inner.order.Nodup ∧
    inner.order.length ≤ capacity ∧
    (∀ n, (inner.checkAndInsert capacity n).2 = false ↔ n ∈ window) ∧
    (∀ n, (inner.checkAndInsert capacity n).2 = false →
      (inner.checkAndInsert capacity n).1 = inner) ∧
    ∀ flood : List (BitVec 192), (∀ n ∈ flood, n ∈ window) →
      inner.run capacity flood = inner := by
  intro inner window
  have hinner : inner = .of ((NonceCache.new capacity).run calls) :=
    NonceInner.run_new capacity calls
  have hwindow : ∀ n, n ∈ inner.seen ↔ n ∈ window :=
    fun n => NonceInner.mem_seen_run capacity calls
  refine ⟨?_, ?_, ?_, ?_, ?_, ?_⟩
  · rw [hinner]
    exact ((NonceCache.new capacity).run calls).seen_order
  · rw [hinner]
    exact ((NonceCache.new capacity).run calls).nodup
  · rw [hinner]
    have hbounded := ((NonceCache.new capacity).run calls).bounded
    rw [NonceCache.capacity_run] at hbounded
    exact hbounded
  · intro n
    exact NonceInner.checkAndInsert_false.trans (hwindow n)
  · intro n h
    rw [NonceInner.checkAndInsert_old (NonceInner.checkAndInsert_false.mp h)]
  · intro flood hflood
    exact NonceInner.run_old fun n hn => (hwindow n).mpr (hflood n hn)

/-- A cache of two: the third nonce evicts the first, the second comes again
and evicts nothing. -/
theorem nonce_window_two :
    let inner := NonceInner.run 2 .new [1, 2, 3]
    inner.order = [2, 3] ∧ (inner.checkAndInsert 2 1).2 = true ∧
      inner.checkAndInsert 2 2 = (inner, false) ∧ inner.run 2 [2, 3, 2] = inner := by
  intro inner
  obtain ⟨-, -, -, hfalse, hsame, hflood⟩ := nonce_window 2 [1, 2, 3]
  have hwindow : (NonceInner.accepted 2 .new [1, 2, 3]).rtake 2 = [2, 3] := by decide +kernel
  have htwo : (inner.checkAndInsert 2 2).2 = false := by
    rw [hfalse, hwindow]
    exact List.mem_cons_self
  refine ⟨by decide +kernel, by decide +kernel, Prod.ext (hsame 2 htwo) htwo, ?_⟩
  refine hflood [2, 3, 2] ?_
  rw [hwindow]
  simp

end Bus
