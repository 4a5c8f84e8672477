/-
Segments of a list that grows at its end.

A general library: a reader takes the entries of a list one by one from some
position on, while others append to the list.  What it has taken is a segment,
and a segment that lies inside the list stays what it is when the list grows.

* `segment_succ` — taking the next entry extends the segment by it;
* `segment_grown` — growth leaves a segment alone;
* `eq_take_cons_drop` — the list around one of its places.
-/
import Mathlib.Data.List.Infix

namespace Segments

variable {α : Type} {l l' : List α} {a n : ℕ} {x : α}

/-- The `n` entries from position `a` on. -/
def segment (l : List α) (a n : ℕ) : List α := (l.drop a).take n

@[simp] theorem segment_zero : segment l a 0 = [] := rfl

theorem segment_succ (h : l[a + n]? = some x) : segment l a (n + 1) = segment l a n ++ [x] := by
  rw [segment, List.take_add_one, List.getElem?_drop, h]
  rfl

theorem segment_to_end (h : a + n = l.length) : segment l a n = l.drop a := by
  refine List.take_of_length_le ?_
  rw [List.length_drop]
  omega

/-- **Growth leaves a segment alone.** -/
theorem segment_grown (h : l <+: l') (hn : a + n ≤ l.length) :
    segment l' a n = segment l a n := by
  obtain ⟨t, rfl⟩ := h
  have ha : a ≤ l.length := by omega
  have hdrop : n ≤ (l.drop a).length := by
    rw [List.length_drop]
    omega
  rw [segment, segment, List.drop_append_of_le_length ha, List.take_append_of_le_length hdrop]

theorem getElem?_grown (h : l <+: l') {i : ℕ} (hi : l[i]? = some x) : l'[i]? = some x := by
  obtain ⟨t, rfl⟩ := h
  rw [List.getElem?_append_left (List.getElem?_eq_some_iff.mp hi).1]
  exact hi

theorem getElem?_within (h : l <+: l') {i : ℕ} (hi : i < l.length) (hx : l'[i]? = some x) :
    l[i]? = some x := by
  obtain ⟨t, rfl⟩ := h
  rwa [List.getElem?_append_left hi] at hx

theorem eq_take_cons_drop {i : ℕ} (hx : l[i]? = some x) : l = l.take i ++ x :: l.drop (i + 1) := by
  obtain ⟨hi, rfl⟩ := List.getElem?_eq_some_iff.mp hx
  rw [← List.drop_eq_getElem_cons hi, List.take_append_drop]

theorem take_succ_of_getElem? {i : ℕ} (hx : l[i]? = some x) :
    l.take (i + 1) = l.take i ++ [x] := by
  rw [List.take_add_one, hx]
  rfl

end Segments
