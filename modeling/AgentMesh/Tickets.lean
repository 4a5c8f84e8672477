/-
Single-use tickets.

A general library: a table holds tickets under their nonces.  A turn may issue
tickets, or redeem one that is held, which takes it out of the table.

* `redeemed_issued` — a redeemed ticket was in the table at the start or was
  issued by an earlier turn;
* `redeemed_nodup` — if no nonce is issued twice, no ticket is redeemed twice.
-/
import AgentMesh.Runs

namespace Tickets

variable {κ V : Type} (nonce : V → κ)

/-- One turn: the table it found and left, what it issued and what it redeemed. -/
structure Turn (κ V : Type) where
  before : κ → Option V
  after : κ → Option V
  issued : List V
  redeemed : Option V

structure Turn.Lawful (t : Turn κ V) : Prop where
  held : ∀ {n v}, t.after n = some v → t.before n = some v ∨ v ∈ t.issued ∧ nonce v = n
  taken : ∀ {v}, t.redeemed = some v → t.before (nonce v) = some v ∧ t.after (nonce v) = none

/-- Lawful turns, each starting with the table the one before it left. -/
def Linked : (κ → Option V) → List (Turn κ V) → Prop
  | _, [] => True
  | table, t :: ts => t.before = table ∧ t.Lawful nonce ∧ Linked t.after ts

def nonces (ts : List (Turn κ V)) : List κ := (ts.flatMap Turn.issued).map nonce

theorem nonces_cons (t : Turn κ V) (ts : List (Turn κ V)) :
    nonces nonce (t :: ts) = t.issued.map nonce ++ nonces nonce ts := by
  simp [nonces]

variable {nonce} {table : κ → Option V} {ts : List (Turn κ V)}

/-- **A redeemed ticket was issued before.** -/
theorem redeemed_issued {pre post : List (Turn κ V)} {t : Turn κ V} {v : V}
    (h : Linked nonce table (pre ++ t :: post)) (hv : t.redeemed = some v) :
    table (nonce v) = some v ∨ ∃ p u q, pre = p ++ u :: q ∧ v ∈ u.issued := by
  induction pre generalizing table with
  | nil =>
    obtain ⟨rfl, hlawful, -⟩ := h
    exact .inl (hlawful.taken hv).1
  | cons u pre ih =>
    obtain ⟨rfl, hlawful, h⟩ := h
    rcases ih h with hheld | ⟨p, w, q, rfl, hw⟩
    · rcases hlawful.held hheld with hbefore | ⟨hissued, -⟩
      · exact .inl hbefore
      · exact .inr ⟨[], u, pre, rfl, hissued⟩
    · exact .inr ⟨u :: p, w, q, rfl, hw⟩

theorem not_redeemed {n : κ} (h : Linked nonce table ts) (hfree : table n = none)
    (hlater : n ∉ nonces nonce ts) : n ∉ (ts.filterMap Turn.redeemed).map nonce := by
  induction ts generalizing table with
  | nil => simp
  | cons t ts ih =>
    obtain ⟨rfl, hlawful, h⟩ := h
    rw [nonces_cons, List.mem_append, not_or] at hlater
    have hafter : t.after n = none := by
      cases hn : t.after n with
      | none => rfl
      | some v =>
        rcases hlawful.held hn with hbefore | ⟨hissued, rfl⟩
        · rw [hfree] at hbefore
          cases hbefore
        · exact absurd (List.mem_map_of_mem hissued) hlater.1
    have hrest := ih h hafter hlater.2
    cases hr : t.redeemed with
    | none => rwa [List.filterMap_cons_none hr]
    | some v =>
      rw [List.filterMap_cons_some hr, List.map_cons, List.mem_cons, not_or]
      refine ⟨fun hn => ?_, hrest⟩
      rw [hn, (hlawful.taken hr).1] at hfree
      cases hfree

/-- **No ticket is redeemed twice.**  The invariant: what is held is not issued
again. -/
theorem redeemed_nodup (h : Linked nonce table ts) (hnodup : (nonces nonce ts).Nodup)
    (hfresh : ∀ n v, table n = some v → n ∉ nonces nonce ts) :
    ((ts.filterMap Turn.redeemed).map nonce).Nodup := by
  induction ts generalizing table with
  | nil => exact List.nodup_nil
  | cons t ts ih =>
    obtain ⟨rfl, hlawful, h⟩ := h
    rw [nonces_cons] at hnodup hfresh
    obtain ⟨-, hnodup', hdisjoint⟩ := List.nodup_append.mp hnodup
    have hrest := ih h hnodup' fun n v hv hmem => by
      rcases hlawful.held hv with hbefore | ⟨hissued, rfl⟩
      · exact hfresh n v hbefore (List.mem_append_right _ hmem)
      · exact hdisjoint _ (List.mem_map_of_mem hissued) _ hmem rfl
    cases hr : t.redeemed with
    | none => rwa [List.filterMap_cons_none hr]
    | some v =>
      obtain ⟨hbefore, hafter⟩ := hlawful.taken hr
      rw [List.filterMap_cons_some hr, List.map_cons, List.nodup_cons]
      refine ⟨not_redeemed h hafter fun hmem => ?_, hrest⟩
      exact hfresh _ v hbefore (List.mem_append_right _ hmem)

end Tickets
