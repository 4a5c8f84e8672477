/-
Ordered maps and guarded computations.

The two small things every definition of the development is written with.

* `BTreeMap K V` is an ordered map with extensional equality (the standard
  library's `ExtTreeMap`), iterated in key order; `get_insert` and
  `get_modify` are the two lookup rules every proof about a table uses, with
  the comparison already turned into an equality of keys.
* `ensure c e` is the guard of a fallible computation: it returns nothing
  when `c` holds and fails with `e` otherwise.  `bind_ok` and `ensure_ok`
  turn a successful run of a chain of guards into the conjunction of the
  conditions it checked, and `Fails` says which errors a chain can end in.
-/
import Mathlib

open Std

/-- A finite map iterated in key order. -/
abbrev BTreeMap (K V : Type) [Ord K] := ExtTreeMap K V compare

namespace BTreeMap

variable {K V : Type} [Ord K] [TransOrd K] [LawfulEqOrd K] [DecidableEq K]

theorem get_insert (m : BTreeMap K V) (k l : K) (v : V) :
    (m.insert k v)[l]? = if k = l then some v else m[l]? := by
  rw [ExtTreeMap.getElem?_insert]
  by_cases h : k = l
  · rw [if_pos h, if_pos (by rw [h]; exact ReflCmp.compare_self)]
  · rw [if_neg h, if_neg (fun hc => h (LawfulEqCmp.eq_of_compare hc))]

theorem get_modify (m : BTreeMap K V) (k l : K) (f : V → V) :
    (m.modify k f)[l]? = if k = l then m[l]?.map f else m[l]? := by
  rw [ExtTreeMap.getElem?_modify]
  by_cases h : k = l
  · rw [if_pos h, if_pos (by rw [h]; exact ReflCmp.compare_self), h]
  · rw [if_neg h, if_neg (fun hc => h (LawfulEqCmp.eq_of_compare hc))]

theorem get_erase (m : BTreeMap K V) (k l : K) :
    (m.erase k)[l]? = if k = l then none else m[l]? := by
  rw [ExtTreeMap.getElem?_erase]
  by_cases h : k = l
  · rw [if_pos h, if_pos (by rw [h]; exact ReflCmp.compare_self)]
  · rw [if_neg h, if_neg (fun hc => h (LawfulEqCmp.eq_of_compare hc))]

/-- A map built from a list whose keys are distinct: each key has the value of
its element. -/
theorem get_foldl_insert {α : Type} {key : α → K} {value : α → V} {k : K} {v : V} {xs : List α} :
    ∀ {m : BTreeMap K V}, (xs.map key).Nodup →
      ((xs.foldl (fun m x => m.insert (key x) (value x)) m)[k]? = some v ↔
        (∃ x ∈ xs, key x = k ∧ value x = v) ∨ ((∀ x ∈ xs, key x ≠ k) ∧ m[k]? = some v)) := by
  induction xs with
  | nil =>
    intro m _
    simp
  | cons x xs ih =>
    intro m hnodup
    obtain ⟨hx, hxs⟩ := List.nodup_cons.mp hnodup
    have hnot : ∀ y ∈ xs, key y ≠ key x := by
      intro y hy heq
      exact hx (heq ▸ List.mem_map_of_mem hy)
    rw [List.foldl_cons, ih hxs, get_insert]
    simp only [List.mem_cons, exists_eq_or_imp, forall_eq_or_imp]
    by_cases hk : key x = k
    · subst hk
      simp only [if_pos, true_and, ne_eq, not_true_eq_false, false_and, or_false,
        Option.some.injEq]
      constructor
      · rintro (⟨y, hy, hyk, -⟩ | ⟨-, hv⟩)
        · exact absurd hyk (hnot y hy)
        · exact .inl hv
      · rintro (hv | ⟨y, hy, hyk, -⟩)
        · exact .inr ⟨hnot, hv⟩
        · exact absurd hyk (hnot y hy)
    · simp [hk]

omit [DecidableEq K] in
theorem mem_values {m : BTreeMap K V} {v : V} : v ∈ m.values ↔ ∃ k : K, m[k]? = some v := by
  have hvalues : m.values = m.toList.map Prod.snd := by
    obtain ⟨⟨q⟩⟩ := m
    induction q using Quotient.ind with
    | _ t =>
    show t.values = (DTreeMap.Const.toList t).map Prod.snd
    rw [DTreeMap.values, DTreeMap.Const.toList, DTreeMap.Internal.Impl.values_eq_map_snd,
      DTreeMap.Internal.Impl.Const.toList_eq_toListModel_map, List.map_map]
    rfl
  simp [hvalues, ExtTreeMap.mem_toList_iff_getElem?_eq_some]

/-- Collect values by key: the elements that have one, in their order. -/
def group {α : Type} (f : α → Option (K × V)) (xs : List α) : BTreeMap K (List V) :=
  xs.foldl (fun m x =>
    match f x with
    | some (k, v) => m.insert k (m[k]?.getD [] ++ [v])
    | none => m) ∅

/-- The values an element list has for one key. -/
def valuesAt {α : Type} (f : α → Option (K × V)) (k : K) (xs : List α) : List V :=
  xs.filterMap fun x => (f x).bind fun p => if p.1 = k then some p.2 else none

omit [LawfulEqOrd K] [DecidableEq K] in
theorem group_snoc {α : Type} (f : α → Option (K × V)) (xs : List α) (x : α) :
    group f (xs ++ [x]) =
      match f x with
      | some (k, v) => (group f xs).insert k ((group f xs)[k]?.getD [] ++ [v])
      | none => group f xs := by
  rw [group, List.foldl_append]
  rfl

theorem get_group {α : Type} (f : α → Option (K × V)) (xs : List α) (k : K) :
    (group f xs)[k]? = if valuesAt f k xs = [] then none else some (valuesAt f k xs) := by
  induction xs using List.reverseRecOn with
  | nil => simp [group, valuesAt]
  | append_singleton xs x ih =>
    have hvalues : valuesAt f k (xs ++ [x]) = valuesAt f k xs ++
        ((f x).bind fun p => if p.1 = k then some p.2 else none).toList := by
      rw [valuesAt, List.filterMap_append, valuesAt]
      congr 1
    rw [group_snoc, hvalues]
    cases hx : f x with
    | none => simpa using ih
    | some p =>
      obtain ⟨k', v⟩ := p
      show ((group f xs).insert k' ((group f xs)[k']?.getD [] ++ [v]))[k]? = _
      rw [get_insert]
      by_cases hk : k' = k
      · subst hk
        rw [if_pos rfl, ih]
        by_cases hnil : valuesAt f k' xs = [] <;> simp [hnil]
      · simpa [hk] using ih

end BTreeMap

/-- Fail with `e` unless `c` holds. -/
def ensure {ε : Type} (c : Prop) [Decidable c] (e : ε) : Except ε Unit :=
  if c then .ok () else .error e

section Ensure

variable {ε α β : Type}

@[simp] theorem ensure_ok {c : Prop} [Decidable c] {e : ε} {u : Unit} :
    ensure c e = .ok u ↔ c := by
  unfold ensure
  split
  · rename_i h; exact ⟨fun _ => h, fun _ => rfl⟩
  · rename_i h; exact ⟨fun hc => (nomatch hc), fun hc => absurd hc h⟩

theorem ensure_error {c : Prop} [Decidable c] {e e' : ε} (h : ensure c e = .error e') : e' = e := by
  unfold ensure at h
  split at h
  · cases h
  · cases h
    rfl

theorem ensure_of {c : Prop} [Decidable c] {e : ε} (h : c) :
    ensure c e = .ok () := if_pos h

@[simp] theorem bind_ok {x : Except ε α} {f : α → Except ε β} {b : β} :
    (x >>= f) = .ok b ↔ ∃ a, x = .ok a ∧ f a = .ok b := by
  cases x with
  | error e =>
    constructor
    · intro h; cases h
    · rintro ⟨a, h, -⟩; cases h
  | ok a =>
    constructor
    · intro h; exact ⟨a, rfl, h⟩
    · rintro ⟨a', h, hb⟩; cases h; exact hb

theorem bind_error {x : Except ε α} {f : α → Except ε β} {e : ε} (h : (x >>= f) = .error e) :
    x = .error e ∨ ∃ a, x = .ok a ∧ f a = .error e := by
  cases x with
  | error e' =>
    cases h
    exact .inl rfl
  | ok a => exact .inr ⟨a, rfl, h⟩

/-- `o` or the error `e`. -/
def okOr (o : Option α) (e : ε) : Except ε α :=
  match o with
  | some a => .ok a
  | none => .error e

@[simp] theorem okOr_ok {o : Option α} {e : ε} {a : α} :
    okOr o e = .ok a ↔ o = some a := by
  cases o with
  | none => exact ⟨fun h => (nomatch h), fun h => (nomatch h)⟩
  | some b => exact ⟨fun h => (by cases h; rfl), fun h => (by cases h; rfl)⟩

@[simp] theorem mapError_ok {ε' : Type} {x : Except ε α} {f : ε → ε'} {a : α} :
    x.mapError f = .ok a ↔ x = .ok a := by
  cases x with
  | error e => exact ⟨fun h => (nomatch h), fun h => (nomatch h)⟩
  | ok b => exact ⟨fun h => (by cases h; rfl), fun h => (by cases h; rfl)⟩

theorem mapError_error {ε' : Type} {x : Except ε α} {f : ε → ε'} {e : ε'}
    (h : x.mapError f = .error e) : ∃ e', e = f e' := by
  cases x with
  | error e' =>
    cases h
    exact ⟨e', rfl⟩
  | ok a => cases h

/-- Every error of `x` is one of `Q`. -/
def Fails (Q : ε → Prop) (x : Except ε α) : Prop := ∀ e, x = .error e → Q e

namespace Fails

variable {Q : ε → Prop}

theorem ok (a : α) : Fails Q (.ok a) := nofun

theorem error {e : ε} (h : Q e) : Fails Q (.error e : Except ε α) := by
  rintro e' he
  cases he
  exact h

theorem of_ensure {c : Prop} [Decidable c] {e : ε} (h : ¬c → Q e) : Fails Q (ensure c e) := by
  unfold ensure
  split
  · exact .ok ()
  · rename_i hc
    exact .error (h hc)

theorem of_okOr {o : Option α} {e : ε} (h : Q e) : Fails Q (okOr o e) := by
  cases o with
  | none => exact .error h
  | some a => exact .ok a

theorem bind {x : Except ε α} {f : α → Except ε β} (hx : Fails Q x)
    (hf : ∀ a, x = .ok a → Fails Q (f a)) : Fails Q (x >>= f) := by
  intro e he
  rcases bind_error he with he | ⟨a, ha, he⟩
  · exact hx e he
  · exact hf a ha e he

theorem foldlM {f : β → α → Except ε β} (hf : ∀ b a, Fails Q (f b a)) (xs : List α) :
    ∀ b, Fails Q (xs.foldlM f b) := by
  induction xs with
  | nil => exact fun b => .ok b
  | cons a xs ih =>
    intro b
    rw [List.foldlM_cons]
    exact (hf b a).bind fun b' _ => ih b'

end Fails

end Ensure
