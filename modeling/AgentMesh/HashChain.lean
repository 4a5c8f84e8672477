/-
Chains of nodes linked by the ids of their parents.

A general library: a node names the ids of its parents, and in a chain every
node names exactly the one before it.  If ids are injective, the id at one
place of a chain fixes everything up to that place.

* `Linked.parent` — each node of a chain names the one before it;
* `Linked.take_eq` — chains with the same id at one place agree up to it;
* `Linked.isPrefix` — so a chain that has another's last id at its place
  extends it;
* `Linked.eq_of_last` — and chains from nothing with the same last id are the
  same.
-/
import Mathlib.Data.Finset.Basic
import Mathlib.Data.List.Infix
import AgentMesh.Segments

namespace HashChain

variable {ν κ : Type}

/-- The parents of a node that comes after `prev`. -/
def after : Option κ → Finset κ
  | none => ∅
  | some k => {k}

/-- Every node names exactly the one before it, the first one `prev`. -/
def Linked (id : ν → κ) (parents : ν → Finset κ) : Option κ → List ν → Prop
  | _, [] => True
  | prev, n :: ns => parents n = after prev ∧ Linked id parents (some (id n)) ns

variable {id : ν → κ} {parents : ν → Finset κ}

namespace Linked

theorem snoc {l : List ν} {n : ν} :
    ∀ {prev : Option κ}, Linked id parents prev (l ++ [n]) ↔
      Linked id parents prev l ∧ parents n = after ((l.getLast?.map id).or prev) := by
  induction l with
  | nil =>
    intro prev
    exact ⟨fun h => ⟨trivial, h.1⟩, fun h => ⟨h.2, trivial⟩⟩
  | cons m l ih =>
    intro prev
    -- the end of a chain with a first node does not depend on what came before it
    have hend : (l.getLast?.map id).or (some (id m)) = ((m :: l).getLast?.map id).or prev := by
      cases l using List.reverseRecOn with
      | nil => rfl
      | append_singleton l k =>
        rw [← List.cons_append, List.getLast?_concat, List.getLast?_concat]
        rfl
    show parents m = after prev ∧ Linked id parents (some (id m)) (l ++ [n]) ↔
      (parents m = after prev ∧ Linked id parents (some (id m)) l) ∧ _
    rw [ih, hend, and_assoc]

/-- **Each node names the one before it.** -/
theorem parent {l : List ν} {i : ℕ} {n : ν} :
    ∀ {prev : Option κ}, Linked id parents prev l → l[i + 1]? = some n →
      ∃ m, l[i]? = some m ∧ parents n = {id m} := by
  induction l generalizing i with
  | nil =>
    intro prev _ hn
    simp at hn
  | cons m l ih =>
    intro prev h hn
    rw [List.getElem?_cons_succ] at hn
    cases i with
    | zero =>
      cases l with
      | nil => simp at hn
      | cons k l =>
        cases hn
        exact ⟨m, rfl, h.2.1⟩
    | succ i =>
      obtain ⟨k, hk, hparent⟩ := ih h.2 hn
      exact ⟨k, hk, hparent⟩

/-- **Chains with the same id at one place agree up to it.** -/
theorem take_eq (hinj : Function.Injective id) {p q : Option κ} {A B : List ν}
    (hA : Linked id parents p A) (hB : Linked id parents q B) {i : ℕ} {a b : ν}
    (ha : A[i]? = some a) (hb : B[i]? = some b) (hid : id a = id b) :
    A.take (i + 1) = B.take (i + 1) := by
  have hab : a = b := hinj hid
  induction i generalizing a b with
  | zero =>
    rw [Segments.take_succ_of_getElem? ha, Segments.take_succ_of_getElem? hb, hab]
    rfl
  | succ i ih =>
    obtain ⟨a', ha', hpa⟩ := hA.parent ha
    obtain ⟨b', hb', hpb⟩ := hB.parent hb
    -- equal nodes name equal parents
    have hparents : ({id a'} : Finset κ) = {id b'} := by rw [← hpa, ← hpb, hab]
    have hid' : id a' = id b' := Finset.singleton_injective hparents
    rw [Segments.take_succ_of_getElem? ha, Segments.take_succ_of_getElem? hb, hab,
      ih ha' hb' hid' (hinj hid')]

/-- A chain that has another's last id at its place extends it. -/
theorem isPrefix (hinj : Function.Injective id) {p q : Option κ} {A B : List ν}
    (hA : Linked id parents p A) (hB : Linked id parents q B) {a b : ν}
    (ha : A.getLast? = some a) (hb : B[A.length - 1]? = some b) (hid : id a = id b) : A <+: B := by
  have hne : A ≠ [] := by
    rintro rfl
    simp at ha
  have hlen : A.length - 1 + 1 = A.length := Nat.sub_add_cancel (List.length_pos_of_ne_nil hne)
  rw [List.getLast?_eq_getElem?] at ha
  have htake := hA.take_eq hinj hB ha hb hid
  rw [hlen, List.take_length] at htake
  rw [htake]
  exact List.take_prefix _ _

theorem after_injective : Function.Injective (after : Option κ → Finset κ) := by
  intro a b h
  cases a with
  | none =>
    cases b with
    | none => rfl
    | some k => exact absurd h.symm (Finset.singleton_ne_empty k)
  | some j =>
    cases b with
    | none => exact absurd h (Finset.singleton_ne_empty j)
    | some k => exact congrArg some (Finset.singleton_injective h)

/-- **The last id determines a chain from nothing**, its length included. -/
theorem eq_of_last (hinj : Function.Injective id) {A : List ν} :
    ∀ {B : List ν}, Linked id parents none A → Linked id parents none B →
      A.getLast?.map id = B.getLast?.map id → A = B := by
  induction A using List.reverseRecOn with
  | nil =>
    intro B _ _ h
    have hlast : B.getLast? = none := by simpa using h.symm
    exact (List.getLast?_eq_none_iff.mp hlast).symm
  | append_singleton A a ih =>
    intro B hA hB h
    induction B using List.reverseRecOn with
    | nil => simp at h
    | append_singleton B b _ =>
      rw [List.getLast?_concat, List.getLast?_concat, Option.map_some, Option.map_some,
        Option.some.injEq] at h
      obtain rfl : a = b := hinj h
      obtain ⟨hA, hpa⟩ := snoc.mp hA
      obtain ⟨hB, hpb⟩ := snoc.mp hB
      -- the common node names the ends of both
      have hends := after_injective (hpa.symm.trans hpb)
      rw [Option.or_none, Option.or_none] at hends
      rw [ih hA hB hends]

end Linked

end HashChain
