/-
Decimal numbers as bytes.

A general library: a number is written as its decimal digits, most significant
first, with no leading zeros; reading takes any digits.

* `value_encode` — what is written reads back;
* `length_encode_le` — a number below `10 ^ k` has at most `k` digits;
* `list` — a byte string as a bracketed list of numbers; `width_list_le` — such
  a list, written as a byte string in its turn, has at most twelve characters
  for every byte.
-/
import Mathlib.Data.Nat.Digits.Lemmas
import AgentMesh.Content

namespace Decimal

def digit (d : ℕ) : UInt8 := UInt8.ofNat (48 + d)

def isDigit (c : UInt8) : Bool := decide (48 ≤ c.toNat ∧ c.toNat ≤ 57)

def encode (n : ℕ) : Bytes := if n = 0 then [48] else (Nat.digits 10 n).reverse.map digit

def valueFrom : ℕ → Bytes → Option ℕ
  | acc, [] => some acc
  | acc, c :: cs => if isDigit c then valueFrom (acc * 10 + (c.toNat - 48)) cs else none

def value (b : Bytes) : Option ℕ := valueFrom 0 b

theorem digit_toNat {d : ℕ} (h : d < 10) : (digit d).toNat = 48 + d := by
  rw [digit, UInt8.toNat_ofNat']
  omega

theorem isDigit_digit {d : ℕ} (h : d < 10) : isDigit (digit d) = true := by
  rw [isDigit, digit_toNat h]
  exact decide_eq_true ⟨by omega, by omega⟩

theorem valueFrom_snoc (acc : ℕ) (b : Bytes) {d : ℕ} (h : d < 10) :
    valueFrom acc (b ++ [digit d]) = (valueFrom acc b).map fun n => n * 10 + d := by
  induction b generalizing acc with
  | nil =>
    have hsub : (digit d).toNat - 48 = d := by rw [digit_toNat h]; omega
    show (if isDigit (digit d) then valueFrom (acc * 10 + ((digit d).toNat - 48)) [] else none) = _
    rw [if_pos (isDigit_digit h), hsub]
    rfl
  | cons c b ih =>
    rw [List.cons_append, valueFrom, valueFrom]
    split
    · exact ih _
    · rfl

theorem value_digits {ds : List ℕ} (h : ∀ d ∈ ds, d < 10) :
    value (ds.reverse.map digit) = some (Nat.ofDigits 10 ds) := by
  induction ds with
  | nil => rfl
  | cons d ds ih =>
    have hd : d < 10 := h d List.mem_cons_self
    have hds := ih fun d' hd' => h d' (List.mem_cons_of_mem _ hd')
    rw [value] at hds
    rw [value, List.reverse_cons, List.map_append, List.map_singleton, valueFrom_snoc _ _ hd, hds,
      Option.map_some, Nat.ofDigits_cons]
    congr 1
    omega

/-- **What is written reads back.** -/
theorem value_encode (n : ℕ) : value (encode n) = some n := by
  rw [encode]
  split
  · rename_i h
    rw [h]
    rfl
  · rw [value_digits fun d hd => Nat.digits_lt_base (by omega) hd, Nat.ofDigits_digits]

theorem encode_digits (n : ℕ) : encode n ≠ [] ∧ ∀ c ∈ encode n, isDigit c = true := by
  rw [encode]
  split
  · refine ⟨by simp, fun c hc => ?_⟩
    rw [List.mem_singleton.mp hc]
    rfl
  · rename_i h
    constructor
    · have hne := Nat.digits_ne_nil_iff_ne_zero (b := 10) |>.mpr h
      simpa using hne
    · intro c hc
      obtain ⟨d, hd, rfl⟩ := List.mem_map.mp hc
      exact isDigit_digit (Nat.digits_lt_base (by omega) (List.mem_reverse.mp hd))

/-- **A number below `10 ^ k` has at most `k` digits.** -/
theorem length_encode_le {k n : ℕ} (hk : 0 < k) (h : n < 10 ^ k) : (encode n).length ≤ k := by
  rw [encode]
  split
  · exact hk
  · rw [List.length_map, List.length_reverse]
    exact (Nat.digits_length_le_iff (by omega) n).mpr h

/-! ### Byte strings as lists -/

/-- The numbers of a byte string, with commas between them. -/
def items : Bytes → Bytes
  | [] => []
  | [c] => encode c.toNat
  | c :: d :: ds => encode c.toNat ++ 44 :: items (d :: ds)

/-- A byte string as a bracketed list of numbers. -/
def list (b : Bytes) : Bytes := 91 :: items b ++ [93]

/-- The characters of the numbers of a byte string, each with its comma. -/
def width (b : Bytes) : ℕ := (b.map fun c => (encode c.toNat).length + 1).sum

@[simp] theorem width_append (a b : Bytes) : width (a ++ b) = width a + width b := by
  simp [width]

theorem length_items_le (b : Bytes) : (items b).length ≤ width b := by
  induction b with
  | nil => exact Nat.zero_le _
  | cons c b ih =>
    cases b with
    | nil => simp [items, width]
    | cons d ds =>
      have hwidth : width (c :: d :: ds) = (encode c.toNat).length + 1 + width (d :: ds) := rfl
      rw [items, List.length_append, List.length_cons, hwidth]
      omega

theorem length_list_le (b : Bytes) : (list b).length ≤ width b + 2 := by
  have hitems := length_items_le b
  rw [list, List.length_append, List.length_cons, List.length_singleton]
  omega

/-- If every byte is below `10 ^ k`, a byte string has at most `k` digits and a
comma for each. -/
theorem width_le_of_lt {k : ℕ} (hk : 0 < k) {b : Bytes} (h : ∀ c ∈ b, c.toNat < 10 ^ k) :
    width b ≤ (k + 1) * b.length := by
  induction b with
  | nil => exact Nat.zero_le _
  | cons c b ih =>
    have hc : (encode c.toNat).length ≤ k := length_encode_le hk (h c List.mem_cons_self)
    have hb := ih fun d hd => h d (List.mem_cons_of_mem _ hd)
    have hwidth : width (c :: b) = (encode c.toNat).length + 1 + width b := rfl
    rw [hwidth, List.length_cons, Nat.mul_succ]
    omega

theorem width_le (b : Bytes) : width b ≤ 4 * b.length :=
  width_le_of_lt (by omega) fun c _ => by
    have hc := c.toNat_lt
    omega

/-- The digits, commas and brackets of a list have two digits themselves. -/
theorem lt_of_mem_list {b : Bytes} {c : UInt8} (h : c ∈ list b) : c.toNat < 100 := by
  have hdigit : ∀ n, ∀ c ∈ encode n, c.toNat < 100 := by
    intro n c hc
    have hrange := of_decide_eq_true ((encode_digits n).2 c hc)
    omega
  have hitems : ∀ b : Bytes, ∀ c ∈ items b, c.toNat < 100 := by
    intro b
    induction b with
    | nil => exact fun c hc => absurd hc List.not_mem_nil
    | cons d b ih =>
      intro c hc
      cases b with
      | nil => exact hdigit _ c hc
      | cons e es =>
        rcases List.mem_append.mp hc with hc | hc
        · exact hdigit _ c hc
        · rcases List.mem_cons.mp hc with rfl | hc
          · decide
          · exact ih c hc
  rcases List.mem_append.mp h with hc | hc
  · rcases List.mem_cons.mp hc with rfl | hc
    · decide
    · exact hitems b c hc
  · rw [List.mem_singleton.mp hc]
    decide

/-- **A list of bytes inside a list of bytes**: at most four characters for a
byte, and at most three for each of those. -/
theorem width_list_le (b : Bytes) : width (list b) ≤ 12 * b.length + 6 := by
  have hlist : width (list b) ≤ 3 * (list b).length :=
    width_le_of_lt (by omega) fun c hc => lt_of_mem_list hc
  have hlength := length_list_le b
  have hwidth := width_le b
  omega

end Decimal
