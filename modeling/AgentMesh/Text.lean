/-
The one place untrusted text becomes safe to print.

A terminal acts on control characters, so every string drawn on a screen
passes through `inert`, which spells such characters out.  The canonical data
is never changed; only what is drawn.

* `escaping` — the characters that are spelled out and how, as an `Escaping`;
* `toList_inert`, `toList_inertLines` — `inert` writes out exactly those, and
  `inert_lines` all of them but newlines.
-/
import AgentMesh.Escaping
import AgentMesh.Collections

namespace Flock

def isControl (c : Char) : Bool :=
  decide (c.toNat < 0x20) || decide (0x7f ≤ c.toNat ∧ c.toNat < 0xa0)

/-- Format characters, and the line and paragraph separators. -/
def formatRanges : List (ℕ × ℕ) :=
  [(0x00ad, 0x00ad), (0x0600, 0x0605), (0x061c, 0x061c), (0x06dd, 0x06dd), (0x070f, 0x070f),
    (0x0890, 0x0891), (0x08e2, 0x08e2), (0x180e, 0x180e), (0x200b, 0x200f), (0x2028, 0x202e),
    (0x2060, 0x2064), (0x2066, 0x206f), (0xfeff, 0xfeff), (0xfff9, 0xfffb), (0x110bd, 0x110bd),
    (0x110cd, 0x110cd), (0x13430, 0x1343f), (0x1bca0, 0x1bca3), (0x1d173, 0x1d17a),
    (0xe0001, 0xe0001), (0xe0020, 0xe007f)]

/-- Characters a terminal or a reader could mistake for something other than
text. -/
def needsEscape (c : Char) : Bool :=
  isControl c || formatRanges.any fun r => decide (r.1 ≤ c.toNat ∧ c.toNat ≤ r.2)

/-- What `spell` writes after the backslash. -/
def spelled (c : Char) : List Char :=
  if c = '\n' then ['n']
  else if c = '\r' then ['r']
  else if c = '\t' then ['t']
  else if c.toNat < 0x100 then 'x' :: (Nat.toDigits 16 c.toNat).leftpad 2 '0'
  else 'u' :: '{' :: Nat.toDigits 16 c.toNat ++ ['}']

def spell (c : Char) : List Char := '\\' :: spelled c

/-- `s` with every such character written out. -/
def inert (s : String) : String :=
  if s.toList.any needsEscape then
    String.ofList (s.toList.flatMap fun c => if needsEscape c then spell c else [c])
  else s

/-- `inert` for a block of lines the program itself composed: newlines stay. -/
def inertLines (s : String) : String :=
  if s.toList.any fun c => decide (c ≠ '\n') && needsEscape c then
    String.ofList (s.toList.flatMap fun c =>
      if decide (c ≠ '\n') && needsEscape c then spell c else [c])
  else s

/-! ### Spellings -/

theorem digitChar_plain {d : ℕ} (h : d < 16) :
    needsEscape d.digitChar = false ∧ d.digitChar ≠ '\\' ∧ d.digitChar ≠ '}' := by
  have hall : ∀ d < 16, needsEscape d.digitChar = false ∧ d.digitChar ≠ '\\' ∧
      d.digitChar ≠ '}' := by decide
  exact hall d h

theorem digitChar_inj {d e : ℕ} (hd : d < 16) (he : e < 16) (h : d.digitChar = e.digitChar) :
    d = e := by
  have hall : ∀ d < 16, ∀ e < 16, d.digitChar = e.digitChar → d = e := by decide
  exact hall d hd e he h

theorem toDigits_eq (n : ℕ) :
    Nat.toDigits 16 n =
      if n < 16 then [n.digitChar] else Nat.toDigits 16 (n / 16) ++ [(n % 16).digitChar] :=
  Nat.toDigits_eq_if (by decide)

theorem mem_toDigits {n : ℕ} {c : Char} (h : c ∈ Nat.toDigits 16 n) :
    ∃ d < 16, c = d.digitChar := by
  induction n using Nat.strongRecOn with
  | ind n ih =>
    rw [toDigits_eq] at h
    split at h
    · exact ⟨n, ‹_›, List.mem_singleton.mp h⟩
    · rcases List.mem_append.mp h with h | h
      · exact ih (n / 16) (by omega) h
      · exact ⟨n % 16, Nat.mod_lt _ (by decide), List.mem_singleton.mp h⟩

theorem toDigits_inj {m n : ℕ} (h : Nat.toDigits 16 m = Nat.toDigits 16 n) : m = n := by
  induction m using Nat.strongRecOn generalizing n with
  | ind m ih =>
    rw [toDigits_eq m, toDigits_eq n] at h
    split at h <;> split at h
    · exact digitChar_inj ‹_› ‹_› (List.cons.inj h).1
    · exact absurd (congrArg List.length h) (by simp)
    · exact absurd (congrArg List.length h) (by simp)
    · obtain ⟨hhigh, hlow⟩ := List.append_inj' h rfl
      have hdiv : m / 16 = n / 16 := ih (m / 16) (by omega) hhigh
      have hmod : m % 16 = n % 16 :=
        digitChar_inj (Nat.mod_lt _ (by decide)) (Nat.mod_lt _ (by decide)) (List.cons.inj hlow).1
      omega

theorem leftpad_toDigits {n : ℕ} (h : n < 0x100) :
    (Nat.toDigits 16 n).leftpad 2 '0' = [(n / 16).digitChar, (n % 16).digitChar] := by
  rw [toDigits_eq]
  split
  · rename_i hlow
    rw [Nat.div_eq_of_lt hlow, Nat.mod_eq_of_lt hlow]
    rfl
  · have hhigh : n / 16 < 16 := by omega
    rw [toDigits_eq, if_pos hhigh]
    rfl

theorem spelled_plain (c : Char) : ∀ d ∈ spelled c, needsEscape d = false ∧ d ≠ '\\' := by
  intro d hd
  have hdigit : d ∈ Nat.toDigits 16 c.toNat → needsEscape d = false ∧ d ≠ '\\' := by
    intro h
    obtain ⟨k, hk, rfl⟩ := mem_toDigits h
    exact ⟨(digitChar_plain hk).1, (digitChar_plain hk).2.1⟩
  unfold spelled at hd
  split_ifs at hd
  · rw [List.mem_singleton.mp hd]
    decide
  · rw [List.mem_singleton.mp hd]
    decide
  · rw [List.mem_singleton.mp hd]
    decide
  · rcases List.mem_cons.mp hd with rfl | hd
    · decide
    · rw [List.leftpad, List.mem_append] at hd
      rcases hd with hd | hd
      · rw [List.eq_of_mem_replicate hd]
        decide
      · exact hdigit hd
  · simp only [List.cons_append, List.mem_cons, List.mem_append, List.not_mem_nil, or_false] at hd
    rcases hd with rfl | rfl | hd | rfl
    · decide
    · decide
    · exact hdigit hd
    · decide

/-- Digits up to a closing brace are read back, whatever follows. -/
theorem toDigits_braced {m n : ℕ}
    (h : Nat.toDigits 16 m ++ ['}'] <+: Nat.toDigits 16 n ++ ['}']) : m = n := by
  have hno : ∀ k, ∀ c ∈ Nat.toDigits 16 k, (c != '}') = true := by
    intro k c hc
    obtain ⟨d, hd, rfl⟩ := mem_toDigits hc
    exact bne_iff_ne.mpr (digitChar_plain hd).2.2
  obtain ⟨more, h⟩ := h
  have htake := congrArg (List.takeWhile (· != '}')) h
  rw [List.append_assoc, List.takeWhile_append_of_pos (hno m),
    List.takeWhile_append_of_pos (hno n)] at htake
  exact toDigits_inj (by simpa using htake)

/-- How a character is spelled. -/
inductive Spelling : Char → List Char → Prop where
  | newline : Spelling '\n' ['n']
  | return_ : Spelling '\r' ['r']
  | tab : Spelling '\t' ['t']
  | short {c : Char} (h : c.toNat < 0x100) :
      Spelling c ['x', (c.toNat / 16).digitChar, (c.toNat % 16).digitChar]
  | long (c : Char) : Spelling c ('u' :: '{' :: (Nat.toDigits 16 c.toNat ++ ['}']))

theorem spelling (c : Char) : Spelling c (spelled c) := by
  unfold spelled
  split_ifs with hn hr ht hx
  · rw [hn]
    exact .newline
  · rw [hr]
    exact .return_
  · rw [ht]
    exact .tab
  · rw [leftpad_toDigits hx]
    exact .short hx
  · exact .long c

/-- **A spelling tells which character it is.** -/
theorem Spelling.inj {c d : Char} {l l' : List Char} (hc : Spelling c l) (hd : Spelling d l')
    (h : l <+: l') : c = d := by
  cases hc <;> cases hd <;> simp only [List.cons_prefix_cons] at h
  all_goals first | rfl | exact absurd h.1 (by decide) | skip
  · rename_i hc hd
    obtain ⟨-, hhigh, hlow, -⟩ := h
    have hdiv := digitChar_inj (by omega) (by omega) hhigh
    have hmod := digitChar_inj (by omega) (by omega) hlow
    exact Char.toNat_inj.mp (by omega)
  · exact Char.toNat_inj.mp (toDigits_braced h.2.2)

/-- The characters that are spelled out, and how. -/
def escaping : Escaping Char where
  needs := needsEscape
  mark := '\\'
  letters := spelled
  mark_plain := by decide
  letters_plain c _ := spelled_plain c
  letters_inj c d _ _ := (spelling c).inj (spelling d)

theorem toList_ite_ofList (b : Bool) (l : List Char) (s : String) :
    (if b then String.ofList l else s).toList = if b then l else s.toList := by
  cases b
  · rfl
  · exact String.toList_ofList

/-- **`inert` writes out exactly those.** -/
theorem toList_inert (s : String) : (inert s).toList = escaping.escape s.toList := by
  rw [inert, toList_ite_ofList]
  exact Escaping.escape_of_any (E := escaping) s.toList

/-- **`inert_lines` writes out those but newlines.** -/
theorem toList_inertLines (s : String) :
    (inertLines s).toList = (escaping.keeping '\n').escape s.toList := by
  rw [inertLines, toList_ite_ofList]
  exact Escaping.escape_of_any (E := escaping.keeping '\n') s.toList

/-! ### What is left -/

variable {s : String} {c : Char}

theorem of_stands (h : needsEscape c = false) :
    c ≠ '\n' ∧ isControl c = false ∧
      ∀ r ∈ formatRanges, ¬(r.1 ≤ c.toNat ∧ c.toNat ≤ r.2) := by
  obtain ⟨hcontrol, hformat⟩ := Bool.or_eq_false_iff.mp h
  refine ⟨?_, hcontrol, ?_⟩
  · intro hc
    rw [hc] at hcontrol
    exact absurd hcontrol (by decide)
  · intro r hr hin
    exact List.any_eq_false.mp hformat r hr (decide_eq_true hin)

theorem inert_stands (h : c ∈ (inert s).toList) : needsEscape c = false := by
  rw [toList_inert] at h
  exact Escaping.escape_plain s.toList c h

theorem inert_eq_self : inert s = s ↔ ∀ c ∈ s.toList, needsEscape c = false := by
  rw [← String.toList_inj, toList_inert]
  exact Escaping.escape_eq_self

theorem inert_inert (s : String) : inert (inert s) = inert s := by
  rw [← String.toList_inj, toList_inert, toList_inert]
  exact Escaping.escape_escape s.toList

theorem newline_not_mem_inert (s : String) : '\n' ∉ (inert s).toList :=
  fun h => (of_stands (inert_stands h)).1 rfl

theorem inertLines_stands (h : c ∈ (inertLines s).toList) : needsEscape c = true → c = '\n' := by
  rw [toList_inertLines] at h
  exact Escaping.keeping_needs.mp (Escaping.escape_plain s.toList c h)

theorem inertLines_eq_self :
    inertLines s = s ↔ ∀ c ∈ s.toList, needsEscape c = true → c = '\n' := by
  rw [← String.toList_inj, toList_inertLines, Escaping.escape_eq_self]
  exact forall₂_congr fun _ _ => Escaping.keeping_needs

theorem inertLines_inertLines (s : String) : inertLines (inertLines s) = inertLines s := by
  rw [← String.toList_inj, toList_inertLines, toList_inertLines]
  exact Escaping.escape_escape s.toList

theorem count_newline_inertLines (s : String) :
    (inertLines s).toList.count '\n' = s.toList.count '\n' := by
  rw [toList_inertLines]
  exact Escaping.count_keeping (E := escaping) (by decide) s.toList

end Flock
