/-
Writing symbols out.

A general library: some symbols may not stand in a text, and each of them is
written out as a mark and a few letters.  The mark itself stays as it is, so a
text may hold, symbol by symbol, what another one gets by writing a symbol out.

* `Escaping.escape_plain`, `Escaping.escape_eq_self`, `Escaping.escape_escape` —
  what is left can stand, a text that can stand is left alone, and doing it
  twice changes nothing;
* `Escaping.count_keeping` — where one symbol is kept, it is there as often as
  before;
* `Escaping.escape_inj` — two texts that hold no written-out symbol of
  their own are told apart;
* `Escaping.alone_iff` — which texts of a bounded size are told apart from all
  others.
-/
import Mathlib.Data.List.Infix

/-- Which symbols are written out, and how. -/
structure Escaping (α : Type) where
  /-- The symbols that may not stand. -/
  needs : α → Bool
  /-- What every written-out symbol starts with. -/
  mark : α
  /-- What follows the mark. -/
  letters : α → List α
  mark_plain : needs mark = false
  letters_plain : ∀ c, needs c = true → ∀ d ∈ letters c, needs d = false ∧ d ≠ mark
  letters_inj : ∀ c d, needs c = true → needs d = true → letters c <+: letters d → c = d

namespace Escaping

variable {α : Type} (E : Escaping α)

def spell (c : α) : List α := E.mark :: E.letters c

def write (c : α) : List α := if E.needs c then E.spell c else [c]

def escape (s : List α) : List α := s.flatMap E.write

/-- No symbol stands written out in the text. -/
def Unspelled (s : List α) : Prop := ∀ c, E.needs c = true → ¬E.spell c <:+: s

variable {E} {c : α} {s t : List α}

@[simp] theorem escape_nil : E.escape [] = [] := rfl

@[simp] theorem escape_cons : E.escape (c :: s) = E.write c ++ E.escape s := rfl

theorem write_of_needs (h : E.needs c = true) : E.write c = E.mark :: E.letters c := if_pos h

theorem write_of_plain (h : E.needs c = false) : E.write c = [c] :=
  if_neg (by rw [h]; exact Bool.false_ne_true)

theorem write_cases (c : α) :
    (E.needs c = true ∧ E.write c = E.mark :: E.letters c) ∨
      (E.needs c = false ∧ E.write c = [c]) := by
  cases hc : E.needs c with
  | true => exact .inl ⟨rfl, write_of_needs hc⟩
  | false => exact .inr ⟨rfl, write_of_plain hc⟩

theorem spell_plain (hc : E.needs c = true) : ∀ d ∈ E.spell c, E.needs d = false := by
  intro d hd
  rcases List.mem_cons.mp hd with rfl | hd
  · exact E.mark_plain
  · exact (E.letters_plain c hc d hd).1

theorem write_plain (c : α) : ∀ d ∈ E.write c, E.needs d = false := by
  intro d hd
  rcases E.write_cases c with ⟨hc, hw⟩ | ⟨hc, hw⟩
  · rw [hw] at hd
    exact spell_plain hc d hd
  · rw [hw, List.mem_singleton] at hd
    rw [hd]
    exact hc

theorem escape_cons_ne_nil (c : α) (s : List α) : E.escape (c :: s) ≠ [] := by
  intro h
  rcases E.write_cases c with ⟨-, hw⟩ | ⟨-, hw⟩ <;> rw [escape_cons, hw] at h <;> cases h

/-- **What is left can stand.** -/
theorem escape_plain (s : List α) : ∀ d ∈ E.escape s, E.needs d = false := by
  intro d hd
  obtain ⟨c, -, hc⟩ := List.mem_flatMap.mp hd
  exact write_plain c d hc

/-- **A text that can stand is left alone**, and only such a text is. -/
theorem escape_eq_self : E.escape s = s ↔ ∀ c ∈ s, E.needs c = false := by
  constructor
  · intro h c hc
    rw [← h] at hc
    exact escape_plain s c hc
  · intro h
    induction s with
    | nil => rfl
    | cons c s ih =>
      rw [escape_cons, write_of_plain (h c List.mem_cons_self),
        ih fun d hd => h d (List.mem_cons_of_mem _ hd)]
      rfl

theorem escape_escape (s : List α) : E.escape (E.escape s) = E.escape s :=
  escape_eq_self.mpr (escape_plain s)

/-- Looking first whether there is anything to write out changes nothing. -/
theorem escape_of_any (s : List α) : (if s.any E.needs then E.escape s else s) = E.escape s := by
  split
  · rfl
  · rename_i hany
    refine (escape_eq_self.mpr fun c hc => ?_).symm
    rw [← Bool.not_eq_true]
    intro hneeds
    exact hany (List.any_eq_true.mpr ⟨c, hc, hneeds⟩)

/-! ### Keeping a symbol -/

section Keeping

variable [DecidableEq α]

variable (E) in
/-- The same spellings, with the symbol `k` left to stand. -/
def keeping (k : α) : Escaping α where
  needs c := decide (c ≠ k) && E.needs c
  mark := E.mark
  letters := E.letters
  mark_plain := by rw [E.mark_plain, Bool.and_false]
  letters_plain c hc d hd := by
    obtain ⟨hplain, hmark⟩ := E.letters_plain c (Bool.and_eq_true_iff.mp hc).2 d hd
    exact ⟨by rw [hplain, Bool.and_false], hmark⟩
  letters_inj c d hc hd :=
    E.letters_inj c d (Bool.and_eq_true_iff.mp hc).2 (Bool.and_eq_true_iff.mp hd).2

variable {k : α}

theorem keeping_needs : (E.keeping k).needs c = false ↔ (E.needs c = true → c = k) := by
  show (decide (c ≠ k) && E.needs c) = false ↔ _
  rw [Bool.and_eq_false_iff, decide_eq_false_iff_not, not_not]
  constructor
  · rintro (h | h) hneeds
    · exact h
    · rw [h] at hneeds
      cases hneeds
  · intro h
    cases hneeds : E.needs c with
    | false => exact .inr rfl
    | true => exact .inl (h hneeds)

theorem count_write_keeping (hk : E.needs k = true) (c : α) :
    ((E.keeping k).write c).count k = [c].count k := by
  rcases (E.keeping k).write_cases c with ⟨hc, hw⟩ | ⟨-, hw⟩
  · -- neither the mark nor a letter needs writing out, and `k` does
    obtain ⟨hne, hneeds⟩ := Bool.and_eq_true_iff.mp hc
    have hck : c ≠ k := of_decide_eq_true hne
    have hspelled : k ∉ E.mark :: E.letters c := by
      intro hmem
      rw [spell_plain hneeds k hmem] at hk
      cases hk
    rw [hw, List.count_eq_zero.mpr (List.mem_singleton.not.mpr hck.symm)]
    exact List.count_eq_zero.mpr hspelled
  · rw [hw]

/-- **A symbol that is kept is there as often as before.** -/
theorem count_keeping (hk : E.needs k = true) (s : List α) :
    ((E.keeping k).escape s).count k = s.count k := by
  induction s with
  | nil => rfl
  | cons c s ih =>
    rw [escape_cons, List.count_append, count_write_keeping hk, ih, ← List.count_append]
    rfl

end Keeping

/-! ### Telling texts apart -/

theorem Unspelled.tail (h : E.Unspelled (c :: s)) : E.Unspelled s := by
  intro d hd hs
  exact h d hd (hs.trans (List.suffix_cons c s).isInfix)

theorem unspelled_of_no_mark (h : E.mark ∉ s) : E.Unspelled s := by
  intro c _ hs
  exact h (hs.subset List.mem_cons_self)

/-- Letters at the front of an escaped text stand at the front of the text. -/
theorem isPrefix_of_escape {ls rest : List α} :
    ∀ {s : List α}, (∀ d ∈ ls, d ≠ E.mark) → ls ++ rest = E.escape s → ls <+: s := by
  induction ls with
  | nil => exact fun _ _ => List.nil_prefix
  | cons l ls ih =>
    intro s hls heq
    cases s with
    | nil => cases heq
    | cons c s =>
      rw [escape_cons] at heq
      rcases E.write_cases c with ⟨-, hw⟩ | ⟨-, hw⟩
      · -- a written-out symbol would start with the mark
        rw [hw] at heq
        exact absurd (List.cons.inj heq).1 (hls l List.mem_cons_self)
      · rw [hw] at heq
        obtain ⟨hl, heq⟩ := List.cons.inj heq
        have hs : ls <+: s := ih (fun d hd => hls d (List.mem_cons_of_mem _ hd)) heq
        exact List.cons_prefix_cons.mpr ⟨hl, hs⟩

theorem write_ne_plain {d : α} (hc : E.needs c = true) (hd : E.needs d = false)
    (ht : E.Unspelled (d :: t)) : E.escape (c :: s) ≠ E.escape (d :: t) := by
  intro heq
  rw [escape_cons, escape_cons, write_of_needs hc, write_of_plain hd] at heq
  obtain ⟨hmark, heq⟩ := List.cons.inj heq
  have hletters : E.letters c <+: t :=
    isPrefix_of_escape (fun l hl => (E.letters_plain c hc l hl).2) heq
  refine ht c hc (List.IsPrefix.isInfix ?_)
  rw [spell, hmark]
  exact List.cons_prefix_cons.mpr ⟨rfl, hletters⟩

/-- **Texts without a written-out symbol of their own are told apart.** -/
theorem escape_inj (hs : E.Unspelled s) (ht : E.Unspelled t) (h : E.escape s = E.escape t) :
    s = t := by
  induction s generalizing t with
  | nil =>
    cases t with
    | nil => rfl
    | cons d t => exact absurd h.symm (escape_cons_ne_nil d t)
  | cons c s ih =>
    cases t with
    | nil => exact absurd h (escape_cons_ne_nil c s)
    | cons d t =>
      rcases E.write_cases c with ⟨hc, hwc⟩ | ⟨hc, hwc⟩ <;>
        rcases E.write_cases d with ⟨hd, hwd⟩ | ⟨hd, hwd⟩
      · -- both written out: one spelling starts the other
        rw [escape_cons, escape_cons, hwc, hwd] at h
        have htails := (List.cons.inj h).2
        have hcd : c = d := by
          rcases List.append_eq_append_iff.mp htails with ⟨more, heq, -⟩ | ⟨more, heq, -⟩
          · exact E.letters_inj c d hc hd ⟨more, heq.symm⟩
          · exact (E.letters_inj d c hd hc ⟨more, heq.symm⟩).symm
        subst hcd
        rw [ih hs.tail ht.tail (List.append_cancel_left htails)]
      · exact absurd h (write_ne_plain hc hd ht)
      · exact absurd h.symm (write_ne_plain hd hc hs)
      · rw [escape_cons, escape_cons, hwc, hwd] at h
        obtain ⟨hcd, htails⟩ := List.cons.inj h
        rw [hcd, ih hs.tail ht.tail htails]

/-! ### Texts told apart from all others -/

theorem escape_respell (hc : E.needs c = true) (pre post : List α) :
    E.escape (pre ++ E.spell c ++ post) = E.escape (pre ++ c :: post) := by
  have happend : ∀ s t : List α, E.escape (s ++ t) = E.escape s ++ E.escape t :=
    fun s t => List.flatMap_append
  rw [happend, happend, happend, escape_eq_self.mpr (spell_plain hc), escape_cons,
    write_of_needs hc, List.append_assoc]
  rfl

theorem respell_ne (hc : E.needs c = true) (pre post : List α) :
    pre ++ E.spell c ++ post ≠ pre ++ c :: post := by
  intro h
  rw [List.append_assoc] at h
  have hmark := (List.cons.inj (List.append_cancel_left h)).1
  rw [← hmark, E.mark_plain] at hc
  cases hc

section Size

variable {size : List α → ℕ} (hadd : ∀ s t, size (s ++ t) = size s + size t)
  (hsize : ∀ c, E.needs c = true → size [c] ≤ size (E.spell c))

include hadd hsize

theorem size_respell (hc : E.needs c = true) (pre post : List α) :
    size (pre ++ c :: post) ≤ size (pre ++ E.spell c ++ post) := by
  have hcons : c :: post = [c] ++ post := rfl
  rw [hcons, hadd, hadd, hadd, hadd]
  have hle := hsize c hc
  omega

/-- **What is written like a text without spellings** is that text, or takes as
much room as the text with one of its symbols spelled out. -/
theorem eq_or_respelled (hs : E.Unspelled s) {t : List α} (h : E.escape t = E.escape s) :
    t = s ∨ ∃ pre c post, s = pre ++ c :: post ∧ E.needs c = true ∧
      size (pre ++ E.spell c ++ post) ≤ size t := by
  -- put back one spelled symbol after another: each time fewer symbols can stand
  induction hn : t.countP (fun c => !E.needs c) using Nat.strongRecOn generalizing t with
  | ind n ih =>
    by_cases ht : E.Unspelled t
    · exact .inl (escape_inj ht hs h)
    · rw [Unspelled] at ht
      push Not at ht
      obtain ⟨c, hc, pre, post, rfl⟩ := ht
      have hfewer : (pre ++ c :: post).countP (fun c => !E.needs c) < n := by
        rw [← hn]
        simp only [spell, List.countP_append, List.countP_cons, E.mark_plain, hc, Bool.not_false,
          Bool.not_true, if_true, Bool.false_eq_true, if_false]
        omega
      rcases ih _ hfewer ((escape_respell hc pre post).symm.trans h) rfl with
        rfl | ⟨pre', d, post', hs', hd, hle⟩
      · exact .inr ⟨pre, c, post, rfl, hc, Nat.le_refl _⟩
      · exact .inr ⟨pre', d, post', hs', hd, hle.trans (size_respell hadd hsize hc pre post)⟩

/-- **Which texts are told apart from all others**, among the texts that fit:
those that hold no spelling, and none of whose symbols could be spelled out
within the same bounds. -/
theorem alone_iff {fits : List α → Prop} (hs : fits s)
    (hfits : ∀ t u, fits u → t ≠ [] → size t ≤ size u → fits t) :
    (∀ t, fits t → E.escape t = E.escape s → t = s) ↔
      E.Unspelled s ∧ ∀ pre c post, s = pre ++ c :: post → E.needs c = true →
        ¬fits (pre ++ E.spell c ++ post) := by
  constructor
  · intro halone
    refine ⟨?_, ?_⟩
    · rintro c hc ⟨pre, post, rfl⟩
      have hfit : fits (pre ++ c :: post) :=
        hfits _ _ hs (by simp) (size_respell hadd hsize hc pre post)
      exact respell_ne hc pre post (halone _ hfit (escape_respell hc pre post).symm).symm
    · rintro pre c post rfl hc hfit
      exact respell_ne hc pre post (halone _ hfit (escape_respell hc pre post))
  · rintro ⟨hunspelled, hnone⟩ t ht h
    rcases eq_or_respelled hadd hsize hunspelled h with heq | ⟨pre, c, post, heq, hc, hle⟩
    · exact heq
    · exact absurd (hfits _ _ ht (by simp [spell]) hle) (hnone pre c post heq hc)

end Size

end Escaping
