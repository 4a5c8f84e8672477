/-
Replacing a file so that it survives power loss.

A general library: a directory with one file and the temporary file that is to
replace it.  Contents survive power loss once they are synced, and a rename
once the directory is; until then the file that was there before may come back.
Any operation may fail, with or without its effect, and the process may die in
it.

* `Dir.Kept` — whatever power loss leaves, it is no file or a synced one, and of
  a given kind; `Dir.Sure` — it is a file;
* `Kept.rename`, `Kept.powerLoss` and the like — every operation keeps that,
  if what is renamed over the file is synced and of that kind;
* `Kept.of_settled` — once the directory is synced, it is what is seen.
-/
import Mathlib.Data.List.Basic

/-- How an operation went.  One that did not return may still have had its
effect. -/
inductive Fate where
  | done
  | failed (effect : Bool)
  /-- The process died in it. -/
  | died (effect : Bool)
  deriving DecidableEq

def Fate.effect : Fate → Bool
  | .done => true
  | .failed e => e
  | .died e => e

def Fate.dies : Fate → Bool
  | .died _ => true
  | .done | .failed _ => false

inductive Ended where
  | done
  | failed
  | died
  deriving DecidableEq

/-- A file and its temporary file.  Contents come with whether they are
synced. -/
structure Dir (β : Type) where
  /-- What is seen under the file's name. -/
  file : Option (β × Bool)
  tmp : Option (β × Bool)
  /-- What the name may come back to if power is lost now. -/
  olds : List (Option (β × Bool))
  deriving DecidableEq

namespace Dir

variable {β : Type}

/-- Go on after an operation that returned. -/
def andThen (f : Fate) (d : Dir β) (k : Dir β → Dir β × Ended) : Dir β × Ended :=
  match f with
  | .done => k d
  | .failed _ => (d, .failed)
  | .died _ => (d, .died)

theorem andThen_done {f : Fate} {d : Dir β} {k : Dir β → Dir β × Ended} :
    (andThen f d k).2 = .done ↔ f = .done ∧ (k d).2 = .done := by
  cases f <;> simp [andThen]

/-- Create or truncate the temporary file with `b`; if that does not return it
is left as `junk`. -/
def write (d : Dir β) (b : β) (f : Fate) (junk : Option (β × Bool)) : Dir β :=
  { d with tmp := if f = .done then some (b, false) else junk }

/-- Make the contents of the temporary file durable. -/
def syncTmp (d : Dir β) (f : Fate) : Dir β :=
  { d with tmp := d.tmp.map fun c => (c.1, c.2 || f.effect) }

def syncFile (d : Dir β) (f : Fate) : Dir β :=
  { d with file := d.file.map fun c => (c.1, c.2 || f.effect) }

/-- Replace the file with the temporary file, not yet durably. -/
def rename (d : Dir β) (f : Fate) : Dir β :=
  if f.effect then
    match d.tmp with
    | none => d
    | some c => ⟨some c, none, d.file :: d.olds⟩
  else d

def syncDir (d : Dir β) (f : Fate) : Dir β := if f.effect then { d with olds := [] } else d

def remove (d : Dir β) (f : Fate) : Dir β := if f.effect then { d with tmp := none } else d

/-- Power is lost: one of the files that may come back does, and contents that
were not synced are `junk`. -/
def powerLoss (d : Dir β) (pick : ℕ) (junk : β) (tmp : Option (β × Bool)) : Dir β :=
  let c := (d.file :: d.olds)[pick]?.getD d.file
  ⟨c.map fun x => if x.2 then x else (junk, true), tmp, []⟩

/-- Whatever power loss leaves is no file or a synced one, and satisfies `Q`. -/
def Kept (Q : Option β → Prop) (d : Dir β) : Prop :=
  ∀ c ∈ d.file :: d.olds, ∃ x : Option β, c = x.map (·, true) ∧ Q x

namespace Kept

variable {Q Q' : Option β → Prop} {d : Dir β}

theorem imp (h : d.Kept Q) (hQ : ∀ x, Q x → Q' x) : d.Kept Q' := by
  intro c hc
  obtain ⟨x, hx, hq⟩ := h c hc
  exact ⟨x, hx, hQ x hq⟩

theorem of_settled {x : Option β} (hfile : d.file = x.map (·, true)) (holds : d.olds = [])
    (hx : Q x) : d.Kept Q := by
  intro c hc
  rw [hfile, holds, List.mem_singleton] at hc
  exact ⟨x, hc, hx⟩

theorem seen (h : d.Kept Q) : ∃ x : Option β, d.file = x.map (·, true) ∧ Q x :=
  h _ List.mem_cons_self

theorem andThen (h : d.Kept Q) {f : Fate} {k : Dir β → Dir β × Ended}
    (hk : f = .done → (k d).1.Kept Q) : (andThen f d k).1.Kept Q := by
  cases f with
  | done => exact hk rfl
  | failed | died => exact h

theorem write (h : d.Kept Q) (b : β) (f : Fate) (junk : Option (β × Bool)) :
    (d.write b f junk).Kept Q := h

theorem syncTmp (h : d.Kept Q) (f : Fate) : (d.syncTmp f).Kept Q := h

theorem remove (h : d.Kept Q) (f : Fate) : (d.remove f).Kept Q := by
  rw [Dir.remove]
  split
  · exact h
  · exact h

theorem syncFile (h : d.Kept Q) (f : Fate) : (d.syncFile f).Kept Q := by
  obtain ⟨x, hx, -⟩ := h.seen
  have hsame : (d.syncFile f).file = d.file := by
    rw [Dir.syncFile, hx]
    cases x with
    | none => rfl
    | some b => simp
  intro c hc
  rw [hsame] at hc
  exact h c hc

theorem syncDir (h : d.Kept Q) (f : Fate) : (d.syncDir f).Kept Q := by
  rw [Dir.syncDir]
  split
  · intro c hc
    exact h c (List.mem_cons.mpr (.inl (List.mem_singleton.mp hc)))
  · exact h

/-- **Renaming a synced file over it.** -/
theorem rename (h : d.Kept Q) {b : β} (htmp : d.tmp = some (b, true)) (hb : Q (some b)) (f : Fate) :
    (d.rename f).Kept Q := by
  rw [Dir.rename, htmp]
  split
  · intro c hc
    rcases List.mem_cons.mp hc with rfl | hc
    · exact ⟨some b, rfl, hb⟩
    · exact h c hc
  · exact h

/-- **Power loss leaves what was kept.** -/
theorem powerLoss (h : d.Kept Q) (pick : ℕ) (junk : β) (tmp : Option (β × Bool)) :
    (d.powerLoss pick junk tmp).Kept Q := by
  have hpick : (d.file :: d.olds)[pick]?.getD d.file ∈ d.file :: d.olds := by
    cases hc : (d.file :: d.olds)[pick]? with
    | none => exact List.mem_cons_self
    | some c => exact List.mem_of_getElem? hc
  obtain ⟨x, hx, hq⟩ := h _ hpick
  refine of_settled ?_ rfl hq
  show Option.map _ _ = _
  rw [hx]
  cases x with
  | none => rfl
  | some b => rfl

end Kept

/-- Whatever power loss leaves is a synced file that satisfies `Q`. -/
def Sure (Q : β → Prop) (d : Dir β) : Prop :=
  ∀ c ∈ d.file :: d.olds, ∃ b, c = some (b, true) ∧ Q b

variable {Q : β → Prop} {d : Dir β}

theorem sure_iff_kept : d.Sure Q ↔ d.Kept fun x => ∃ b, x = some b ∧ Q b := by
  constructor
  · intro h c hc
    obtain ⟨b, hb, hq⟩ := h c hc
    exact ⟨some b, hb, b, rfl, hq⟩
  · intro h c hc
    obtain ⟨x, hx, b, rfl, hq⟩ := h c hc
    exact ⟨b, hx, hq⟩

namespace Sure

theorem of_settled {b : β} (hfile : d.file = some (b, true)) (holds : d.olds = []) (hb : Q b) :
    d.Sure Q :=
  sure_iff_kept.mpr (Kept.of_settled (x := some b) hfile holds ⟨b, rfl, hb⟩)

theorem seen (h : d.Sure Q) : ∃ b, d.file = some (b, true) ∧ Q b := h _ List.mem_cons_self

theorem andThen (h : d.Sure Q) {f : Fate} {k : Dir β → Dir β × Ended}
    (hk : f = .done → (k d).1.Sure Q) : (andThen f d k).1.Sure Q :=
  sure_iff_kept.mpr ((sure_iff_kept.mp h).andThen fun hf => sure_iff_kept.mp (hk hf))

theorem write (h : d.Sure Q) (b : β) (f : Fate) (junk : Option (β × Bool)) :
    (d.write b f junk).Sure Q := h

theorem syncTmp (h : d.Sure Q) (f : Fate) : (d.syncTmp f).Sure Q := h

theorem remove (h : d.Sure Q) (f : Fate) : (d.remove f).Sure Q :=
  sure_iff_kept.mpr ((sure_iff_kept.mp h).remove f)

theorem syncFile (h : d.Sure Q) (f : Fate) : (d.syncFile f).Sure Q :=
  sure_iff_kept.mpr ((sure_iff_kept.mp h).syncFile f)

theorem syncDir (h : d.Sure Q) (f : Fate) : (d.syncDir f).Sure Q :=
  sure_iff_kept.mpr ((sure_iff_kept.mp h).syncDir f)

theorem rename (h : d.Sure Q) {b : β} (htmp : d.tmp = some (b, true)) (hb : Q b) (f : Fate) :
    (d.rename f).Sure Q :=
  sure_iff_kept.mpr ((sure_iff_kept.mp h).rename htmp ⟨b, rfl, hb⟩ f)

theorem powerLoss (h : d.Sure Q) (pick : ℕ) (junk : β) (tmp : Option (β × Bool)) :
    (d.powerLoss pick junk tmp).Sure Q :=
  sure_iff_kept.mpr ((sure_iff_kept.mp h).powerLoss pick junk tmp)

end Sure

end Dir
