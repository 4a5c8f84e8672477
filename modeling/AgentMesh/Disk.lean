/-
A file that may lose what was not synced.

A general library: the bytes of a file are those that are durable and, after
them, those written since the last sync.  A crash keeps the durable ones and
an arbitrary first part of the others.

* `File.Lost.trans` — losing more than once is losing once;
* `File.writeAt_end` — writing at the end of a synced file;
* `Torn.lost`, `Torn.contents` — a file of whole frames with one more frame
  being appended keeps that form over any crash, and what it holds.
-/
import AgentMesh.Framing

/-- The durable bytes of a file, and those written since the last sync. -/
structure File where
  durable : Bytes
  pending : Bytes
  deriving DecidableEq

namespace File

def contents (f : File) : Bytes := f.durable ++ f.pending

/-- Write `bs` at offset `at_`, which is not within the durable bytes. -/
def writeAt (f : File) (at_ : ℕ) (bs : Bytes) : File :=
  let k := at_ - f.durable.length
  { f with pending := f.pending.take k ++ bs ++ f.pending.drop (k + bs.length) }

def sync (f : File) : File := ⟨f.contents, []⟩

/-- Cut the file at `at_` and make that durable. -/
def truncate (f : File) (at_ : ℕ) : File := ⟨f.contents.take at_, []⟩

/-- `f'` is what a crash leaves of `f`. -/
def Lost (f f' : File) : Prop := f'.durable = f.durable ∧ ∃ t, f.pending = f'.pending ++ t

theorem Lost.refl (f : File) : f.Lost f := ⟨rfl, [], by simp⟩

theorem Lost.trans {f f' f'' : File} (h : f.Lost f') (h' : f'.Lost f'') : f.Lost f'' := by
  obtain ⟨hd, t, ht⟩ := h
  obtain ⟨hd', t', ht'⟩ := h'
  exact ⟨hd'.trans hd, t' ++ t, by rw [ht, ht', List.append_assoc]⟩

@[simp] theorem contents_synced (bs : Bytes) : (⟨bs, []⟩ : File).contents = bs := by
  simp [contents]

theorem writeAt_end (d bs : Bytes) : (⟨d, []⟩ : File).writeAt d.length bs = ⟨d, bs⟩ := by
  simp [writeAt]

end File

/-! ### A file of frames -/

namespace Framing

variable {α : Type} (c : Codec α)

/-- The file holds the frames of `vs`, and nothing else that matters: part of
the frame of some `v` may follow, whole and durable or not.  `ok v` is what is
known of that `v`. -/
inductive Torn (ok : α → Prop) (vs : List α) (f : File) : Prop where
  /-- Nothing is being appended. -/
  | clean (file : f = ⟨bytesAll c vs, []⟩)
  /-- Part of a frame is written and not synced. -/
  | partly (v : α) (t : Bytes) (known : ok v) (fits : Fits c v)
      (durable : f.durable = bytesAll c vs) (pending : f.pending ++ t = bytes c v)
  /-- A whole frame is written and synced. -/
  | whole (v : α) (known : ok v) (fits : Fits c v) (file : f = ⟨bytesAll c (vs ++ [v]), []⟩)

variable {c} {ok : α → Prop} {vs : List α} {f f' : File}

theorem Torn.imp {ok' : α → Prop} (h : Torn c ok vs f) (hok : ∀ v, ok v → ok' v) :
    Torn c ok' vs f := by
  cases h with
  | clean file => exact .clean file
  | partly v t known fits durable pending => exact .partly v t (hok v known) fits durable pending
  | whole v known fits file => exact .whole v (hok v known) fits file

theorem Torn.lost (h : Torn c ok vs f) (hl : f.Lost f') : Torn c ok vs f' := by
  obtain ⟨hd, t', ht'⟩ := hl
  cases h with
  | clean file =>
    subst file
    obtain ⟨d, p⟩ := f'
    rw [eq_comm, List.append_eq_nil_iff] at ht'
    exact .clean (by rw [show d = _ from hd, show p = _ from ht'.1])
  | partly v t known fits durable pending =>
    refine .partly v (t' ++ t) known fits (hd.trans durable) ?_
    rw [← List.append_assoc, ← ht', pending]
  | whole v known fits file =>
    subst file
    obtain ⟨d, p⟩ := f'
    rw [eq_comm, List.append_eq_nil_iff] at ht'
    exact .whole v known fits (by rw [show d = _ from hd, show p = _ from ht'.1])

/-- **What a reader finds**: the frames of `vs`, or those and one more whole
frame, and a torn tail. -/
theorem Torn.contents (h : Torn c ok vs f) :
    ∃ ws tail, f.contents = bytesAll c ws ++ tail ∧ TornTail c tail ∧
      (ws = vs ∨ ∃ v, ok v ∧ Fits c v ∧ ws = vs ++ [v] ∧ tail = []) := by
  cases h with
  | clean file => exact ⟨vs, [], by simp [file], .inl rfl, .inl rfl⟩
  | whole v known fits file =>
    exact ⟨vs ++ [v], [], by simp [file], .inl rfl, .inr ⟨v, known, fits, rfl, rfl⟩⟩
  | partly v t known fits durable pending =>
    by_cases ht : t = []
    · -- all of the frame was written
      subst ht
      rw [List.append_nil] at pending
      refine ⟨vs ++ [v], [], ?_, .inl rfl, .inr ⟨v, known, fits, rfl, rfl⟩⟩
      rw [File.contents, durable, pending, bytesAll_snoc, List.append_nil]
    · exact ⟨vs, f.pending, by rw [File.contents, durable], .inr ⟨v, t, fits, ht, pending⟩,
        .inl rfl⟩

end Framing
