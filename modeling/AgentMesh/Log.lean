/-
The log file: append with one fsync, torn-tail cut.

`Log.append` may die anywhere: before the first byte, after any number of
bytes, before the fsync, or after it.  `Log.open_` parses without touching the
file, and `Log.commitRecovery` cuts an incomplete final frame, or syncs frames
that were whole but never synced.

* `Log.append_cases` — an append leaves the log with one more frame, or with
  some part of it;
* `Log.recovers` — opening finds the frames of the log, or those and the one
  that was being appended, whole.
-/
import AgentMesh.Disk
import AgentMesh.Chain

open Std Mesh Framing

namespace Flock

variable {α : Type}

/-- How frames of the admission log become bytes. -/
def Primitives.frameCodec (P : Primitives) : Codec Frame :=
  ⟨P.frameCbor, P.frameOfCbor, P.frameFault, P.headerCheck⟩

def Primitives.refusalCodec (P : Primitives) : Codec RefusalEntry :=
  ⟨P.refusalCbor, P.refusalOfCbor, P.refusalFault, P.headerCheck⟩

/-- Header plus payload for one frame holding `value`. -/
def encode (c : Codec α) (value : α) : Except ServerError Bytes :=
  if Fits c value then .ok (bytes c value) else .error (.encoding "frame too large")

inductive Fault where
  /-- The seek fails. -/
  | seek
  /-- The first `n` bytes are written. -/
  | write (n : ℕ)
  /-- Everything is written, and the fsync does not happen. -/
  | beforeSync
  /-- Written and synced; the call dies before it returns. -/
  | afterSync
  deriving DecidableEq

structure Log where
  file : File
  end_ : ℕ
  /-- Where an incomplete final frame begins; cut by `commitRecovery`. -/
  cut : Option ℕ
  deriving DecidableEq

namespace Log

/-- Parse every frame.  Nothing is modified. -/
def open_ (c : Codec α) (file : File) : Except ServerError (Log × List (ℕ × α)) :=
  match parse c 0 file.contents with
  | .ok p => .ok (⟨file, p.end_, p.cut⟩, p.frames)
  | .error (offset, why) => .error (.corrupt offset why)

/-- Cut off the incomplete final frame, or sync whole frames that were never
synced. -/
def commitRecovery (l : Log) : Log :=
  match l.cut with
  | some at_ => { l with file := l.file.truncate at_, cut := none }
  | none => { l with file := l.file.sync }

/-- Write one frame and fsync it, or die on the way. -/
def append (c : Codec α) (l : Log) (value : α) (fault : Option Fault) :
    Log × Except ServerError Unit :=
  match encode c value with
  | .error e => (l, .error e)
  | .ok bs =>
    match fault with
    | some .seek => (l, .error (.io "injected crash"))
    | some (.write n) =>
      ({ l with file := l.file.writeAt l.end_ (bs.take n) }, .error (.io "injected crash"))
    | some .beforeSync =>
      ({ l with file := l.file.writeAt l.end_ bs }, .error (.io "injected crash"))
    | some .afterSync =>
      ({ l with file := (l.file.writeAt l.end_ bs).sync }, .error (.io "injected crash"))
    | none =>
      ({ l with file := (l.file.writeAt l.end_ bs).sync, end_ := l.end_ + bs.length }, .ok ())

/-- The log holds exactly the frames of `vs`, durably, and appends go after
them. -/
structure Clean (c : Codec α) (vs : List α) (l : Log) : Prop where
  file : l.file = ⟨bytesAll c vs, []⟩
  end_ : l.end_ = (bytesAll c vs).length
  fits : ∀ v ∈ vs, Fits c v

variable {c : Codec α} {vs : List α} {l l' : Log} {v : α} {fault : Option Fault}

/-- **What an append leaves**: one more frame, or some part of it. -/
theorem append_cases (h : l.Clean c vs) {r : Except ServerError Unit}
    (ha : l.append c v fault = (l', r)) :
    (r = .ok () ∧ l'.Clean c (vs ++ [v])) ∨
      ((∃ e, r = .error e) ∧ Torn c (· = v) vs l'.file) := by
  have hwrite : ∀ bs, l.file.writeAt l.end_ bs = ⟨bytesAll c vs, bs⟩ := by
    intro bs
    rw [h.file, h.end_, File.writeAt_end]
  rw [append, encode] at ha
  by_cases hv : Fits c v
  · rw [if_pos hv] at ha
    have hsync : (⟨bytesAll c vs, bytes c v⟩ : File).sync = ⟨bytesAll c (vs ++ [v]), []⟩ := by
      rw [File.sync, File.contents, bytesAll_snoc]
    cases fault with
    | none =>
      cases ha
      refine .inl ⟨rfl, by rw [hwrite, hsync], ?_, ?_⟩
      · rw [h.end_, bytesAll_snoc, List.length_append]
      · intro w hw
        rcases List.mem_append.mp hw with hw | hw
        · exact h.fits w hw
        · rw [List.mem_singleton.mp hw]
          exact hv
    | some fault =>
      right
      cases fault with
      | seek =>
        cases ha
        exact ⟨⟨_, rfl⟩, .clean h.file⟩
      | write n =>
        cases ha
        refine ⟨⟨_, rfl⟩, .partly v ((bytes c v).drop n) rfl hv ?_ ?_⟩
        · rw [hwrite]
        · rw [hwrite, List.take_append_drop]
      | beforeSync =>
        cases ha
        refine ⟨⟨_, rfl⟩, .partly v [] rfl hv ?_ ?_⟩
        · rw [hwrite]
        · rw [hwrite, List.append_nil]
      | afterSync =>
        cases ha
        exact ⟨⟨_, rfl⟩, .whole v rfl hv (by rw [hwrite, hsync])⟩
  · rw [if_neg hv] at ha
    cases ha
    exact .inr ⟨⟨_, rfl⟩, .clean h.file⟩

theorem append_done (h : l.Clean c vs) (ha : l.append c v fault = (l', .ok ())) :
    l'.Clean c (vs ++ [v]) := by
  obtain ⟨-, hclean⟩ | ⟨⟨e, he⟩, -⟩ := append_cases h ha
  · exact hclean
  · cases he

theorem append_failed (h : l.Clean c vs) {e : ServerError}
    (ha : l.append c v fault = (l', .error e)) : Torn c (· = v) vs l'.file := by
  obtain ⟨hok, -⟩ | ⟨-, htorn⟩ := append_cases h ha
  · cases hok
  · exact htorn

/-- **What recovery finds**: the frames of the log, or those and one more that
was whole in the file. -/
theorem recovers (hc : c.Lawful) {ok : α → Prop} {f : File} (h : Torn c ok vs f)
    (hfits : ∀ v ∈ vs, Fits c v) :
    ∃ ws l frames, Log.open_ c f = .ok (l, frames) ∧ frames.map (·.2) = ws ∧
      l.commitRecovery.Clean c ws ∧
      (ws = vs ∨ ∃ v, ok v ∧ ws = vs ++ [v] ∧ f.contents = bytesAll c ws) := by
  obtain ⟨ws, tail, hcontents, htail, hws⟩ := h.contents
  have hwsfits : ∀ v ∈ ws, Fits c v := by
    rcases hws with rfl | ⟨v, -, hv, rfl, -⟩
    · exact hfits
    · intro w hw
      rcases List.mem_append.mp hw with hw | hw
      · exact hfits w hw
      · rw [List.mem_singleton.mp hw]
        exact hv
  obtain ⟨frames, hparse, hframes⟩ := parse_bytesAll c hc htail 0 hwsfits
  rw [← hcontents, Nat.zero_add] at hparse
  have hopen : Log.open_ c f = .ok (⟨f, (bytesAll c ws).length,
      if tail = [] then none else some (bytesAll c ws).length⟩, frames) := by
    rw [open_, hparse]
  refine ⟨ws, _, frames, hopen, hframes, ?_, ?_⟩
  · by_cases ht : tail = []
    · -- everything is whole: it is only synced
      rw [if_pos ht]
      refine ⟨?_, rfl, hwsfits⟩
      rw [commitRecovery, File.sync, hcontents, ht, List.append_nil]
    · rw [if_neg ht]
      refine ⟨?_, rfl, hwsfits⟩
      simp only [commitRecovery, File.truncate, hcontents, List.take_left]
  · rcases hws with rfl | ⟨v, hv, -, rfl, ht⟩
    · exact .inl rfl
    · exact .inr ⟨v, hv, rfl, by rw [hcontents, ht, List.append_nil]⟩

end Log

end Flock
