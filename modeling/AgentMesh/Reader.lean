/-
The reader of a flock and its saved state.

A reader holds a verified prefix of the log and saves the frames themselves, so
that the state is derived by replay.  A save writes a temporary file, syncs it,
renames it over the saved one and syncs the directory; opening makes what it
found durable before it shows it.

* `saveAtomic_keeps`, `saveAtomic_done` — what a save leaves on disk, whether
  or not it returned;
* `Reader.open_ok` — what opening established;
* `Readers.Keeps` — every prefix a reader has shown is part of whatever power
  loss may leave;
* `reader_keeps_shown` — nothing a reader has shown is lost;
* `Reader.followOn_runs` — following a stream is a run of such calls.
-/
import AgentMesh.Replace
import AgentMesh.Framing
import AgentMesh.Ideal

open Std Mesh Framing

namespace Flock

/-! ### The model -/

structure Checkpoint where
  frames : List (List Sealed)
  deriving DecidableEq

inductive ReaderError where
  /-- A live process holds the lock. -/
  | locked
  | rollback (why : String)
  | invalid (why : String)
  | stream (why : String)
  | io
  /-- A verified frame could not be saved. -/
  | save
  | wire (e : ServerError)
  deriving DecidableEq

/-- How a refused frame is reported. -/
def follow : FollowError → ReaderError
  | .doesNotExtend w => .rollback w
  | .invalid w => .invalid w

structure SavePlan where
  write : Fate
  /-- What a write that did not return leaves. -/
  junk : Option (Bytes × Bool)
  syncFile : Fate
  rename : Fate
  syncDir : Fate

/-- Replace the file with `bytes` so that, once this returns, the new contents
survive power loss. -/
def saveAtomic (d : Dir Bytes) (bytes : Bytes) (p : SavePlan) : Dir Bytes × Ended :=
  Dir.andThen p.write (d.write bytes p.write p.junk) fun d =>
  Dir.andThen p.syncFile (d.syncTmp p.syncFile) fun d =>
  Dir.andThen p.rename (d.rename p.rename) fun d =>
  Dir.andThen p.syncDir (d.syncDir p.syncDir) fun d => (d, .done)

/-- How the request for the directory's lock goes. -/
inductive LockFate where
  | done
  | wouldBlock
  | failed
  | died

structure OpenPlan where
  lock : LockFate
  remove : Fate
  read : Fate
  syncFile : Fate
  syncDir : Fate

/-- A saved, verified prefix of a flock. -/
structure Reader where
  follower : Follower
  frames : List (List Sealed)
  deriving DecidableEq

namespace Reader

variable (P : Primitives) (c : Codec Checkpoint) (g : MerkleNode Genesis)

def load (follower : Follower) (bytes : Bytes) : Except ReaderError Reader := do
  let cp ← okOr (c.decode bytes) (.invalid ("saved state: " ++ c.fault bytes))
  let f ← (follower.applyAll P cp.frames).mapError follow
  return ⟨f, cp.frames⟩

/-- The barriers a save ends with, for a file that is already there. -/
def makeDurable (d : Dir Bytes) (p : OpenPlan) : Dir Bytes × Ended :=
  Dir.andThen p.syncFile (d.syncFile p.syncFile) fun d =>
  Dir.andThen p.syncDir (d.syncDir p.syncDir) fun d => (d, .done)

/-- Read the saved state with the lock held.  What is seen may not be durable
yet, so it is made durable before it is shown. -/
def openLocked (d : Dir Bytes) (p : OpenPlan) : Dir Bytes × Option (Except ReaderError Reader) :=
  match Follower.new P g with
  | .error e => (d, some (.error (.wire e)))
  | .ok follower =>
    match p.read with
    | .failed _ => (d, some (.error .io))
    | .died _ => (d, none)
    | .done =>
      match d.file with
      | none => (d, some (.ok ⟨follower, []⟩))
      | some (bytes, _) =>
        match makeDurable d p with
        | (d, .failed) => (d, some (.error .save))
        | (d, .died) => (d, none)
        | (d, .done) => (d, some (load P c follower bytes))

/-- Load the saved state (none yet is an empty reader) and re-verify every
frame in it from genesis.  No result if the process died. -/
def open_ (d : Dir Bytes) (p : OpenPlan) : Dir Bytes × Option (Except ReaderError Reader) :=
  match p.lock with
  | .wouldBlock => (d, some (.error .locked))
  | .failed => (d, some (.error .io))
  | .died => (d, none)
  | .done =>
    -- a leftover temporary file goes if it can
    let d := d.remove p.remove
    if p.remove.dies then (d, none) else openLocked P c g d p

/-- Verify and apply one frame in memory. -/
def apply (r : Reader) (frame : List Sealed) : Except ReaderError Reader := do
  let follower ← (r.follower.apply P frame).mapError follow
  return ⟨follower, r.frames ++ [frame]⟩

/-- Apply a frame and save, as one step: if the save fails the reader goes back
to the prefix it had. -/
def applySaved (r : Reader) (d : Dir Bytes) (frame : List Sealed) (p : SavePlan) :
    Dir Bytes × Option (Reader × Except ReaderError Unit) :=
  let before := r.follower
  match r.apply P frame with
  | .error e => (d, some (r, .error e))
  | .ok r =>
    let saved := saveAtomic d (c.encode ⟨r.frames⟩) p
    match saved.2 with
    | .done => (saved.1, some (r, .ok ()))
    | .failed => (saved.1, some (⟨before, r.frames.dropLast⟩, .error .save))
    | .died => (saved.1, none)

inductive WatchEvent where
  | frame (f : List Sealed)
  | caught (i : ℕ)
  | closed (why : String)

/-- What is reported to the caller of `followOn`. -/
inductive Seen where
  | frame (f : List Sealed) (follower : Follower)
  | caught (i : ℕ) (follower : Follower)

def Seen.follower : Seen → Follower
  | .frame _ f => f
  | .caught _ f => f

/-- Apply and save each frame of a stream, then report it, until the stream
ends (with `once`, until the replay is caught up).  The stream is what its next
events will be, each with how a save of it will go; it then breaks. -/
def followOn (once : Bool) : Reader → Dir Bytes → List (Except ReaderError WatchEvent × SavePlan) →
    Dir Bytes × List Seen × Option (Reader × Except ReaderError String)
  | r, d, [] => (d, [], some (r, .error .io))
  | r, d, (.error e, _) :: _ => (d, [], some (r, .error e))
  | r, d, (.ok (.frame f), p) :: rest =>
    match r.applySaved P c d f p with
    | (d, none) => (d, [], none)
    | (d, some (r, .error e)) => (d, [], some (r, .error e))
    | (d, some (r, .ok ())) =>
      let out := followOn once r d rest
      (out.1, .frame f r.follower :: out.2.1, out.2.2)
  | r, d, (.ok (.caught i), _) :: rest =>
    -- the marker must agree with what this reader verified
    if i ≠ r.follower.admitted then
      (d, [], some (r, .error (.invalid ("the server says caught up at " ++ toString i ++
        "; this reader verified " ++ toString r.follower.admitted))))
    else if once then (d, [.caught i r.follower], some (r, .ok "caught up"))
    else
      let out := followOn once r d rest
      (out.1, .caught i r.follower :: out.2.1, out.2.2)
  | r, d, (.ok (.closed why), _) :: _ =>
    (d, [], some (r, if once then .error (.stream why) else .ok why))

end Reader

/-! ### Runs of several readers on one directory -/

/-- A directory, the reader that is open on it, and what readers have shown. -/
structure Readers where
  dir : Dir Bytes
  reader : Option Reader
  /-- The frames the open reader loaded. -/
  loaded : List (List Sealed)
  /-- The frames it took since: those `applySaved` returned `ok` for. -/
  taken : List (List Sealed)
  /-- Every prefix a reader has shown. -/
  shown : List (List (List Sealed))

namespace Readers

inductive Act where
  | open_ (p : OpenPlan)
  | applySaved (frame : List Sealed) (p : SavePlan)
  /-- The reader is dropped. -/
  | close
  | powerLoss (pick : ℕ) (junk : Bytes) (tmp : Option (Bytes × Bool))

def start (d : Dir Bytes) : Readers := ⟨d, none, [], [], []⟩

variable (P : Primitives) (c : Codec Checkpoint) (g : MerkleNode Genesis)

def step (w : Readers) : Act → Readers
  | .open_ p =>
    match w.reader with
    | some _ => w
    | none =>
      match Reader.open_ P c g w.dir p with
      | (d, some (.ok r)) => ⟨d, some r, r.frames, [], r.frames :: w.shown⟩
      | (d, some (.error _)) => { w with dir := d }
      | (d, none) => { w with dir := d }
  | .applySaved frame p =>
    match w.reader with
    | none => w
    | some r =>
      match r.applySaved P c w.dir frame p with
      | (d, some (r, .ok ())) => ⟨d, some r, w.loaded, w.taken ++ [frame], r.frames :: w.shown⟩
      | (d, some (r, .error _)) => { w with dir := d, reader := some r }
      | (d, none) => { w with dir := d, reader := none }
  | .close => { w with reader := none }
  | .powerLoss pick junk tmp => { w with dir := w.dir.powerLoss pick junk tmp, reader := none }

def run (w : Readers) (acts : List Act) : Readers := acts.foldl (step P c g) w

end Readers

/-! ### One call -/

variable {P : Primitives} {c : Codec Checkpoint} {g : MerkleNode Genesis}

section Save

variable {Q : Bytes → Prop} {d : Dir Bytes} {bytes : Bytes}

/-- **However a save ends, power loss leaves what was there or what it
wrote.** -/
theorem saveAtomic_keeps (h : d.Sure Q) (hb : Q bytes) (p : SavePlan) :
    (saveAtomic d bytes p).1.Sure Q := by
  refine (h.write bytes _ _).andThen fun hw => ?_
  refine ((h.write bytes _ _).syncTmp _).andThen fun hs => ?_
  -- the temporary file is whole and synced when it is renamed
  have htmp : ((d.write bytes p.write p.junk).syncTmp p.syncFile).tmp = some (bytes, true) := by
    rw [hw, hs]
    rfl
  have hrenamed := ((h.write bytes p.write p.junk).syncTmp p.syncFile).rename htmp hb p.rename
  refine hrenamed.andThen fun _ => ?_
  exact (hrenamed.syncDir _).andThen fun _ => hrenamed.syncDir _

/-- **A save that returned is durable.** -/
theorem saveAtomic_done {p : SavePlan} (h : (saveAtomic d bytes p).2 = .done) :
    (saveAtomic d bytes p).1.file = some (bytes, true) ∧ (saveAtomic d bytes p).1.olds = [] := by
  simp only [saveAtomic, Dir.andThen_done, and_true] at h
  obtain ⟨hw, hs, hr, hd⟩ := h
  rw [saveAtomic, hw, hs, hr, hd]
  exact ⟨rfl, rfl⟩

end Save

namespace Reader

variable {r r' : Reader} {d : Dir Bytes} {frame : List Sealed}

theorem apply_ok : r.apply P frame = .ok r' ↔
    ∃ f, r.follower.apply P frame = .ok f ∧ r' = ⟨f, r.frames ++ [frame]⟩ := by
  simp only [apply, bind_ok, mapError_ok, pure, Except.pure, Except.ok.injEq]
  constructor
  · rintro ⟨f, hf, rfl⟩
    exact ⟨f, hf, rfl⟩
  · rintro ⟨f, hf, rfl⟩
    exact ⟨f, hf, rfl⟩

theorem load_ok {follower : Follower} {bytes : Bytes} :
    load P c follower bytes = .ok r ↔
      c.decode bytes = some ⟨r.frames⟩ ∧ follower.applyAll P r.frames = .ok r.follower := by
  simp only [load, bind_ok, okOr_ok, mapError_ok, pure, Except.pure, Except.ok.injEq]
  constructor
  · rintro ⟨cp, hcp, f, hf, rfl⟩
    exact ⟨hcp, hf⟩
  · rintro ⟨hcp, hf⟩
    exact ⟨_, hcp, _, hf, rfl⟩

/-- **A failed call leaves the reader as it was.** -/
theorem applySaved_error {p : SavePlan} {e : ReaderError}
    (h : (r.applySaved P c d frame p).2 = some (r', .error e)) : r' = r := by
  rw [applySaved] at h
  cases ha : r.apply P frame with
  | error e' =>
    simp only [ha] at h
    cases h
    rfl
  | ok r₁ =>
    obtain ⟨f, -, rfl⟩ := apply_ok.mp ha
    simp only [ha] at h
    split at h
    · cases h
    · cases h
      simp
    · cases h

theorem applySaved_ok {p : SavePlan} (h : (r.applySaved P c d frame p).2 = some (r', .ok ())) :
    (∃ f, r.follower.apply P frame = .ok f ∧ r' = ⟨f, r.frames ++ [frame]⟩) ∧
      (r.applySaved P c d frame p).1.file = some (c.encode ⟨r'.frames⟩, true) ∧
      (r.applySaved P c d frame p).1.olds = [] := by
  rw [applySaved] at h ⊢
  cases ha : r.apply P frame with
  | error e =>
    simp only [ha] at h
    cases h
  | ok r₁ =>
    simp only [ha] at h ⊢
    split at h
    · rename_i hsaved
      cases h
      exact ⟨apply_ok.mp ha, saveAtomic_done hsaved⟩
    · cases h
    · cases h

/-- However the call ends, power loss leaves what was there or the prefix with
the new frame. -/
theorem applySaved_keeps {Q : Bytes → Prop} (h : d.Sure Q)
    (hframe : Q (c.encode ⟨r.frames ++ [frame]⟩)) (p : SavePlan) :
    (r.applySaved P c d frame p).1.Sure Q := by
  rw [applySaved]
  cases ha : r.apply P frame with
  | error e => exact h
  | ok r₁ =>
    obtain ⟨f, -, rfl⟩ := apply_ok.mp ha
    have hkeeps := saveAtomic_keeps h hframe p
    simp only
    split
    · exact hkeeps
    · exact hkeeps
    · exact hkeeps

theorem makeDurable_keeps {Q : Bytes → Prop} (h : d.Sure Q) (p : OpenPlan) :
    (makeDurable d p).1.Sure Q := by
  have hsynced := h.syncFile p.syncFile
  refine hsynced.andThen fun _ => ?_
  exact (hsynced.syncDir p.syncDir).andThen fun _ => hsynced.syncDir p.syncDir

theorem makeDurable_done {p : OpenPlan} {bytes : Bytes} {synced : Bool}
    (hfile : d.file = some (bytes, synced)) (h : (makeDurable d p).2 = .done) :
    (makeDurable d p).1.file = some (bytes, true) ∧ (makeDurable d p).1.olds = [] := by
  simp only [makeDurable, Dir.andThen_done, and_true] at h
  obtain ⟨hs, hd⟩ := h
  rw [makeDurable, hs, hd]
  simp [Dir.andThen, Dir.syncFile, Dir.syncDir, Fate.effect, hfile]

/-- What opening shows is the fold of its frames, and those are on disk for
good, if there was a file at all. -/
theorem openLocked_ok {p : OpenPlan} (h : (openLocked P c g d p).2 = some (.ok r)) :
    Follower.Reaches P g r.frames r.follower ∧
      (d.file = none ∧ r.frames = [] ∨
        ∃ bytes synced, d.file = some (bytes, synced) ∧ c.decode bytes = some ⟨r.frames⟩ ∧
          (openLocked P c g d p).1.file = some (bytes, true) ∧
          (openLocked P c g d p).1.olds = []) := by
  rw [openLocked] at h ⊢
  split at h
  · cases h
  · rename_i follower hnew
    split at h
    · cases h
    · cases h
    · rename_i hread
      cases hfile : d.file with
      | none =>
        simp only [hfile] at h
        cases h
        exact ⟨⟨follower, hnew, rfl⟩, .inl ⟨rfl, rfl⟩⟩
      | some content =>
        obtain ⟨bytes, synced⟩ := content
        simp only [hfile] at h ⊢
        split at h
        · cases h
        · cases h
        · rename_i d' hdone
          have hdurable := makeDurable_done hfile (by rw [hdone])
          simp only [hdone] at hdurable ⊢
          obtain ⟨hdecode, hall⟩ := load_ok.mp (Option.some.inj h)
          exact ⟨⟨follower, hnew, hall⟩, .inr ⟨bytes, synced, rfl, hdecode, hdurable⟩⟩

theorem openLocked_keeps {Q : Bytes → Prop} (h : d.Sure Q) (p : OpenPlan) :
    (openLocked P c g d p).1.Sure Q := by
  have hdurable := makeDurable_keeps h p
  rw [openLocked]
  split
  · exact h
  · split
    · exact h
    · exact h
    · split
      · exact h
      · cases hm : makeDurable d p with
        | mk d' e =>
          rw [hm] at hdurable
          cases e with
          | done | failed | died => exact hdurable

/-- **What opening established.** -/
theorem open_ok {p : OpenPlan} (h : (open_ P c g d p).2 = some (.ok r)) :
    Follower.Reaches P g r.frames r.follower ∧
      (d.file = none ∧ r.frames = [] ∨
        ∃ bytes synced, d.file = some (bytes, synced) ∧ c.decode bytes = some ⟨r.frames⟩ ∧
          (open_ P c g d p).1.file = some (bytes, true) ∧ (open_ P c g d p).1.olds = []) := by
  have hremove : (d.remove p.remove).file = d.file := by
    rw [Dir.remove]
    split <;> rfl
  rw [open_] at h ⊢
  split at h
  · cases h
  · cases h
  · cases h
  · split at h
    · cases h
    · rename_i hdies
      rw [if_neg hdies, ← hremove]
      exact openLocked_ok h

theorem open_keeps {Q : Bytes → Prop} (h : d.Sure Q) (p : OpenPlan) :
    (open_ P c g d p).1.Sure Q := by
  rw [open_]
  split
  · exact h
  · exact h
  · exact h
  · split
    · exact h.remove p.remove
    · exact openLocked_keeps (h.remove p.remove) p

end Reader

/-! ### Every run -/

/-- Saved bytes that hold at least the frames `e`. -/
def Holds (c : Codec Checkpoint) (e : List (List Sealed)) (b : Bytes) : Prop :=
  ∃ frames, c.decode b = some ⟨frames⟩ ∧ e <+: frames

namespace Readers

/-- **Every prefix a reader has shown is part of whatever power loss may
leave**, and of what the open reader has. -/
structure Keeps (P : Primitives) (c : Codec Checkpoint) (g : MerkleNode Genesis) (w : Readers) :
    Prop where
  sure : ∀ e ∈ w.shown, e ≠ [] → w.dir.Sure (Holds c e)
  fold : ∀ r, w.reader = some r →
    Follower.Reaches P g r.frames r.follower ∧ r.frames = w.loaded ++ w.taken
  holds : ∀ r, w.reader = some r → ∀ e ∈ w.shown, e <+: r.frames
  shows : ∀ r, w.reader = some r → r.frames ∈ w.shown

theorem keeps_start (d : Dir Bytes) : (start d).Keeps P c g :=
  ⟨by simp [start], by simp [start], by simp [start], by simp [start]⟩

section Keeps

variable {w : Readers}

theorem Keeps.open_holds (h : w.Keeps P c g) {p : OpenPlan} {r : Reader}
    (hopen : (Reader.open_ P c g w.dir p).2 = some (.ok r)) {e : List (List Sealed)}
    (he : e ∈ w.shown) : e <+: r.frames := by
  by_cases hne : e = []
  · rw [hne]
    exact List.nil_prefix
  · obtain ⟨b, hfile, frames, hdecode, hprefix⟩ := (h.sure e he hne).seen
    obtain ⟨-, ⟨hnone, -⟩ | ⟨bytes, synced, hsome, hfound, -, -⟩⟩ := Reader.open_ok hopen
    · rw [hnone] at hfile
      cases hfile
    · -- the file that was sure is the one that was read
      rw [hsome] at hfile
      cases hfile
      rw [hdecode] at hfound
      cases hfound
      exact hprefix

theorem Keeps.opened (h : w.Keeps P c g) (p : OpenPlan) :
    (w.step P c g (.open_ p)).Keeps P c g := by
  have hkeeps : ∀ e ∈ w.shown, e ≠ [] → (Reader.open_ P c g w.dir p).1.Sure (Holds c e) :=
    fun e he hne => Reader.open_keeps (h.sure e he hne) p
  rw [step]
  split
  · exact h
  · rename_i hnone
    split
    · rename_i d r hopen
      have hok : (Reader.open_ P c g w.dir p).2 = some (.ok r) := by rw [hopen]
      obtain ⟨hfold, hdisk⟩ := Reader.open_ok hok
      rw [hopen] at hkeeps hdisk
      have hall : ∀ e ∈ r.frames :: w.shown, e <+: r.frames := by
        intro e he
        rcases List.mem_cons.mp he with rfl | he
        · exact List.prefix_refl _
        · exact h.open_holds hok he
      refine ⟨fun e he hne => ?_, ?_, ?_, ?_⟩
      · rcases List.mem_cons.mp he with rfl | he
        · obtain ⟨-, hempty⟩ | ⟨bytes, synced, -, hdecode, hfile, holds⟩ := hdisk
          · exact absurd hempty hne
          · exact .of_settled hfile holds ⟨r.frames, hdecode, List.prefix_refl _⟩
        · exact hkeeps e he hne
      · rintro _ ⟨⟩
        exact ⟨hfold, (List.append_nil _).symm⟩
      · rintro _ ⟨⟩
        exact hall
      · rintro _ ⟨⟩
        exact List.mem_cons_self
    · rename_i d e hopen
      rw [hopen] at hkeeps
      exact ⟨hkeeps, h.fold, h.holds, h.shows⟩
    · rename_i d hopen
      rw [hopen] at hkeeps
      exact ⟨hkeeps, h.fold, h.holds, h.shows⟩

theorem Keeps.applied (hc : c.Lawful) (h : w.Keeps P c g) (frame : List Sealed) (p : SavePlan) :
    (w.step P c g (.applySaved frame p)).Keeps P c g := by
  rw [step]
  split
  · exact h
  · rename_i r hr
    have hshown := h.holds r hr
    have hdecode : c.decode (c.encode ⟨r.frames ++ [frame]⟩) = some ⟨r.frames ++ [frame]⟩ := hc _
    -- the prefix with the new frame holds all that was shown
    have hkeeps : ∀ e ∈ w.shown, e ≠ [] → (r.applySaved P c w.dir frame p).1.Sure (Holds c e) := by
      intro e he hne
      refine Reader.applySaved_keeps (h.sure e he hne) ⟨_, hdecode, ?_⟩ p
      exact (hshown e he).trans (List.prefix_append _ _)
    split
    · rename_i d r' happly
      have hok : (r.applySaved P c w.dir frame p).2 = some (r', .ok ()) := by rw [happly]
      obtain ⟨⟨f, hf, rfl⟩, hfile, holds⟩ := Reader.applySaved_ok hok
      rw [happly] at hkeeps hfile holds
      obtain ⟨hfold, hframes⟩ := h.fold r hr
      refine ⟨fun e he hne => ?_, ?_, ?_, ?_⟩
      · rcases List.mem_cons.mp he with rfl | he
        · exact .of_settled hfile holds ⟨_, hdecode, List.prefix_refl _⟩
        · exact hkeeps e he hne
      · rintro _ ⟨⟩
        refine ⟨hfold.snoc hf, ?_⟩
        rw [hframes, List.append_assoc]
      · rintro _ ⟨⟩ e he
        rcases List.mem_cons.mp he with rfl | he
        · exact List.prefix_refl _
        · exact (hshown e he).trans (List.prefix_append _ _)
      · rintro _ ⟨⟩
        exact List.mem_cons_self
    · rename_i d r' e happly
      have herr : (r.applySaved P c w.dir frame p).2 = some (r', .error e) := by rw [happly]
      cases Reader.applySaved_error herr
      rw [happly] at hkeeps
      refine ⟨hkeeps, ?_, ?_, ?_⟩ <;> rintro _ ⟨⟩
      · exact h.fold r hr
      · exact hshown
      · exact h.shows r hr
    · rename_i d happly
      rw [happly] at hkeeps
      refine ⟨hkeeps, ?_, ?_, ?_⟩ <;> rintro _ ⟨⟩

/-- **Every act keeps what was shown.** -/
theorem Keeps.step (hc : c.Lawful) (h : w.Keeps P c g) (a : Act) :
    (w.step P c g a).Keeps P c g := by
  cases a with
  | open_ p => exact h.opened p
  | applySaved frame p => exact h.applied hc frame p
  | close =>
    refine ⟨h.sure, ?_, ?_, ?_⟩ <;> rintro _ ⟨⟩
  | powerLoss pick junk tmp =>
    refine ⟨fun e he hne => (h.sure e he hne).powerLoss pick junk tmp, ?_, ?_, ?_⟩ <;> rintro _ ⟨⟩

theorem shown_step (a : Act) {e : List (List Sealed)} (he : e ∈ w.shown) :
    e ∈ (w.step P c g a).shown := by
  cases a with
  | open_ p =>
    rw [Readers.step]
    split
    · exact he
    · split
      · exact List.mem_cons_of_mem _ he
      · exact he
      · exact he
  | applySaved frame p =>
    rw [Readers.step]
    split
    · exact he
    · split
      · exact List.mem_cons_of_mem _ he
      · exact he
      · exact he
  | close | powerLoss => exact he

theorem shown_run (acts : List Act) {e : List (List Sealed)} (he : e ∈ w.shown) :
    e ∈ (w.run P c g acts).shown := by
  induction acts generalizing w with
  | nil => exact he
  | cons a acts ih => exact ih (w.shown_step a he)

theorem Keeps.run (hc : c.Lawful) (h : w.Keeps P c g) (acts : List Act) :
    (w.run P c g acts).Keeps P c g := by
  induction acts generalizing w with
  | nil => exact h
  | cons a acts ih => exact ih (h.step hc a)

end Keeps

end Readers

/-- **What a reader has shown is never lost.**  Any step of a save or of opening
may fail, the process may die in it, and power may be lost at any time.  A
reader's state is the fold of the frames it loaded and of those it took since;
a call that fails leaves it as it was; and a reader that opens has every prefix
that any reader on the directory has shown. -/
theorem reader_keeps_shown (hc : c.Lawful) (d : Dir Bytes) (acts : List Readers.Act) :
    let w := (Readers.start d).run P c g acts
    (∀ r, w.reader = some r →
      r.frames = w.loaded ++ w.taken ∧ Follower.Reaches P g (w.loaded ++ w.taken) r.follower) ∧
    (∀ r frame p r' e, w.reader = some r →
      (r.applySaved P c w.dir frame p).2 = some (r', .error e) → r' = r) ∧
    ∀ p r, (Reader.open_ P c g w.dir p).2 = some (.ok r) → ∀ e ∈ w.shown, e <+: r.frames := by
  intro w
  have hkeeps : w.Keeps P c g := (Readers.keeps_start d).run hc acts
  refine ⟨fun r hr => ?_, fun r frame p r' e _ herr => Reader.applySaved_error herr,
    fun p r hopen e he => hkeeps.open_holds hopen he⟩
  obtain ⟨hfold, hframes⟩ := hkeeps.fold r hr
  exact ⟨hframes, hframes ▸ hfold⟩

deriving instance Countable for Checkpoint

namespace Small

noncomputable def checkpoints : List Checkpoint := [⟨[[invited]]⟩, ⟨[[invited], [started]]⟩]

noncomputable def checkpointCodec : Codec Checkpoint := recalledCodec checkpoints

def opens : OpenPlan := ⟨.done, .done, .done, .done, .done⟩

/-- A save whose directory sync goes as given. -/
def saves (syncDir : Fate) : SavePlan := ⟨.done, none, .done, .done, syncDir⟩

/-- The second save is seen but not durable, and power loss takes it back. -/
noncomputable def reverted : List Readers.Act :=
  [.open_ opens, .applySaved [invited] (saves .done),
    .applySaved [started] (saves (.failed false)), .powerLoss 1 [] none]

end Small

set_option maxRecDepth 100000 in
theorem reader_keeps_shown_reverted :
    let w := (Readers.start ⟨none, none, []⟩).run Small.P Small.checkpointCodec Small.genesis
      Small.reverted
    w.shown = [[[Small.invited]], []] ∧
      ∃ r, (Reader.open_ Small.P Small.checkpointCodec Small.genesis w.dir Small.opens).2 =
          some (.ok r) ∧
        r.frames = [[Small.invited]] ∧ ∀ e ∈ w.shown, e <+: r.frames := by
  intro w
  have hrun : w.shown = [[[Small.invited]], []] ∧
      ((Reader.open_ Small.P Small.checkpointCodec Small.genesis w.dir Small.opens).2.bind
        Except.toOption).map Reader.frames = some [[Small.invited]] := by
    decide +kernel
  obtain ⟨hshown, hopened⟩ := hrun
  obtain ⟨r, hr, hframes⟩ := Option.map_eq_some_iff.mp hopened
  obtain ⟨res, hres, hok⟩ := Option.bind_eq_some_iff.mp hr
  cases res with
  | error e => cases hok
  | ok r' =>
    cases hok
    obtain ⟨-, -, hkept⟩ := reader_keeps_shown (P := Small.P) (g := Small.genesis)
      (recalledCodec_lawful Small.checkpoints) ⟨none, none, []⟩ Small.reverted
    exact ⟨hshown, r, hres, hframes, hkept Small.opens r hres⟩

/-! ### Following a stream -/

/-- **Following a stream is applying and saving**: it leaves the directory and
the reader as a run of single calls does, and reports only states shown by
then. -/
theorem Reader.followOn_runs (once : Bool) {w : Readers} (hc : c.Lawful) (h : w.Keeps P c g)
    {r : Reader} (hr : w.reader = some r)
    (events : List (Except ReaderError Reader.WatchEvent × SavePlan)) :
    ∃ acts, (w.run P c g acts).dir = (Reader.followOn P c once r w.dir events).1 ∧
      (w.run P c g acts).reader =
        (Reader.followOn P c once r w.dir events).2.2.map (fun o => o.1) ∧
      ∀ s ∈ (Reader.followOn P c once r w.dir events).2.1, ∃ frames ∈ (w.run P c g acts).shown,
        Follower.Reaches P g frames s.follower := by
  induction events generalizing w r with
  | nil => exact ⟨[], rfl, hr, by simp [followOn]⟩
  | cons event events ih =>
    obtain ⟨event, p⟩ := event
    have hfold := (h.fold r hr).1
    have hshown := h.shows r hr
    cases event with
    | error e => exact ⟨[], rfl, hr, by simp [followOn]⟩
    | ok event =>
      cases event with
      | closed why => exact ⟨[], rfl, hr, by simp [followOn]⟩
      | caught i =>
        rw [followOn]
        split
        · exact ⟨[], rfl, hr, by simp⟩
        · split
          · refine ⟨[], rfl, hr, fun s hs => ?_⟩
            rw [List.mem_singleton.mp hs]
            exact ⟨r.frames, hshown, hfold⟩
          · obtain ⟨acts, hdir, hreader, hseen⟩ := ih h hr
            refine ⟨acts, hdir, hreader, fun s hs => ?_⟩
            rcases List.mem_cons.mp hs with rfl | hs
            · exact ⟨r.frames, w.shown_run acts hshown, hfold⟩
            · exact hseen s hs
      | frame f =>
        have hstep := h.step hc (.applySaved f p)
        -- the world after the one call
        have hafter : w.step P c g (.applySaved f p) =
            match r.applySaved P c w.dir f p with
            | (d, some (r, .ok ())) =>
              ⟨d, some r, w.loaded, w.taken ++ [f], r.frames :: w.shown⟩
            | (d, some (r, .error _)) => { w with dir := d, reader := some r }
            | (d, none) => { w with dir := d, reader := none } := by
          rw [Readers.step]
          simp only [hr]
        rw [followOn]
        cases happly : r.applySaved P c w.dir f p with
        | mk d out =>
          rw [happly] at hafter
          match out with
          | none =>
            refine ⟨[.applySaved f p], ?_, ?_, by simp⟩
            · exact congrArg Readers.dir hafter
            · exact congrArg Readers.reader hafter
          | some (r', .error e) =>
            refine ⟨[.applySaved f p], ?_, ?_, by simp⟩
            · exact congrArg Readers.dir hafter
            · exact congrArg Readers.reader hafter
          | some (r', .ok ()) =>
            simp only at hafter
            rw [hafter] at hstep
            obtain ⟨acts, hdir, hreader, hseen⟩ := ih hstep rfl
            have hrun : w.run P c g (.applySaved f p :: acts) =
                Readers.run P c g ⟨d, some r', w.loaded, w.taken ++ [f], r'.frames :: w.shown⟩
                  acts := by
              rw [← hafter]
              rfl
            refine ⟨.applySaved f p :: acts, ?_⟩
            rw [hrun]
            refine ⟨hdir, hreader, fun s hs => ?_⟩
            rcases List.mem_cons.mp hs with rfl | hs
            · exact ⟨r'.frames, Readers.shown_run acts List.mem_cons_self, (hstep.fold r' rfl).1⟩
            · exact hseen s hs

end Flock
