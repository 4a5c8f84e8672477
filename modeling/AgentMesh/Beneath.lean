/-
Opening a file strictly beneath a root.

A path that was checked is resolved again when it is opened, and a directory on
it can become a link in between.  So the root is opened once, and the path is
walked one plain name at a time, each relative to the directory that was opened
before, with no link followed.  The file system may be anything at each call.

* `mem_normals`, `parts_ok` — a path is refused, or its parts are its normal
  components, which are plain names;
* `walk_chain` — a walk that returns a file made a chain of openings;
* `opened_beneath` — what is opened is beneath the root, and the paths that
  could leave it are refused with nothing opened;
* `readUnder_ok` — what is read under a root is read from such a file.
-/
import AgentMesh.Content

namespace Beneath

/-! ### The file system -/

/-- What a directory entry or a descriptor stands for. -/
abbrev Ino := ℕ

/-- A directory maps names to objects. -/
inductive Object where
  | dir (entries : String → Option Ino)
  | file
  | link (target : String)

/-- The objects as they are at one moment. -/
abbrev Fs := Ino → Object

inductive Errno where
  | noEnt | inval | loop | notDir | xDev | noSys
  | other (code : ℕ)
  deriving DecidableEq

/-- A name of one entry of a directory: it cannot be resolved any further. -/
def Plain (name : String) : Prop :=
  name ≠ "" ∧ name ≠ "." ∧ name ≠ ".." ∧ '/' ∉ name.toList

instance decidablePlain (name : String) : Decidable (Plain name) :=
  inferInstanceAs (Decidable (_ ∧ _ ∧ _ ∧ _))

/-- What is left open of the system. -/
structure Kernel where
  /-- An open may fail at any time. -/
  refuses : Fs → Ino → String → Bool → Option Errno
  /-- A name that is not plain may lead anywhere. -/
  elsewhere : Fs → Ino → String → Bool → Except Errno Ino
  hasOpenat2 : Bool

namespace Kernel

variable (K : Kernel)

/-- `openat` with `NOFOLLOW` and, if `directory` is set, `DIRECTORY`. -/
def openat (fs : Fs) (at_ : Ino) (name : String) (directory : Bool) : Except Errno Ino :=
  match K.refuses fs at_ name directory with
  | some e => .error e
  | none =>
    if Plain name then
      match fs at_ with
      | .dir entries =>
        match entries name with
        | none => .error .noEnt
        | some i =>
          match fs i with
          | .dir _ => .ok i
          | .file => if directory then .error .notDir else .ok i
          | .link _ => .error .loop
      | _ => .error .notDir
    else K.elsewhere fs at_ name directory

/-- `openat2` with `BENEATH` and `NO_SYMLINKS`: the whole path at one moment. -/
def resolve (fs : Fs) : Ino → List String → Except Errno Ino
  | _, [] => .error .noEnt
  | at_, [last] => K.openat fs at_ last false
  | at_, name :: names => do
    let next ← K.openat fs at_ name true
    resolve fs next names

def openat2 (fs : Fs) (dir : Ino) (path : List String) : Except Errno Ino :=
  if K.hasOpenat2 then K.resolve fs dir path else .error .noSys

end Kernel

/-! ### Paths -/

/-- `std::path::Component`, without the prefixes of Windows. -/
inductive Component where
  | rootDir
  | curDir
  | parentDir
  | normal (name : String)
  deriving DecidableEq

def pieces : List Char → List (List Char)
  | [] => [[]]
  | c :: cs =>
    if c = '/' then [] :: pieces cs
    else match pieces cs with
      | [] => [[c]]
      | p :: ps => (c :: p) :: ps

/-- Empty pieces and `.` are no components. -/
def component (piece : List Char) : Option Component :=
  if piece = [] ∨ piece = ['.'] then none
  else if piece = ['.', '.'] then some .parentDir
  else some (.normal (String.ofList piece))

/-- `Path::components`: `.` is one only at the start of a path without a root. -/
def components (path : String) : List Component :=
  (if path.toList.head? = some '/' then [.rootDir]
    else if (pieces path.toList).head? = some ['.'] then [.curDir] else []) ++
    (pieces path.toList).filterMap component

def Component.name : Component → Option String
  | .normal name => some name
  | _ => none

def normals (path : String) : List String := (components path).filterMap Component.name

/-- `io::Error`: of the kind `InvalidInput`, or the system's. -/
inductive IoError where
  | invalid (why : String)
  | os (errno : Errno)
  deriving DecidableEq

def collect (out : List String) : List Component → Except IoError (List String)
  | [] => .ok out
  | .normal p :: cs => collect (out ++ [p]) cs
  | .curDir :: cs => collect out cs
  | .rootDir :: _ | .parentDir :: _ => .error (.invalid "path leaves its root")

/-- The normal components of `rel`. -/
def parts (rel : String) : Except IoError (List String) := do
  let out ← collect [] (components rel)
  ensure (out ≠ []) (.invalid "empty path")
  return out

/-! ### The walk

`fs n` is the file system as the `n`-th call of the process finds it.  Every
function returns the number of the next call. -/

variable (K : Kernel) (fs : ℕ → Fs)

/-- The loop of `walk`: the directory that is held at its end. -/
def walkDirs : ℕ → Ino → List String → ℕ × Except IoError Ino
  | n, at_, [] => (n, .ok at_)
  | n, at_, name :: dirs =>
    match K.openat (fs n) at_ name true with
    | .error e => (n + 1, .error (.os e))
    | .ok next => walkDirs (n + 1) next dirs

def walk (n : ℕ) (dir : Ino) (parts : List String) : ℕ × Except IoError Ino :=
  match parts.getLast? with
  | none => (n, .error (.invalid "empty path"))
  | some last =>
    match walkDirs K fs n dir parts.dropLast with
    | (n, .error e) => (n, .error e)
    | (n, .ok at_) => (n + 1, (K.openat (fs n) at_ last false).mapError .os)

def openByWalk (n : ℕ) (dir : Ino) (rel : String) : ℕ × Except IoError Ino :=
  match parts rel with
  | .error e => (n, .error e)
  | .ok ps => walk K fs n dir ps

/-- Open `rel` beneath `dir`; the walk is for a system without `openat2`. -/
def open_ (n : ℕ) (dir : Ino) (rel : String) : ℕ × Except IoError Ino :=
  match parts rel with
  | .error e => (n, .error e)
  | .ok ps =>
    match K.openat2 (fs n) dir ps with
    | .error .noSys => walk K fs (n + 1) dir ps
    | other => (n + 1, other.mapError .os)

/-! ### Reading -/

def maxFile : ℕ := 2 ^ 20 - 4096

/-- What an opened descriptor says: whether it is a regular file and how long,
and what is read from it, up to a limit. -/
structure Descriptors where
  metadata : Ino → Except Errno (Bool × ℕ)
  take : Ino → ℕ → Except Errno Bytes

/-- A symlink refused, an escape, or a link used as a directory. -/
def isLinkOrEscape (e : Errno) : Bool := decide (e = .loop ∨ e = .xDev ∨ e = .notDir)

def IoError.refusal : IoError → String
  | .os .noEnt => "missing"
  | .invalid _ | .os .inval => "outside the root"
  | .os e => if isLinkOrEscape e then "outside the root or through a link" else "not readable"

/-- The bytes at `rel` under a root, or why not; `root` is what opening the root
gave. -/
def readUnder (D : Descriptors) (n : ℕ) (root : Except Errno Ino) (rel : String) :
    Except String Bytes := do
  ensure (rel ≠ "" ∧ Char.ofNat 0 ∉ rel.toList) "not a usable path"
  let dir ← root.mapError fun _ => "the root is not available"
  let file ← (open_ K fs n dir rel).2.mapError IoError.refusal
  let (isFile, len) ← (D.metadata file).mapError fun _ => "not readable"
  ensure (isFile = true) "not a regular file"
  ensure (len ≤ maxFile) "too large"
  let bytes ← (D.take file (maxFile + 1)).mapError fun _ => "not readable"
  ensure (bytes.length ≤ maxFile) "too large"
  return bytes

/-! ### The parts of a path -/

theorem pieces_no_slash {cs : List Char} : ∀ p ∈ pieces cs, '/' ∉ p := by
  induction cs with
  | nil => simp [pieces]
  | cons c cs ih =>
    rw [pieces]
    split
    · simpa using ih
    · rename_i hc
      split
      · simpa [eq_comm] using hc
      · rename_i p ps hps
        rw [hps] at ih
        intro q hq
        rcases List.mem_cons.mp hq with rfl | hq
        · rw [List.mem_cons, not_or]
          exact ⟨fun h => hc h.symm, ih p List.mem_cons_self⟩
        · exact ih q (List.mem_cons_of_mem _ hq)

/-- **The normal components are plain names.** -/
theorem mem_normals {path name : String} (h : name ∈ normals path) : Plain name := by
  obtain ⟨c, hc, hname⟩ := List.mem_filterMap.mp h
  cases c with
  | normal p =>
    cases hname
    rcases List.mem_append.mp hc with hc | hc
    · split at hc
      · simp at hc
      · split at hc
        · simp at hc
        · cases hc
    · obtain ⟨piece, hpiece, hcomp⟩ := List.mem_filterMap.mp hc
      unfold component at hcomp
      split_ifs at hcomp with hskip hparent
      · cases hcomp
      · cases hcomp
        rw [not_or] at hskip
        have hof : ∀ cs : List Char, piece ≠ cs → String.ofList piece ≠ String.ofList cs :=
          fun cs hne heq => hne (String.ofList_injective heq)
        refine ⟨hof [] hskip.1, hof ['.'] hskip.2, hof ['.', '.'] hparent, ?_⟩
        rw [String.toList_ofList]
        exact pieces_no_slash piece hpiece
  | rootDir => cases hname
  | curDir => cases hname
  | parentDir => cases hname

/-- The components that lead out of a root. -/
def Component.leaves : Component → Bool
  | .rootDir | .parentDir => true
  | _ => false

theorem collect_ok {cs : List Component} : ∀ {out names : List String},
    collect out cs = .ok names ↔ (∀ c ∈ cs, c.leaves = false) ∧
      names = out ++ cs.filterMap Component.name := by
  induction cs with
  | nil =>
    intro out names
    rw [collect, Except.ok.injEq, List.filterMap_nil, List.append_nil, eq_comm]
    simp
  | cons c cs ih =>
    intro out names
    cases c with
    | normal p =>
      rw [collect, ih, List.forall_mem_cons, List.append_assoc]
      exact ⟨fun h => ⟨⟨rfl, h.1⟩, h.2⟩, fun h => ⟨h.1.2, h.2⟩⟩
    | curDir =>
      rw [collect, ih, List.forall_mem_cons]
      exact ⟨fun h => ⟨⟨rfl, h.1⟩, h.2⟩, fun h => ⟨h.1.2, h.2⟩⟩
    | rootDir => simp [collect, Component.leaves]
    | parentDir => simp [collect, Component.leaves]

/-- **A path has parts if nothing in it leads out**: its normal components, and
there are some. -/
theorem parts_ok {rel : String} {ps : List String} :
    parts rel = .ok ps ↔ (∀ c ∈ components rel, c.leaves = false) ∧ normals rel ≠ [] ∧
      ps = normals rel := by
  simp only [parts, bind_ok, ensure_ok, pure, Except.pure, Except.ok.injEq, collect_ok]
  constructor
  · rintro ⟨out, ⟨hstays, rfl⟩, _, hne, rfl⟩
    exact ⟨hstays, hne, rfl⟩
  · rintro ⟨hstays, hne, rfl⟩
    exact ⟨_, ⟨hstays, rfl⟩, (), hne, rfl⟩

theorem parts_error (rel : String) : Fails (fun e => ∃ why, e = .invalid why) (parts rel) := by
  have hcollect : ∀ (cs : List Component) (out : List String),
      Fails (fun e => ∃ why, e = .invalid why) (collect out cs) := by
    intro cs
    induction cs with
    | nil => exact fun out => .ok _
    | cons c cs ih =>
      intro out
      cases c with
      | normal p => exact ih _
      | curDir => exact ih _
      | rootDir => exact .error ⟨_, rfl⟩
      | parentDir => exact .error ⟨_, rfl⟩
  exact .bind (hcollect _ _) fun _ _ => .bind (.of_ensure fun _ => ⟨_, rfl⟩) fun _ _ => .ok _

theorem absolute_leaves {path : String} (h : path.toList.head? = some '/') :
    .rootDir ∈ components path := by
  rw [components, if_pos h]
  exact List.mem_append_left _ (List.mem_singleton_self _)

theorem parent_leaves {path : String} (h : ['.', '.'] ∈ pieces path.toList) :
    .parentDir ∈ components path :=
  List.mem_append_right _ (List.mem_filterMap.mpr ⟨_, h, by decide⟩)

/-! ### What a walk opens -/

/-- Objects opened one after another, from the `n`-th call on: each was, at the
moment it was opened, an entry of the one before under a plain name and no link,
and a directory unless it is the last. -/
inductive Chain (fs : ℕ → Fs) : ℕ → Ino → List String → Ino → Prop where
  | nil {n : ℕ} {i : Ino} : Chain fs n i [] i
  | cons {n : ℕ} {i j k : Ino} {name : String} {names : List String}
      {entries : String → Option Ino} (plain : Plain name) (directory : fs n i = .dir entries)
      (entry : entries name = some j) (real : ∀ target, fs n j ≠ .link target)
      (inner : names ≠ [] → ∃ entries, fs n j = .dir entries)
      (rest : Chain fs (n + 1) j names k) : Chain fs n i (name :: names) k

variable {K fs}

/-- **What `openat` opens under a plain name.** -/
theorem openat_ok {now : Fs} {at_ i : Ino} {name : String} {directory : Bool} (hplain : Plain name)
    (h : K.openat now at_ name directory = .ok i) :
    ∃ entries, now at_ = .dir entries ∧ entries name = some i ∧
      (∀ target, now i ≠ .link target) ∧ (directory = true → ∃ entries, now i = .dir entries) := by
  unfold Kernel.openat at h
  split at h
  · cases h
  · rw [if_pos hplain] at h
    split at h
    · rename_i entries hdir
      split at h
      · cases h
      · rename_i j hentry
        split at h
        · rename_i inner hj
          cases h
          exact ⟨entries, hdir, hentry, by simp [hj], fun _ => ⟨inner, hj⟩⟩
        · rename_i hj
          split at h
          · cases h
          · rename_i hnot
            cases h
            exact ⟨entries, hdir, hentry, by simp [hj], fun hd => absurd hd hnot⟩
        · cases h
    · cases h

/-- The directories of a walk, and what is opened from the last of them. -/
theorem walkDirs_chain {dirs names : List String} {f : Ino} :
    ∀ {n n' : ℕ} {at_ j : Ino}, (∀ name ∈ dirs, Plain name) →
      walkDirs K fs n at_ dirs = (n', .ok j) → Chain fs n' j names f →
      Chain fs n at_ (dirs ++ names) f := by
  induction dirs with
  | nil =>
    intro n n' at_ j _ h hrest
    cases h
    exact hrest
  | cons name dirs ih =>
    intro n n' at_ j hplain h hrest
    rw [walkDirs] at h
    split at h
    · cases h
    · rename_i next hopen
      obtain ⟨entries, hdir, hentry, hreal, hinner⟩ :=
        openat_ok (hplain name List.mem_cons_self) hopen
      exact .cons (hplain name List.mem_cons_self) hdir hentry hreal (fun _ => hinner rfl)
        (ih (fun x hx => hplain x (List.mem_cons_of_mem _ hx)) h hrest)

/-- **A walk that returns a file made a chain of openings.** -/
theorem walk_chain {n n' : ℕ} {dir f : Ino} {ps : List String} (hplain : ∀ name ∈ ps, Plain name)
    (h : walk K fs n dir ps = (n', .ok f)) : Chain fs n dir ps f := by
  unfold walk at h
  split at h
  · cases h
  · rename_i last hlast
    have hsplit : ps = ps.dropLast ++ [last] := (List.dropLast_append_getLast? last hlast).symm
    rw [hsplit] at hplain ⊢
    have hend : Plain last := hplain last (by simp)
    split at h
    · cases h
    · rename_i m at_ hdirs
      obtain ⟨-, hopen⟩ := Prod.mk.inj h
      obtain ⟨entries, hdir, hentry, hreal, -⟩ := openat_ok hend (mapError_ok.mp hopen)
      have hlink : Chain fs m at_ [last] f :=
        .cons hend hdir hentry hreal (fun hne => absurd rfl hne) .nil
      exact walkDirs_chain (fun name hname => hplain name (List.mem_append_left _ hname)) hdirs
        hlink

/-- **Cited files are opened strictly beneath their root.**  Whatever the file
system is at each call: if the walk along the parts of a path returns a file,
it was reached from the root by a chain of openings, one for each normal
component of the path in order; and a path that is absolute, names `..` or has
no normal component is refused with no call made. -/
theorem opened_beneath (K : Kernel) (fs : ℕ → Fs) (n : ℕ) (root : Ino) (path : String) :
    (∀ n' f, openByWalk K fs n root path = (n', .ok f) →
      normals path ≠ [] ∧ Chain fs n root (normals path) f) ∧
    (path.toList.head? = some '/' ∨ ['.', '.'] ∈ pieces path.toList ∨ normals path = [] →
      ∃ why, openByWalk K fs n root path = (n, .error (.invalid why))) := by
  constructor
  · intro n' f h
    unfold openByWalk at h
    split at h
    · cases h
    · rename_i ps hps
      obtain ⟨-, hne, rfl⟩ := parts_ok.mp hps
      exact ⟨hne, walk_chain (fun name => mem_normals) h⟩
  · intro hout
    have hrefused : ∀ ps, parts path ≠ .ok ps := by
      intro ps hps
      obtain ⟨hstays, hne, -⟩ := parts_ok.mp hps
      rcases hout with habs | hparent | hnone
      · cases hstays _ (absolute_leaves habs)
      · cases hstays _ (parent_leaves hparent)
      · exact hne hnone
    cases hparts : parts path with
    | ok ps => exact absurd hparts (hrefused ps)
    | error e =>
      obtain ⟨why, rfl⟩ := parts_error path e hparts
      exact ⟨why, by rw [openByWalk, hparts]⟩

/-! A directory is replaced by a link to the outside once it has been opened. -/

namespace Small

/-- `0` is the root with the directory `1`, which has the file `2`; `3` is
outside and has the file `4`. -/
def before : Fs := fun i =>
  match i with
  | 0 => .dir fun name => if name = "dir" then some 1 else none
  | 1 => .dir fun name => if name = "file" then some 2 else none
  | 3 => .dir fun name => if name = "file" then some 4 else none
  | _ => .file

/-- `dir` in the root is now the link `5`. -/
def swapped : Fs := fun i =>
  match i with
  | 0 => .dir fun name => if name = "dir" then some 5 else none
  | 5 => .link "../outside"
  | i => before i

def moments (n : ℕ) : Fs := if n = 0 then before else swapped

def kernel : Kernel := ⟨fun _ _ _ _ => none, fun _ _ _ _ => .ok 4, false⟩

end Small

set_option maxRecDepth 100000 in
theorem opened_beneath_swapped :
    openByWalk Small.kernel Small.moments 0 0 "./dir//file" = (2, .ok 2) ∧
      Chain Small.moments 0 0 ["dir", "file"] 2 ∧
      (∃ why, openByWalk Small.kernel Small.moments 0 0 "dir/../dir/file" =
        (0, .error (.invalid why))) ∧
      openByWalk Small.kernel Small.moments 1 0 "dir/file" = (2, .error (.os .loop)) := by
  have hopen : openByWalk Small.kernel Small.moments 0 0 "./dir//file" = (2, .ok 2) := by
    decide +kernel
  have hnames : normals "./dir//file" = ["dir", "file"] := by decide +kernel
  have hchain := ((opened_beneath Small.kernel Small.moments 0 0 "./dir//file").1 2 2 hopen).2
  rw [hnames] at hchain
  exact ⟨hopen, hchain, (opened_beneath Small.kernel Small.moments 0 0 "dir/../dir/file").2
    (.inr (.inl (by decide +kernel))), by decide +kernel⟩

/-! ### By whichever route -/

/-- What is resolved at one moment is a chain of openings at that moment. -/
theorem resolve_chain {now : Fs} {ps : List String} {f : Ino} :
    ∀ {n : ℕ} {dir : Ino}, (∀ name ∈ ps, Plain name) → K.resolve now dir ps = .ok f →
      Chain (fun _ => now) n dir ps f := by
  induction ps with
  | nil =>
    intro n dir _ h
    cases h
  | cons name names ih =>
    intro n dir hplain h
    have hname := hplain name List.mem_cons_self
    cases names with
    | nil =>
      obtain ⟨entries, hdir, hentry, hreal, -⟩ := openat_ok hname h
      exact .cons hname hdir hentry hreal (fun hne => absurd rfl hne) .nil
    | cons name' names =>
      obtain ⟨next, hopen, hrest⟩ := bind_ok.mp h
      obtain ⟨entries, hdir, hentry, hreal, hinner⟩ := openat_ok hname hopen
      exact .cons hname hdir hentry hreal (fun _ => hinner rfl)
        (ih (fun x hx => hplain x (List.mem_cons_of_mem _ hx)) hrest)

/-- **What is read under a root is read from a file beneath it**, reached by a
chain of openings one after another or at one moment. -/
theorem readUnder_ok {D : Descriptors} {n : ℕ} {root : Except Errno Ino} {rel : String}
    {bytes : Bytes} (h : readUnder K fs D n root rel = .ok bytes) :
    ∃ dir file, root = .ok dir ∧ D.take file (maxFile + 1) = .ok bytes ∧
      (Chain fs (n + 1) dir (normals rel) file ∨
        Chain (fun _ => fs n) n dir (normals rel) file) := by
  simp only [readUnder, bind_ok, mapError_ok, ensure_ok, pure, Except.pure, Except.ok.injEq] at h
  obtain ⟨_, -, dir, hroot, file, hopen, _, -, _, -, _, -, out, htake, _, -, rfl⟩ := h
  refine ⟨dir, file, hroot, htake, ?_⟩
  unfold open_ at hopen
  split at hopen
  · cases hopen
  · rename_i ps hps
    obtain ⟨-, -, rfl⟩ := parts_ok.mp hps
    split at hopen
    · exact .inl (walk_chain (fun name => mem_normals) (Prod.ext rfl hopen))
    · right
      have hat : K.openat2 (fs n) dir (normals rel) = .ok file := mapError_ok.mp hopen
      rw [Kernel.openat2] at hat
      split at hat
      · exact resolve_chain (fun name => mem_normals) hat
      · cases hat

end Beneath
