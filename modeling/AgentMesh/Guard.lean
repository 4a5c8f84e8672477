/-
The revocation guards.

Any number of guards, in any number of processes, share one log file and one
`Seen` record.  A guard keeps the state it last verified together with the
exact bytes it was verified from; the cached state stands only while the log
still has those bytes and `Seen` is exactly what that state produced.  Anything
else is loaded afresh under a lock, checked to extend `Seen`, and `Seen` is
advanced.  The log file is in the hands of an adversary: every read of it may
return anything.

* `Guard.load_spec` — however a load ends, `Seen` is as it was or names a
  verified log that extends it, and a load that returns a state leaves it;
* `Guards.Marks.step` — one call keeps the mark: `Seen` names a verified log
  that extends every log accepted so far;
* `revocation_monotone` — what an accepted log revoked stays revoked for every
  guard, and `Seen` never names a shorter log.
-/
import AgentMesh.Revocation
import AgentMesh.Ideal

open HashChain

namespace Mesh

/-! ### The model -/

inductive GuardError where
  /-- The peer's chain, or a link of it, is revoked (fingerprint, hex). -/
  | revoked (agent : String)
  | badCertChain (why : String)
  /-- No usable revocation log. -/
  | unavailable (why : String)
  deriving DecidableEq

def GuardError.text : GuardError → String
  | .revoked agent => "peer revoked: agent " ++ agent
  | .badCertChain why => "cert chain rejected: " ++ why
  | .unavailable why => "revocation log unavailable: " ++ why

def unavailable (what e : String) : GuardError := .unavailable (what ++ ": " ++ e)

/-- Third-party encodings: the id of a log node, and the JSON of logs and of
`Seen` records. -/
structure LogFormat where
  nodeId : MerkleNode RevocationEntry → ContentId
  logOfJson : Bytes → Except String RevocationLog
  seenJson : Seen → Bytes
  seenOfJson : Bytes → Except String Seen

/-- Ids are injective and a `Seen` record is read back as it was written. -/
structure LogFormat.Lawful (F : LogFormat) : Prop where
  ids : Function.Injective F.nodeId
  seen : ∀ r, F.seenOfJson (F.seenJson r) = .ok r

/-- How the replacement of the `Seen` record ends: a failure may come before
or after the rename. -/
inductive Persist where
  | done
  | failed (why : String) (replaced : Bool)
  deriving DecidableEq

/-- What the file system answers in one call of `state`. -/
structure Reads where
  /-- The log as first read. -/
  now : Except String Bytes
  /-- Whether `seen_is` can read the record. -/
  peek : Bool
  lock : Except String Unit
  /-- The log as read under the lock. -/
  bytes : Except String Bytes
  /-- An error other than absence in reading the record. -/
  seenError : Option String
  persist : Persist

structure Guard where
  localUser : Fingerprint
  /-- The state last verified, and the bytes it was verified from. -/
  cache : Option (RevocationState × Bytes)

variable (C : Crypto) (F : LogFormat)

/-- Check `peer` against an already verified state. -/
def verifyWith (peer : CertChain) (state : RevocationState) : Except GuardError Unit :=
  (peer.verifyWith C state).mapError fun
    | .revoked agent => .revoked (agent.hex C)
    | other => .badCertChain (other.text C)

/-- The record a file holds, if it can be parsed. -/
def parsedSeen (file : Option Bytes) : Option Seen :=
  file.bind fun raw => (F.seenOfJson raw).toOption

/-- Whether the persisted record is exactly the one `state` produced. -/
def seenIs (file : Option Bytes) (peek : Bool) (state : RevocationState) : Bool :=
  peek && (parsedSeen F file).any fun seen => decide (seen = state.seen)

namespace Guard

/-- The checks of `load`: the verified state, its bytes, and whether the record
has to be advanced. -/
def vet (g : Guard) (file : Option Bytes) (r : Reads) :
    Except GuardError (RevocationState × Bytes × Bool) := do
  r.lock.mapError (unavailable "lock seen record")
  let bytes ← r.bytes.mapError (unavailable "read revocation log")
  let log ← (F.logOfJson bytes).mapError (unavailable "parse revocation log")
  let state ← (log.verify C F.nodeId).mapError fun e =>
    unavailable "verify revocation log" (e.text C)
  ensure (state.user = g.localUser)
    (unavailable "revocation log" "belongs to a different user than the local identity")
  match r.seenError, file with
  | some e, _ => .error (unavailable "read seen record" e)
  | none, none => return (state, bytes, true)
  | none, some raw => do
    let seen ← (F.seenOfJson raw).mapError (unavailable "parse seen record")
    (log.extends_ C F.nodeId seen).mapError fun e => unavailable "revocation log" (e.text C)
    return (state, bytes, decide (seen.len < state.len))

/-- Verify the log and advance the record, as one transaction. -/
def load (g : Guard) (file : Option Bytes) (r : Reads) :
    Option Bytes × Except GuardError (RevocationState × Bytes) :=
  match g.vet C F file r with
  | .error e => (file, .error e)
  | .ok (state, bytes, false) => (file, .ok (state, bytes))
  | .ok (state, bytes, true) =>
    match r.persist with
    | .done => (some (F.seenJson state.seen), .ok (state, bytes))
    | .failed why replaced =>
      (if replaced then some (F.seenJson state.seen) else file,
        .error (unavailable "persist seen" why))

/-- The cached state, if it stands: the log has its bytes and the record is
its own. -/
def cached (g : Guard) (file : Option Bytes) (now : Bytes) (peek : Bool) : Option RevocationState :=
  match g.cache with
  | some (state, bytes) => if bytes = now ∧ seenIs F file peek state then some state else none
  | none => none

def reload (g : Guard) (file : Option Bytes) (r : Reads) :
    Guard × Option Bytes × Except GuardError RevocationState :=
  match g.load C F file r with
  | (file, .ok (state, bytes)) => ({ g with cache := some (state, bytes) }, file, .ok state)
  | (file, .error e) => ({ g with cache := none }, file, .error e)

/-- The current verified state, the log read again if it changed. -/
def state (g : Guard) (file : Option Bytes) (r : Reads) :
    Guard × Option Bytes × Except GuardError RevocationState :=
  match r.now with
  | .error e => ({ g with cache := none }, file, .error (unavailable "read revocation log" e))
  | .ok now =>
    match g.cached F file now r.peek with
    | some state => (g, file, .ok state)
    | none => g.reload C F file r

def check (g : Guard) (file : Option Bytes) (r : Reads) (peer : CertChain) :
    Guard × Option Bytes × Except GuardError Unit :=
  match g.state C F file r with
  | (g, file, .ok state) => (g, file, verifyWith C peer state)
  | (g, file, .error e) => (g, file, .error e)

end Guard

/-- The guards over one log file, and the record they share. -/
structure Guards (ι : Type) where
  guard : ι → Guard
  seen : Option Bytes

namespace Guards

variable {ι : Type} [DecidableEq ι]

def step (w : Guards ι) (call : ι × Reads) : Guards ι × Except GuardError RevocationState :=
  let out := (w.guard call.1).state C F w.seen call.2
  (⟨Function.update w.guard call.1 out.1, out.2.1⟩, out.2.2)

def after (w : Guards ι) (calls : List (ι × Reads)) : Guards ι :=
  calls.foldl (fun w call => (w.step C F call).1) w

def results (w : Guards ι) : List (ι × Reads) → List (Except GuardError RevocationState)
  | [] => []
  | call :: calls => (w.step C F call).2 :: results (w.step C F call).1 calls

end Guards

/-! ### One call -/

variable {C F}

theorem parsedSeen_some {raw : Bytes} {r : Seen} :
    parsedSeen F (some raw) = some r ↔ F.seenOfJson raw = .ok r := by
  rw [parsedSeen, Option.bind_some]
  cases F.seenOfJson raw with
  | error e => exact ⟨fun h => (nomatch h), fun h => (nomatch h)⟩
  | ok s => exact ⟨fun h => (by cases h; rfl), fun h => (by cases h; rfl)⟩

theorem parsedSeen_json (hF : F.Lawful) (r : Seen) : parsedSeen F (some (F.seenJson r)) = some r :=
  parsedSeen_some.mpr (hF.seen r)

theorem seenIs_true {file : Option Bytes} {peek : Bool} {s : RevocationState}
    (h : seenIs F file peek s = true) : parsedSeen F file = some s.seen := by
  simp only [seenIs, Bool.and_eq_true, Option.any_eq_true, decide_eq_true_eq] at h
  obtain ⟨-, r, hr, rfl⟩ := h
  exact hr

/-- `log` has been verified, and says `s`. -/
def RevocationLog.Says (C : Crypto) (F : LogFormat) (log : RevocationLog)
    (s : RevocationState) : Prop :=
  log.verify C F.nodeId = .ok s

/-- `file` holds a record that `log` extends, or is absent. -/
def RevocationLog.Follows (C : Crypto) (F : LogFormat) (log : RevocationLog)
    (file : Option Bytes) : Prop :=
  ∀ raw, file = some raw → ∃ r, F.seenOfJson raw = .ok r ∧ log.extends_ C F.nodeId r = .ok ()

namespace RevocationLog

variable {log log' : RevocationLog} {s s' : RevocationState} {file : Option Bytes}

theorem Follows.record {seen : Seen} (hseen : parsedSeen F file = some seen)
    (hfollows : log.Follows C F file) : log.extends_ C F.nodeId seen = .ok () := by
  cases file with
  | none => cases hseen
  | some raw =>
    obtain ⟨r, hr, hext⟩ := hfollows raw rfl
    rw [parsedSeen_some, hr, Except.ok.injEq] at hseen
    rwa [hseen] at hext

theorem Follows.extends (hF : F.Lawful) (h : log.Says C F s)
    (hseen : parsedSeen F file = some s.seen) (hfollows : log'.Follows C F file) :
    log.Extends log' :=
  extends_isPrefix hF.ids h (Follows.record hseen hfollows)

theorem Says.extends_of_seen (hF : F.Lawful) (h : log.Says C F s) (h' : log'.Says C F s')
    (hseen : s.seen = s'.seen) : log.Extends log' := by
  obtain ⟨hlinked, hlen, hhead⟩ := verify_linked h
  obtain ⟨hlinked', hlen', hhead'⟩ := verify_linked h'
  rw [RevocationState.seen, RevocationState.seen, Seen.mk.injEq] at hseen
  obtain ⟨-, hl, hh⟩ := hseen
  obtain ⟨m, hm, hmid⟩ := Option.map_eq_some_iff.mp hhead
  obtain ⟨n, hn, hnid⟩ := Option.map_eq_some_iff.mp hhead'
  rw [List.getLast?_eq_getElem?, ← hlen', ← hl, hlen] at hn
  exact hlinked.isPrefix hF.ids hlinked' hm hn (by rw [hmid, hnid, hh])

end RevocationLog

/-- What one call may do to the record: leave it, or replace it by that of a
verified log that extends it. -/
def Moves (C : Crypto) (F : LogFormat) (file file' : Option Bytes) : Prop :=
  file' = file ∨ ∃ (log : RevocationLog) (s : RevocationState),
    log.Says C F s ∧ log.Follows C F file ∧ parsedSeen F file' = some s.seen

theorem Moves.le {file file' : Option Bytes} (h : Moves C F file file') {seen : Seen}
    (hseen : parsedSeen F file = some seen) :
    ∃ seen', parsedSeen F file' = some seen' ∧ seen.len ≤ seen'.len := by
  rcases h with rfl | ⟨log, s, hstate, hfollows, hnew⟩
  · exact ⟨seen, hseen, Nat.le_refl _⟩
  · have hext := RevocationLog.Follows.record hseen hfollows
    obtain ⟨s', hs', -, -, hle, -⟩ := RevocationLog.extends_ok.mp hext
    obtain rfl : s' = s := Except.ok.inj (hs'.symm.trans hstate)
    exact ⟨s'.seen, hnew, hle⟩

namespace Guard

variable {g : Guard} {file : Option Bytes} {r : Reads}

theorem vet_ok {s : RevocationState} {bytes : Bytes} {advance : Bool}
    (h : g.vet C F file r = .ok (s, bytes, advance)) :
    ∃ log : RevocationLog, log.Says C F s ∧ log.Follows C F file ∧
      (advance = false → ∃ raw seen, file = some raw ∧ F.seenOfJson raw = .ok seen ∧
        log.extends_ C F.nodeId seen = .ok () ∧ s.len ≤ seen.len) := by
  simp only [vet, bind_ok, mapError_ok, ensure_ok] at h
  obtain ⟨-, -, b, -, log, -, state, hverify, -, -, h⟩ := h
  split at h
  · cases h
  · simp only [pure, Except.pure, Except.ok.injEq, Prod.mk.injEq] at h
    obtain ⟨rfl, rfl, rfl⟩ := h
    refine ⟨log, hverify, ?_, ?_⟩
    · intro raw hraw
      cases hraw
    · intro hfalse
      cases hfalse
  · rename_i raw _
    simp only [bind_ok, mapError_ok, pure, Except.pure, Except.ok.injEq, Prod.mk.injEq] at h
    obtain ⟨seen, hseen, _, hext, rfl, rfl, hadvance⟩ := h
    refine ⟨log, hverify, fun raw' hraw => ?_, fun hfalse => ?_⟩
    · cases hraw
      exact ⟨seen, hseen, hext⟩
    · rw [hfalse, decide_eq_false_iff_not, not_lt] at hadvance
      exact ⟨raw, seen, rfl, hseen, hext, hadvance⟩

/-- A log that extends a record no shorter than itself has that record. -/
theorem seen_of_extends {log : RevocationLog} {s : RevocationState} {seen : Seen}
    (h : log.Says C F s) (hext : log.extends_ C F.nodeId seen = .ok ()) (hlen : s.len ≤ seen.len) :
    s.seen = seen := by
  obtain ⟨s', hs', huser, -, hle, n, hn, hid⟩ := RevocationLog.extends_ok.mp hext
  obtain rfl : s' = s := Except.ok.inj (hs'.symm.trans h)
  have heq : s'.len = seen.len := Nat.le_antisymm hlen hle
  obtain ⟨-, hnodes, hhead⟩ := RevocationLog.verify_linked hs'
  rw [List.getLast?_eq_getElem?, ← hnodes, heq, hn, Option.map_some, Option.some.injEq] at hhead
  rw [RevocationState.seen, huser, heq, ← hhead, hid]

/-- **What a load does**: `Seen` stays as it was or becomes that of a verified
log that follows it, and a returned state is the one the record names. -/
theorem load_spec (hF : F.Lawful) (g : Guard) (file : Option Bytes) (r : Reads) :
    Moves C F file (g.load C F file r).1 ∧
      ∀ s bytes, (g.load C F file r).2 = .ok (s, bytes) →
        ∃ log : RevocationLog, log.Says C F s ∧ log.Follows C F file ∧
          parsedSeen F (g.load C F file r).1 = some s.seen := by
  rw [load]
  split
  · exact ⟨.inl rfl, fun s bytes h => by cases h⟩
  · -- nothing to advance: the record is already that of the log
    rename_i s bytes hvet
    obtain ⟨log, hstate, hfollows, hkept⟩ := vet_ok hvet
    obtain ⟨raw, seen, rfl, hseen, hext, hlen⟩ := hkept rfl
    refine ⟨.inl rfl, fun s' bytes' h => ?_⟩
    cases h
    refine ⟨log, hstate, hfollows, parsedSeen_some.mpr ?_⟩
    rw [seen_of_extends hstate hext hlen]
    exact hseen
  · rename_i s bytes hvet
    obtain ⟨log, hstate, hfollows, -⟩ := vet_ok hvet
    have hnew := parsedSeen_json hF s.seen
    split
    · refine ⟨.inr ⟨log, s, hstate, hfollows, hnew⟩, fun s' bytes' h => ?_⟩
      cases h
      exact ⟨log, hstate, hfollows, hnew⟩
    · rename_i why replaced _
      refine ⟨?_, fun s' bytes' h => by cases h⟩
      cases replaced with
      | false => exact .inl rfl
      | true => exact .inr ⟨log, s, hstate, hfollows, hnew⟩

theorem cached_some {now : Bytes} {peek : Bool} {s : RevocationState}
    (h : g.cached F file now peek = some s) :
    (∃ bytes, g.cache = some (s, bytes)) ∧ parsedSeen F file = some s.seen := by
  rw [cached] at h
  split at h
  · rename_i state bytes hcache
    split at h
    · rename_i hhit
      cases h
      exact ⟨⟨bytes, hcache⟩, seenIs_true hhit.2⟩
    · cases h
  · cases h

/-- What is cached is the state of a verified log. -/
def Held (C : Crypto) (F : LogFormat) (g : Guard) : Prop :=
  ∀ s bytes, g.cache = some (s, bytes) → ∃ log : RevocationLog, log.Says C F s

/-- What one call of `state` may do to the guard and the record, and what a
state it returns is. -/
structure Answers (C : Crypto) (F : LogFormat) (file : Option Bytes)
    (out : Guard × Option Bytes × Except GuardError RevocationState) : Prop where
  held : out.1.Held C F
  moves : Moves C F file out.2.1
  state : ∀ s, out.2.2 = .ok s → ∃ log : RevocationLog, log.Says C F s ∧
    parsedSeen F out.2.1 = some s.seen ∧
    (log.Follows C F file ∨ parsedSeen F file = some s.seen)

theorem Answers.forgets (e : GuardError) {file' : Option Bytes} (h : Moves C F file file') :
    Answers C F file ({ g with cache := none }, file', .error e) where
  held _ _ hc := by cases hc
  moves := h
  state _ hs := by cases hs

theorem reload_answers (hF : F.Lawful) : Answers C F file (g.reload C F file r) := by
  obtain ⟨hmoves, hstate⟩ := load_spec (C := C) hF g file r
  rw [reload]
  split
  · rename_i file' s bytes hload
    rw [hload] at hmoves hstate
    obtain ⟨log, hlog, hfollows, hseen⟩ := hstate s bytes rfl
    refine ⟨fun s' bytes' hc => ?_, hmoves, fun s' hs => ?_⟩
    · cases hc
      exact ⟨log, hlog⟩
    · cases hs
      exact ⟨log, hlog, hseen, .inl hfollows⟩
  · rename_i file' e hload
    rw [hload] at hmoves
    exact Answers.forgets e hmoves

/-- **What one call of `state` does.** -/
theorem state_answers (hF : F.Lawful) (hg : g.Held C F) (file : Option Bytes) (r : Reads) :
    Answers C F file (g.state C F file r) := by
  rw [state]
  split
  · exact Answers.forgets _ (.inl rfl)
  · split
    · rename_i s hcached
      obtain ⟨⟨bytes, hcache⟩, hseen⟩ := cached_some hcached
      refine ⟨hg, .inl rfl, fun s' hs => ?_⟩
      cases hs
      obtain ⟨log, hlog⟩ := hg s bytes hcache
      exact ⟨log, hlog, hseen, .inr hseen⟩
    · exact reload_answers hF

end Guard

/-! ### Runs of the guards -/

namespace Guards

variable {ι : Type}

/-- The invariant of a run: every cached state is that of a verified log, and
once a log has been accepted `Seen` names a verified log that extends all that
have been. -/
structure Marks (C : Crypto) (F : LogFormat) (w : Guards ι) (past : List RevocationLog) :
    Prop where
  held : ∀ i, (w.guard i).Held C F
  mark : past ≠ [] → ∃ (log : RevocationLog) (s : RevocationState), log.Says C F s ∧
    parsedSeen F w.seen = some s.seen ∧ ∀ p ∈ past, p.Extends log

variable {w : Guards ι} {past : List RevocationLog}

theorem Marks.start (h : ∀ i, (w.guard i).cache = none) : w.Marks C F [] where
  held i s bytes hc := by
    rw [h i] at hc
    cases hc
  mark hne := absurd rfl hne

/-- A log that follows the record, or whose record it is, extends every log
accepted so far. -/
theorem Marks.extends (hF : F.Lawful) (h : w.Marks C F past) {log : RevocationLog}
    {s : RevocationState} (hstate : log.Says C F s)
    (hlog : log.Follows C F w.seen ∨ parsedSeen F w.seen = some s.seen) :
    ∀ p ∈ past, p.Extends log := by
  intro p hp
  obtain ⟨mark, t, ht, hmark, hpast⟩ := h.mark (List.ne_nil_of_mem hp)
  refine (hpast p hp).trans ?_
  rcases hlog with hfollows | hseen
  · exact hfollows.extends hF ht hmark
  · rw [hmark, Option.some.injEq] at hseen
    exact ht.extends_of_seen hF hstate hseen

variable [DecidableEq ι]

/-- **One call keeps the mark**, and a state it returns is that of a log that
extends every one accepted so far. -/
theorem Marks.step (hF : F.Lawful) (h : w.Marks C F past) (call : ι × Reads) :
    (w.step C F call).1.Marks C F past ∧ ∀ s, (w.step C F call).2 = .ok s →
      ∃ log : RevocationLog, log.Says C F s ∧ (∀ p ∈ past, p.Extends log) ∧
        (w.step C F call).1.Marks C F (log :: past) := by
  have hans := Guard.state_answers hF (h.held call.1) w.seen call.2
  have hheld : ∀ i, ((w.step C F call).1.guard i).Held C F := by
    intro i
    by_cases hi : i = call.1
    · rw [hi]
      simpa [Guards.step] using hans.held
    · simpa [Guards.step, Function.update_of_ne hi] using h.held i
  refine ⟨⟨hheld, fun hne => ?_⟩, fun s hs => ?_⟩
  · rcases hans.moves with hsame | ⟨log, s, hstate, hfollows, hseen⟩
    · obtain ⟨log, s, hstate, hseen, hpast⟩ := h.mark hne
      have hsame : (w.step C F call).1.seen = w.seen := hsame
      exact ⟨log, s, hstate, hsame ▸ hseen, hpast⟩
    · exact ⟨log, s, hstate, hseen, h.extends hF hstate (.inl hfollows)⟩
  · obtain ⟨log, hstate, hseen, hlog⟩ := hans.state s hs
    have hpast := h.extends hF hstate hlog
    refine ⟨log, hstate, hpast, hheld, fun _ => ⟨log, s, hstate, hseen, fun p hp => ?_⟩⟩
    rcases List.mem_cons.mp hp with rfl | hp
    · exact List.prefix_rfl
    · exact hpast p hp

/-- Every state a run returns is that of a log that extends those accepted
before the run. -/
theorem Marks.results (hF : F.Lawful) :
    ∀ {calls : List (ι × Reads)} {w : Guards ι} {past : List RevocationLog}, w.Marks C F past →
      ∀ {j : ℕ} {s : RevocationState}, (w.results C F calls)[j]? = some (.ok s) →
        ∃ log : RevocationLog, log.Says C F s ∧ ∀ p ∈ past, p.Extends log := by
  intro calls
  induction calls with
  | nil =>
    intro w past _ j s hs
    simp [Guards.results] at hs
  | cons call calls ih =>
    intro w past h j s hs
    obtain ⟨hnext, hok⟩ := h.step hF call
    cases j with
    | zero =>
      obtain ⟨log, hstate, hpast, -⟩ := hok s (Option.some.inj hs)
      exact ⟨log, hstate, hpast⟩
    | succ j => exact ih hnext hs

/-- A later state is that of a log that extends the earlier one's. -/
theorem Marks.ordered (hF : F.Lawful) :
    ∀ {calls : List (ι × Reads)} {w : Guards ι} {past : List RevocationLog}, w.Marks C F past →
      ∀ {i j : ℕ} {s t : RevocationState}, i < j →
        (w.results C F calls)[i]? = some (.ok s) →
        (w.results C F calls)[j]? = some (.ok t) →
        ∃ log log' : RevocationLog, log.Says C F s ∧ log'.Says C F t ∧ log.Extends log' := by
  intro calls
  induction calls with
  | nil =>
    intro w past _ i j s t _ hs
    simp [Guards.results] at hs
  | cons call calls ih =>
    intro w past h i j s t hij hs ht
    obtain ⟨hnext, hok⟩ := h.step hF call
    obtain ⟨j, rfl⟩ := Nat.exists_eq_succ_of_ne_zero (Nat.ne_of_gt (Nat.zero_lt_of_lt hij))
    cases i with
    | zero =>
      -- the earlier state is accepted now: the rest of the run extends its log
      obtain ⟨log, hstate, -, hmarks⟩ := hok s (Option.some.inj hs)
      obtain ⟨log', hstate', hpast⟩ := hmarks.results hF ht
      exact ⟨log, log', hstate, hstate', hpast log List.mem_cons_self⟩
    | succ i => exact ih hnext (Nat.lt_of_succ_lt_succ hij) hs ht

theorem Marks.after (hF : F.Lawful) (h : w.Marks C F past) (calls : List (ι × Reads)) :
    (w.after C F calls).Marks C F past := by
  induction calls generalizing w with
  | nil => exact h
  | cons call calls ih => exact ih (h.step hF call).1

theorem Marks.seen_le (hF : F.Lawful) (h : w.Marks C F past) (calls : List (ι × Reads))
    {seen : Seen} (hseen : parsedSeen F w.seen = some seen) :
    ∃ seen', parsedSeen F (w.after C F calls).seen = some seen' ∧ seen.len ≤ seen'.len := by
  induction calls generalizing w seen with
  | nil => exact ⟨seen, hseen, Nat.le_refl _⟩
  | cons call calls ih =>
    have hmoves := (Guard.state_answers hF (h.held call.1) w.seen call.2).moves
    obtain ⟨seen', hseen', hle⟩ := hmoves.le hseen
    obtain ⟨seen'', hseen'', hle'⟩ := ih (h.step hF call).1 hseen'
    exact ⟨seen'', hseen'', hle.trans hle'⟩

end Guards

/-! ### Chains -/

theorem CertChain.revokedLink_mono {cert : CertChain} {revoked revoked' : Finset Fingerprint}
    (hle : revoked ⊆ revoked') {agent : Fingerprint}
    (h : cert.revokedLink C revoked = some agent) :
    ∃ agent', cert.revokedLink C revoked' = some agent' := by
  induction cert with
  | root pk m user sig =>
    rw [revokedLink] at h ⊢
    split at h
    · rename_i hmem
      exact ⟨_, if_pos (hle hmem)⟩
    · cases h
  | delegated pk m issuer parent sig ih =>
    rw [revokedLink] at h ⊢
    by_cases hmem' : Fingerprint.ofBytes C pk ∈ revoked'
    · exact ⟨_, if_pos hmem'⟩
    · rw [if_neg (fun hmem => hmem' (hle hmem))] at h
      rw [if_neg hmem']
      exact ih h

/-- A chain is refused as revoked only for a revoked link. -/
theorem revokedLink_of_verifyWith {peer : CertChain} {s : RevocationState} {hex : String}
    (h : verifyWith C peer s = .error (.revoked hex)) :
    ∃ agent, peer.revokedLink C s.revoked = some agent := by
  cases hlink : peer.revokedLink C s.revoked with
  | some agent => exact ⟨agent, rfl⟩
  | none =>
    simp only [verifyWith, CertChain.verifyWith, hlink, ensure] at h
    split at h
    · cases hv : peer.verifyAt C s.generation <;> simp [hv, Except.mapError, bind, Except.bind] at h
    · simp [Except.mapError, bind, Except.bind] at h

theorem verifyWith_ne_ok {peer : CertChain} {s : RevocationState} {agent : Fingerprint}
    (h : peer.revokedLink C s.revoked = some agent) : verifyWith C peer s ≠ .ok () := by
  intro hok
  simp only [verifyWith, mapError_ok, CertChain.verifyWith, bind_ok, h] at hok
  obtain ⟨_, -, hok⟩ := hok
  cases hok

/-- **Revocation is monotone.**  Whatever the log file holds at each read and
however each call ends, a state returned later is that of a log that extends
the earlier one's: it is no shorter, revokes no less and is at no earlier
generation, so a chain once refused as revoked is never accepted again by any
guard.  The record never names a shorter log than before. -/
theorem revocation_monotone {ι : Type} [DecidableEq ι] (hF : F.Lawful) (w : Guards ι)
    (hfresh : ∀ i, (w.guard i).cache = none) (calls : List (ι × Reads)) :
    (∀ (i j : ℕ) (s t : RevocationState), i < j → (w.results C F calls)[i]? = some (.ok s) →
      (w.results C F calls)[j]? = some (.ok t) →
        (∃ log log' : RevocationLog, log.verify C F.nodeId = .ok s ∧
          log'.verify C F.nodeId = .ok t ∧ log.nodes <+: log'.nodes) ∧
        s.len ≤ t.len ∧ s.revoked ⊆ t.revoked ∧ s.generation ≤ t.generation ∧
        ∀ peer hex, verifyWith C peer s = .error (.revoked hex) → verifyWith C peer t ≠ .ok ()) ∧
    ∀ pre post seen, calls = pre ++ post → parsedSeen F (w.after C F pre).seen = some seen →
      ∃ seen', parsedSeen F (w.after C F calls).seen = some seen' ∧ seen.len ≤ seen'.len := by
  have hstart : w.Marks C F [] := .start hfresh
  refine ⟨fun i j s t hij hs ht => ?_, fun pre post seen hcalls hseen => ?_⟩
  · obtain ⟨log, log', hstate, hstate', hext⟩ := hstart.ordered hF hij hs ht
    have hle := hext.mono hstate hstate'
    refine ⟨⟨log, log', hstate, hstate', hext⟩, hle.len, hle.revoked, hle.generation, ?_⟩
    intro peer hex hrefused
    obtain ⟨agent, hagent⟩ := revokedLink_of_verifyWith hrefused
    obtain ⟨agent', hagent'⟩ := CertChain.revokedLink_mono hle.revoked hagent
    exact verifyWith_ne_ok hagent'
  · have hmid : (w.after C F pre).Marks C F [] := hstart.after hF pre
    obtain ⟨seen', hseen', hle⟩ := hmid.seen_le hF post hseen
    refine ⟨seen', ?_, hle⟩
    rw [hcalls, Guards.after, List.foldl_append]
    exact hseen'

/-! Two guards of the user with key 9: one loads the bare log, the other one
the log that revokes key 5; the first is then shown the bare log again. -/

deriving instance Countable for RevocationEntry
deriving instance Countable for SignedEntry
deriving instance Countable for RevocationLog
deriving instance Countable for Seen

namespace Shared

open Flock

def member : AgentMetadata := ⟨"", "", [], "", none, .top⟩

noncomputable def crypto : Crypto := idealCrypto [member]

noncomputable def peer : CertChain := .root 5 member ⟨9⟩ (mark 9 (signPayload crypto 5 member))

def nodes : List (MerkleNode RevocationEntry) := [⟨∅, .genesis ⟨9⟩⟩, ⟨{⟨[0]⟩}, .revoke ⟨5⟩⟩]

/-- The log with the first `n` of the nodes; their ids are `[0]` and `[0, 0]`. -/
def log (n : ℕ) : RevocationLog :=
  ⟨(nodes.take n).mapIdx fun i node =>
    ⟨node, mark 9 (revocationMessage ⟨0 :: List.replicate i 0⟩)⟩⟩

def records : List Seen := [⟨⟨9⟩, 1, ⟨[0]⟩⟩, ⟨⟨9⟩, 2, ⟨[0, 0]⟩⟩]

noncomputable def format : LogFormat where
  nodeId node := ⟨tabled nodes node⟩
  logOfJson b := .ok (log b.length)
  seenJson := tabled records
  seenOfJson b := okOr (recalled records b) "eof"

theorem format_lawful : format.Lawful where
  ids _ _ h := tabled_injective _ (congrArg ContentId.bytes h)
  seen r := okOr_ok.mpr (recalled_tabled records r)

/-- The log file has the first `n` nodes, and nothing fails. -/
def shows (n : ℕ) : Reads :=
  let bytes : Bytes := List.replicate n 0
  ⟨.ok bytes, true, .ok (), .ok bytes, none, .done⟩

def guards : Guards Bool := ⟨fun _ => ⟨⟨9⟩, none⟩, none⟩

def calls : List (Bool × Reads) :=
  [(false, shows 1), (true, shows 2), (false, shows 1), (false, shows 2)]

def states (n : ℕ) : RevocationState :=
  if n = 1 then ⟨⟨9⟩, ⟨[0]⟩, 1, 0, ∅⟩ else ⟨⟨9⟩, ⟨[0, 0]⟩, 2, 0, {⟨5⟩}⟩

end Shared

set_option maxRecDepth 100000 in
theorem revocation_monotone_shared :
    let results := Shared.guards.results Shared.crypto Shared.format Shared.calls
    results = [.ok (Shared.states 1), .ok (Shared.states 2),
      .error (unavailable "revocation log"
        "revocation state: log is shorter than what was seen (rollback)"),
      .ok (Shared.states 2)] ∧
    verifyWith Shared.crypto Shared.peer (Shared.states 1) = .ok () ∧
    verifyWith Shared.crypto Shared.peer (Shared.states 2) = .error (.revoked "kkkkk") ∧
    (Shared.states 1).revoked ⊆ (Shared.states 2).revoked ∧
    ∀ j t, 1 < j → results[j]? = some (.ok t) →
      verifyWith Shared.crypto Shared.peer t ≠ .ok () := by
  intro results
  have hrun : results = [.ok (Shared.states 1), .ok (Shared.states 2),
      .error (unavailable "revocation log"
        "revocation state: log is shorter than what was seen (rollback)"),
      .ok (Shared.states 2)] := by decide +kernel
  have hrefused : verifyWith Shared.crypto Shared.peer (Shared.states 2) =
      .error (.revoked "kkkkk") := by decide +kernel
  have hmono := (revocation_monotone (C := Shared.crypto) Shared.format_lawful Shared.guards
    (fun _ => rfl) Shared.calls).1
  refine ⟨hrun, by decide +kernel, hrefused, ?_, fun j t hj ht => ?_⟩
  · exact (hmono 0 1 _ _ Nat.one_pos (congrArg (·[0]?) hrun) (congrArg (·[1]?) hrun)).2.2.1
  · exact (hmono 1 j _ _ hj (congrArg (·[1]?) hrun) ht).2.2.2.2 _ _ hrefused

end Mesh
