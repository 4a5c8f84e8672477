/-
Checking a peer during a session.

An established session asks its `LiveCheck` before it hands anything on.  The
check reads the log each time but verifies the peer's chain again only when the
log's head has moved, and once it has refused it refuses for good.  Skipping
the chain is sound because the head of a verified log determines the log, and
so everything the log says.

* `RevocationLog.Says.eq_of_head` — verified logs with one head say the same;
* `LiveCheck.admission_spec` — one call, as the check that always verifies;
* `LiveCheck.calls_of_passed`, `LiveCheck.calls_of_refused` — any calls after
  it, through any clone, with other users of the guard in between;
* `live_check_reverifies` — these together.
-/
import AgentMesh.RevocationChains
import AgentMesh.Envelope

open HashChain

/-- What a check returns for an error of its guard. -/
def Transport.TransportError.ofGuard : Mesh.GuardError → TransportError
  | .revoked agent => .revoked agent
  | .badCertChain why => .badCertChain why
  | .unavailable why => .revocationUnavailable why

namespace Mesh

open Transport (TransportError)

/-! ### The model -/

deriving instance DecidableEq for Guard

/-- A guard over a log file, or over a fresh log that is kept nowhere.  Clones
share it. -/
inductive RevocationGuard where
  | file (guard : Guard)
  | memory (state : RevocationState)
  deriving DecidableEq

section Model

variable (C : Crypto) (F : LogFormat)

namespace RevocationGuard

/-- The current verified state.  `seen` is the record and `r` what the file
system answers at this call. -/
def state (seen : Option Bytes) (r : Reads) :
    RevocationGuard → RevocationGuard × Except GuardError RevocationState
  | .file guard =>
    let out := guard.state C F seen r
    (.file out.1, out.2.2)
  | .memory state => (.memory state, .ok state)

/-- A guard over a log file: refused unless the log can be used now. -/
def open_ (localUser : Fingerprint) (seen : Option Bytes) (r : Reads) :
    Except GuardError RevocationGuard := do
  let out := state C F seen r (.file ⟨localUser, none⟩)
  let _ ← out.2
  return out.1

def inMemory (user : UserKey) : Except RevocationError RevocationGuard := do
  let state ← (RevocationLog.genesis C F.nodeId user).verify C F.nodeId
  return .memory state

/-- The guards there can be: opened or made in memory, and then called by
anyone who has a clone. -/
inductive Reached : RevocationGuard → Prop where
  | opened {localUser : Fingerprint} {seen : Option Bytes} {r : Reads} {guard : RevocationGuard} :
      open_ C F localUser seen r = .ok guard → Reached guard
  | fresh {user : UserKey} {guard : RevocationGuard} :
      inMemory C F user = .ok guard → Reached guard
  | called {guard : RevocationGuard} (seen : Option Bytes) (r : Reads) :
      Reached guard → Reached (guard.state C F seen r).1

end RevocationGuard

/-- A peer's chain with the state it last passed; `none` once it was refused.
Clones share all of it. -/
structure LiveCheck where
  guard : RevocationGuard
  peer : CertChain
  state : Option RevocationState
  deriving DecidableEq

/-- Something that happens to a check: a call of `admit` on one of its clones,
or a read of the state by another user of the guard. -/
inductive LiveAct where
  | admission (seen : Option Bytes) (r : Reads)
  | other (seen : Option Bytes) (r : Reads)

namespace LiveCheck

/-- Check `peer` now and remember the state it passed. -/
def new (guard : RevocationGuard) (peer : CertChain) (seen : Option Bytes) (r : Reads) :
    Except TransportError LiveCheck := do
  let out := guard.state C F seen r
  let state ← out.2.mapError .ofGuard
  (verifyWith C peer state).mapError .ofGuard
  return ⟨out.1, peer, some state⟩

/-- `LiveCheck::admit`: the chain is verified again only when the log's head
differs from the last one the peer passed. -/
def admission (c : LiveCheck) (seen : Option Bytes) (r : Reads) :
    LiveCheck × Except TransportError Unit :=
  match c.state with
  | none => (c, .error (.revoked "session already refused"))
  | some last =>
    match c.guard.state C F seen r with
    | (guard, .error e) => ({ c with guard, state := none }, .error (.ofGuard e))
    | (guard, .ok state) =>
      if state.head = last.head then ({ c with guard }, .ok ())
      else
        match verifyWith C c.peer state with
        | .error e => ({ c with guard, state := none }, .error (.ofGuard e))
        | .ok () => ({ c with guard, state := some state }, .ok ())

/-- The calls of `admit`, in order: what each returned, and what `guard.state`
answers at it. -/
def calls (c : LiveCheck) :
    List LiveAct → List (Except TransportError Unit × Except GuardError RevocationState)
  | [] => []
  | .admission seen r :: acts =>
    ((c.admission C F seen r).2, (c.guard.state C F seen r).2) ::
      calls (c.admission C F seen r).1 acts
  | .other seen r :: acts => calls { c with guard := (c.guard.state C F seen r).1 } acts

end LiveCheck

end Model

variable {C : Crypto} {F : LogFormat}

/-! ### The head determines the state -/

namespace RevocationLog

variable {log log' : RevocationLog} {s s' : RevocationState}

/-- **Verified logs with the same head say the same.** -/
theorem Says.eq_of_head (hF : F.Lawful) (h : log.Says C F s) (h' : log'.Says C F s')
    (hhead : s.head = s'.head) : s = s' := by
  obtain ⟨hlinked, -, hlast⟩ := verify_linked h
  obtain ⟨hlinked', -, hlast'⟩ := verify_linked h'
  have hnodes : log.nodes = log'.nodes := by
    refine hlinked.eq_of_last hF.ids hlinked' ?_
    rw [hlast, hlast', hhead]
  -- each extends the other
  have hext : log.Extends log' := by
    rw [Extends, hnodes]
  have hext' : log'.Extends log := by
    rw [Extends, hnodes]
  have hle := hext.mono h h'
  have hle' := hext'.mono h' h
  have huser := hext.user h h'
  have hlen := Nat.le_antisymm hle.len hle'.len
  have hgeneration := Nat.le_antisymm hle.generation hle'.generation
  have hrevoked := Finset.Subset.antisymm hle.revoked hle'.revoked
  cases s
  cases s'
  simp_all

end RevocationLog

/-! ### Guards -/

namespace RevocationGuard

/-- What a guard keeps is the state of a verified log. -/
def Held (C : Crypto) (F : LogFormat) : RevocationGuard → Prop
  | .file guard => guard.Held C F
  | .memory state => ∃ log : RevocationLog, log.Says C F state

variable {guard : RevocationGuard}

/-- A call keeps that, and the state it returns is that of a verified log. -/
theorem Held.state (hF : F.Lawful) (h : guard.Held C F) (seen : Option Bytes) (r : Reads) :
    (guard.state C F seen r).1.Held C F ∧ ∀ s, (guard.state C F seen r).2 = .ok s →
      ∃ log : RevocationLog, log.Says C F s := by
  cases guard with
  | file guard =>
    have hans := Guard.state_answers hF h seen r
    refine ⟨hans.held, fun s hs => ?_⟩
    obtain ⟨log, hlog, -⟩ := hans.state s hs
    exact ⟨log, hlog⟩
  | memory state =>
    refine ⟨h, fun s hs => ?_⟩
    cases hs
    exact h

theorem Reached.held (hF : F.Lawful) (h : guard.Reached C F) : guard.Held C F := by
  induction h with
  | @opened localUser seen r guard hopen =>
    have hnew : (RevocationGuard.file ⟨localUser, none⟩).Held C F := by
      intro s bytes hcache
      cases hcache
    simp only [open_, bind_ok, pure, Except.pure, Except.ok.injEq] at hopen
    obtain ⟨s, -, rfl⟩ := hopen
    exact (hnew.state hF seen r).1
  | fresh hfresh =>
    simp only [inMemory, bind_ok, pure, Except.pure, Except.ok.injEq] at hfresh
    obtain ⟨s, hs, rfl⟩ := hfresh
    exact ⟨_, hs⟩
  | called seen r _ ih => exact (ih.state hF seen r).1

end RevocationGuard

/-! ### Calls -/

/-- What a check that always verifies the chain would accept. -/
def Passes (C : Crypto) (peer : CertChain) (observed : Except GuardError RevocationState) : Prop :=
  ∃ s, observed = .ok s ∧ verifyWith C peer s = .ok ()

namespace LiveCheck

variable {c : LiveCheck}

/-- A check that has not refused: the peer passed the state it remembers, which
is that of a verified log. -/
structure Passed (C : Crypto) (F : LogFormat) (c : LiveCheck) : Prop where
  held : c.guard.Held C F
  passed : ∃ (log : RevocationLog) (s : RevocationState), c.state = some s ∧ log.Says C F s ∧
    verifyWith C c.peer s = .ok ()

theorem passed_new (hF : F.Lawful) {guard : RevocationGuard} (hguard : guard.Held C F)
    {peer : CertChain} {seen : Option Bytes} {r : Reads}
    (h : new C F guard peer seen r = .ok c) : c.Passed C F ∧ c.peer = peer := by
  simp only [new, bind_ok, mapError_ok, pure, Except.pure, Except.ok.injEq] at h
  obtain ⟨s, hs, _, hverify, rfl⟩ := h
  obtain ⟨hheld, hstate⟩ := hguard.state hF seen r
  obtain ⟨log, hlog⟩ := hstate s hs
  exact ⟨⟨hheld, log, s, rfl, hlog, hverify⟩, rfl⟩

/-- **One call is the check that always verifies**: it passes and the check
stays, or it does not, and the check has refused. -/
theorem admission_spec (hF : F.Lawful) (h : c.Passed C F) (seen : Option Bytes) (r : Reads) :
    (c.admission C F seen r).1.peer = c.peer ∧
    ((Passes C c.peer (c.guard.state C F seen r).2 ∧ (c.admission C F seen r).2 = .ok () ∧
        (c.admission C F seen r).1.Passed C F) ∨
      (¬ Passes C c.peer (c.guard.state C F seen r).2 ∧ (c.admission C F seen r).2 ≠ .ok () ∧
        (c.admission C F seen r).1.state = none)) := by
  obtain ⟨hheld, log, last, hlast, hsays, hpeer⟩ := h
  obtain ⟨hheld', hstate⟩ := hheld.state hF seen r
  rw [admission, hlast]
  generalize c.guard.state C F seen r = out at hheld' hstate ⊢
  obtain ⟨guard, observed⟩ := out
  cases observed with
  | error e =>
    refine ⟨rfl, .inr ⟨fun ⟨_, he, _⟩ => ?_, nofun, rfl⟩⟩
    cases he
  | ok s =>
    obtain ⟨log', hsays'⟩ := hstate s rfl
    by_cases hhead : s.head = last.head
    · -- the same head is the same state, and the peer passed that one
      obtain rfl : s = last := hsays'.eq_of_head hF hsays hhead
      simp only [if_true]
      exact ⟨trivial, .inl ⟨⟨s, rfl, hpeer⟩, trivial, hheld', log, s, rfl, hsays, hpeer⟩⟩
    · simp only [if_neg hhead]
      cases hverify : verifyWith C c.peer s with
      | ok u => exact ⟨rfl, .inl ⟨⟨s, rfl, hverify⟩, rfl, hheld', log', s, rfl, hsays', hverify⟩⟩
      | error e =>
        refine ⟨rfl, .inr ⟨fun ⟨t, ht, hok⟩ => ?_, nofun, rfl⟩⟩
        cases ht
        rw [hverify] at hok
        cases hok

theorem calls_of_refused {acts : List LiveAct} : ∀ {c : LiveCheck}, c.state = none →
    ∀ call ∈ c.calls C F acts, call.1 = .error (.revoked "session already refused") := by
  induction acts with
  | nil => exact fun _ call hcall => absurd hcall List.not_mem_nil
  | cons act acts ih =>
    intro c hc call hcall
    cases act with
    | other seen r =>
      have hc' : ({ c with guard := (c.guard.state C F seen r).1 } : LiveCheck).state = none := hc
      exact ih hc' call hcall
    | admission seen r =>
      have hsame : c.admission C F seen r = (c, .error (.revoked "session already refused")) := by
        rw [admission, hc]
      rw [calls, hsame] at hcall
      rcases List.mem_cons.mp hcall with rfl | hcall
      · rfl
      · exact ih hc call hcall

/-- **A call is accepted exactly when it and every call before it pass.** -/
theorem calls_of_passed (hF : F.Lawful) {acts : List LiveAct} : ∀ {c : LiveCheck}, c.Passed C F →
    ∀ {n : ℕ} {call : Except TransportError Unit × Except GuardError RevocationState},
      (c.calls C F acts)[n]? = some call →
      (call.1 = .ok () ↔ ∀ before ∈ (c.calls C F acts).take (n + 1), Passes C c.peer before.2) := by
  induction acts with
  | nil =>
    intro c _ n call hcall
    simp [calls] at hcall
  | cons act acts ih =>
    intro c hc n call hcall
    cases act with
    | other seen r =>
      have hc' : Passed C F { c with guard := (c.guard.state C F seen r).1 } :=
        ⟨(hc.held.state hF seen r).1, hc.passed⟩
      exact ih hc' hcall
    | admission seen r =>
      obtain ⟨hpeer, hspec⟩ := admission_spec hF hc seen r
      rw [calls] at hcall ⊢
      rw [List.take_succ_cons, List.forall_mem_cons]
      rcases hspec with ⟨hpass, hok, hnext⟩ | ⟨hfail, herr, hnext⟩
      · cases n with
        | zero =>
          obtain rfl := Option.some.inj hcall
          simp [hpass, hok]
        | succ n =>
          have hrest := ih hnext hcall
          rw [hpeer] at hrest
          rw [hrest, and_iff_right hpass]
      · -- refused now: nothing later is accepted, and this call is among those before it
        refine iff_of_false ?_ (fun hall => hfail hall.1)
        cases n with
        | zero =>
          obtain rfl := Option.some.inj hcall
          exact herr
        | succ n =>
          rw [calls_of_refused hnext call (List.mem_of_getElem? hcall)]
          nofun

end LiveCheck

/-- **A live check is the check that always verifies, with a latch.**  A call of
`admit` on any clone returns `Ok` exactly when, at it and at every call before
it, the guard's state could be had and the peer's chain verifies with it; and
once a call has not, every later one refuses. -/
theorem live_check_reverifies (hF : F.Lawful) {guard : RevocationGuard}
    (hguard : guard.Reached C F) {peer : CertChain} {seen : Option Bytes} {r : Reads}
    {c : LiveCheck} (hnew : LiveCheck.new C F guard peer seen r = .ok c) (acts : List LiveAct) :
    (∀ n call, (c.calls C F acts)[n]? = some call →
      (call.1 = .ok () ↔ ∀ before ∈ (c.calls C F acts).take (n + 1),
        ∃ s, before.2 = .ok s ∧ verifyWith C peer s = .ok ())) ∧
    ∀ m n : ℕ, m ≤ n → ∀ call, (c.calls C F acts)[m]? = some call → call.1 ≠ .ok () →
      ∀ later, (c.calls C F acts)[n]? = some later → later.1 ≠ .ok () := by
  obtain ⟨hpassed, rfl⟩ := LiveCheck.passed_new hF (hguard.held hF) hnew
  refine ⟨fun n call hcall => LiveCheck.calls_of_passed hF hpassed hcall, ?_⟩
  intro m n hmn call hcall hrefused later hlater hok
  refine hrefused ((LiveCheck.calls_of_passed hF hpassed hcall).mpr fun before hbefore => ?_)
  refine (LiveCheck.calls_of_passed hF hpassed hlater).mp hok before ?_
  exact List.take_subset_take_left _ (Nat.succ_le_succ hmn) hbefore

/-! The user with key 9: the peer passes the bare log, then key 5 is revoked,
and then the bare log is shown again. -/

namespace Shared

def opened : Guard := ⟨⟨9⟩, some (states 1, [0])⟩

def sessionActs : List LiveAct := [.admission none (shows 1), .admission none (shows 2),
  .other none (shows 1), .admission none (shows 1)]

end Shared

set_option maxRecDepth 100000 in
theorem live_check_reverifies_revoked :
    ∃ c, LiveCheck.new Shared.crypto Shared.format (.file Shared.opened) Shared.peer none
        (Shared.shows 1) = .ok c ∧
      ∀ later, (c.calls Shared.crypto Shared.format Shared.sessionActs)[2]? = some later →
        later.1 ≠ .ok () := by
  have hreached : (RevocationGuard.file Shared.opened).Reached Shared.crypto Shared.format := by
    have hopen : RevocationGuard.open_ Shared.crypto Shared.format ⟨9⟩ none (Shared.shows 1) =
        .ok (.file Shared.opened) := by decide +kernel
    exact .opened hopen
  let c : LiveCheck := ⟨.file Shared.opened, Shared.peer, some (Shared.states 1)⟩
  have hnew : LiveCheck.new Shared.crypto Shared.format (.file Shared.opened) Shared.peer none
      (Shared.shows 1) = .ok c := by decide +kernel
  have hrefused : (c.calls Shared.crypto Shared.format Shared.sessionActs)[1]? =
      some (.error (.revoked "kkkkk"), .ok (Shared.states 2)) := by decide +kernel
  obtain ⟨-, hlatch⟩ := live_check_reverifies Shared.format_lawful hreached hnew Shared.sessionActs
  exact ⟨c, hnew, hlatch 1 2 (by decide) _ hrefused (by decide)⟩

end Mesh
