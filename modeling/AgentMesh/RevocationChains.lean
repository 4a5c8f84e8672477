/-
Extending a revocation log.

`extends_` compares one id at one position.  In verified logs every node names
the one before it, so that id fixes everything up to it: a log extends what was
seen exactly when the ids of the log it was seen of are a prefix of its own.
Extension is therefore reflexive and transitive, and appending, which verifies
the log first and signs the new node on its head, only ever extends.

* `RevocationLog.Extends.extends_` — a prefix is accepted;
* `RevocationLog.verify_snoc` — one more checked node keeps a log verified;
* `RevocationLog.append_verifies` — what one call of `append` leaves;
* `extends_means_prefix` — the comparison of ids, and any sequence of calls.
-/
import AgentMesh.Attenuation
import AgentMesh.Guard

open HashChain

namespace Mesh

/-! ### Appending -/

section Model

variable (C : Crypto) (nodeId : MerkleNode RevocationEntry → ContentId)

def signNode (user : UserKey) (node : MerkleNode RevocationEntry) : SignedEntry :=
  ⟨node, user.sign C (revocationMessage (nodeId node))⟩

namespace RevocationLog

/-- A new log owned by `user`: just the signed genesis node. -/
def genesis (user : UserKey) : RevocationLog :=
  ⟨[signNode C nodeId user ⟨∅, .genesis (user.public_ C)⟩]⟩

/-- The node `append` would push, if the call succeeds. -/
def appended (log : RevocationLog) (user : UserKey) (entry : RevocationEntry) :
    Except RevocationError SignedEntry := do
  let state ← log.verify C nodeId
  ensure ((user.public_ C).fingerprint C = state.user)
    (.state "appending key is not the log's user")
  match entry with
  | .genesis _ => .error (.state "genesis only starts a log")
  | .revoke _ => return signNode C nodeId user ⟨{state.head}, entry⟩
  | .generation current => do
    ensure (state.generation < current) (.state "generation must strictly increase")
    return signNode C nodeId user ⟨{state.head}, entry⟩

/-- Append `entry`, signed by `user`, parented on the current head.  Nothing is
appended on error. -/
def append (log : RevocationLog) (user : UserKey) (entry : RevocationEntry) :
    RevocationLog × Except RevocationError Unit :=
  match log.appended C nodeId user entry with
  | .ok e => (⟨log.entries ++ [e]⟩, .ok ())
  | .error e => (log, .error e)

/-- The log after a sequence of calls, whatever they return. -/
def appendAll (log : RevocationLog) (calls : List (UserKey × RevocationEntry)) : RevocationLog :=
  calls.foldl (fun log call => (log.append C nodeId call.1 call.2).1) log

def nodeIds (log : RevocationLog) : List ContentId := log.nodes.map nodeId

end RevocationLog

end Model

variable {C : Crypto} {nodeId : MerkleNode RevocationEntry → ContentId}

namespace RevocationState

@[simp] theorem next_user (s : RevocationState) (id : ContentId) (p : RevocationEntry) :
    (s.next id p).user = s.user := by
  cases p <;> rfl

end RevocationState

namespace RevocationLog

variable {log log' : RevocationLog} {s s' : RevocationState}

/-! ### Prefixes -/

theorem run_user {user : UserPublic} {rest : List SignedEntry} {t t' : RevocationState}
    (h : Steps.run (verifyNext C nodeId user) t rest = .ok t') : t'.user = t.user := by
  refine Steps.run_invariant (fun _ u => u.user = t.user) rfl ?_ h
  intro _ u e u' _ hu he
  rw [(verifyNext_ok he).2.1, RevocationState.next_user]
  exact hu

theorem Extends.user (hext : log.Extends log') (h : log.verify C nodeId = .ok s)
    (h' : log'.verify C nodeId = .ok s') : s.user = s'.user := by
  obtain ⟨user, first, rest, hentries, hgenesis, -, hr⟩ := verify_ok h
  obtain ⟨user', first', rest', hentries', hgenesis', -, hr'⟩ := verify_ok h'
  rw [Extends, nodes, nodes, hentries, hentries', List.map_cons, List.map_cons,
    List.cons_prefix_cons] at hext
  -- both owners are named in the one genesis
  rw [hext.1, hgenesis'] at hgenesis
  cases hgenesis
  rw [run_user hr, run_user hr']
  rfl

/-- **A log is accepted after each of its prefixes.** -/
theorem Extends.extends_ (hext : log.Extends log') (h : log.verify C nodeId = .ok s)
    (h' : log'.verify C nodeId = .ok s') : log'.extends_ C nodeId s.seen = .ok () := by
  obtain ⟨-, hlen, hhead⟩ := verify_linked h
  obtain ⟨m, hm, hmid⟩ := Option.map_eq_some_iff.mp hhead
  have hpos : log.nodes.length ≠ 0 := by
    intro h0
    rw [List.length_eq_zero_iff.mp h0] at hm
    cases hm
  refine extends_ok.mpr ⟨s', h', (hext.user h h').symm, ?_, (hext.mono h h').len, m, ?_, hmid⟩
  · show s.len ≠ 0
    rw [hlen]
    exact hpos
  · show log'.nodes[s.len - 1]? = some m
    rw [hlen]
    rw [List.getLast?_eq_getElem?] at hm
    exact Segments.getElem?_grown hext hm

theorem nodeIds_isPrefix (hinj : Function.Injective nodeId) :
    log.nodeIds nodeId <+: log'.nodeIds nodeId ↔ log.Extends log' := by
  constructor
  · intro h
    have htake := List.prefix_iff_eq_take.mp h
    rw [nodeIds, nodeIds, ← List.map_take, List.length_map] at htake
    exact List.prefix_iff_eq_take.mpr (List.map_injective_iff.mpr hinj htake)
  · exact fun h => h.map nodeId

/-- **Extends means prefix.** -/
theorem extends_iff (hinj : Function.Injective nodeId) (h : log.verify C nodeId = .ok s)
    (h' : log'.verify C nodeId = .ok s') :
    log'.extends_ C nodeId s.seen = .ok () ↔ log.nodeIds nodeId <+: log'.nodeIds nodeId := by
  rw [nodeIds_isPrefix hinj]
  exact ⟨fun hext => extends_isPrefix hinj h hext, fun hext => hext.extends_ h h'⟩

/-! ### Appends -/

theorem verify_snoc (h : log.verify C nodeId = .ok s) :
    ∃ user : UserPublic, s.user = user.fingerprint C ∧
      ∀ {e : SignedEntry} {s' : RevocationState}, verifyNext C nodeId user s e = .ok s' →
        (⟨log.entries ++ [e]⟩ : RevocationLog).verify C nodeId = .ok s' := by
  obtain ⟨entries⟩ := log
  cases entries with
  | nil => cases h
  | cons first rest =>
    rw [verify] at h
    cases hp : first.node.payload with
    | revoke agent =>
      simp only [hp] at h
      cases h
    | generation current =>
      simp only [hp] at h
      cases h
    | genesis user =>
      simp only [hp, bind_ok] at h
      obtain ⟨head, hhead, hrun⟩ := h
      refine ⟨user, run_user hrun, fun {e s'} he => ?_⟩
      simp only [verify, List.cons_append, hp, bind_ok]
      exact ⟨head, hhead, Steps.run_snoc.mpr ⟨s, hrun, he⟩⟩

theorem appended_checks (hfp : Function.Injective C.blake3)
    (hsign : ∀ seed m, C.verify (C.publicKey seed) m (C.sign seed m) = true)
    (h : log.verify C nodeId = .ok s) {user : UserPublic} (huser : s.user = user.fingerprint C)
    {key : UserKey} {entry : RevocationEntry} {e : SignedEntry}
    (happ : log.appended C nodeId key entry = .ok e) :
    ∃ s', verifyNext C nodeId user s e = .ok s' := by
  simp only [appended, h, bind_ok, ensure_ok, Except.ok.injEq] at happ
  obtain ⟨t, rfl, _, howner, happ⟩ := happ
  -- the fingerprint names one key
  have hkey : key.public_ C = user := by
    have hprint : (key.public_ C).fingerprint C = user.fingerprint C := howner.trans huser
    have hblake : C.blake3 (key.public_ C).verifying = C.blake3 user.verifying :=
      congrArg Fingerprint.hash hprint
    exact congrArg UserPublic.mk (hfp hblake)
  have hlink : ∀ p : RevocationEntry,
      checkLink C nodeId user (signNode C nodeId key ⟨{s.head}, p⟩) (some s.head) =
        .ok (nodeId ⟨{s.head}, p⟩) := by
    intro p
    refine checkLink_ok.mpr ⟨rfl, ?_, rfl⟩
    rw [← hkey]
    exact hsign _ _
  cases entry with
  | genesis u => cases happ
  | revoke agent =>
    cases happ
    refine ⟨s.next (nodeId ⟨{s.head}, .revoke agent⟩) (.revoke agent), ?_⟩
    simp only [verifyNext, hlink, bind, Except.bind]
    rfl
  | generation current =>
    simp only [bind_ok, ensure_ok, pure, Except.pure, Except.ok.injEq] at happ
    obtain ⟨_, hlt, rfl⟩ := happ
    refine ⟨s.next (nodeId ⟨{s.head}, .generation current⟩) (.generation current), ?_⟩
    simp only [verifyNext, hlink, bind, Except.bind]
    exact if_neg (Nat.not_le.mpr hlt)

/-- **What one call of `append` leaves**: a verified log that extends the one
before. -/
theorem append_verifies (hfp : Function.Injective C.blake3)
    (hsign : ∀ seed m, C.verify (C.publicKey seed) m (C.sign seed m) = true)
    (h : log.verify C nodeId = .ok s) (key : UserKey) (entry : RevocationEntry) :
    (∃ s', (log.append C nodeId key entry).1.verify C nodeId = .ok s') ∧
      log.Extends (log.append C nodeId key entry).1 := by
  rw [append]
  cases happ : log.appended C nodeId key entry with
  | error e => exact ⟨⟨s, h⟩, List.prefix_rfl⟩
  | ok e =>
    obtain ⟨user, huser, hsnoc⟩ := verify_snoc h
    obtain ⟨s', hs'⟩ := appended_checks hfp hsign h huser happ
    refine ⟨⟨s', hsnoc hs'⟩, ?_⟩
    show log.entries.map (·.node) <+: (log.entries ++ [e]).map (·.node)
    rw [List.map_append]
    exact List.prefix_append _ _

theorem appendAll_verifies (hfp : Function.Injective C.blake3)
    (hsign : ∀ seed m, C.verify (C.publicKey seed) m (C.sign seed m) = true)
    (calls : List (UserKey × RevocationEntry)) :
    ∀ {log : RevocationLog} {s : RevocationState}, log.verify C nodeId = .ok s →
      (∃ s', (log.appendAll C nodeId calls).verify C nodeId = .ok s') ∧
        log.Extends (log.appendAll C nodeId calls) := by
  induction calls with
  | nil => exact fun h => ⟨⟨_, h⟩, List.prefix_rfl⟩
  | cons call calls ih =>
    intro log s h
    obtain ⟨⟨s', hs'⟩, hext⟩ := append_verifies hfp hsign h call.1 call.2
    obtain ⟨hverify, hrest⟩ := ih hs'
    exact ⟨hverify, hext.trans hrest⟩

end RevocationLog

/-- **Extends means prefix.**  A verified log extends what was seen of another
one exactly when the other's ids are a prefix of its own, and then it revokes
at least as much at a generation at least as high; every verified log extends
what was seen of itself, extension composes, and a log that any calls of
`append` lead to is verified and extends what was seen before them. -/
theorem extends_means_prefix (hinj : Function.Injective nodeId) (hfp : Function.Injective C.blake3)
    (hsign : ∀ seed m, C.verify (C.publicKey seed) m (C.sign seed m) = true)
    {A : RevocationLog} {s : RevocationState} (hA : A.verify C nodeId = .ok s) :
    (∀ (B : RevocationLog) (t : RevocationState), B.verify C nodeId = .ok t →
      (B.extends_ C nodeId s.seen = .ok () ↔ A.nodeIds nodeId <+: B.nodeIds nodeId) ∧
      (B.extends_ C nodeId s.seen = .ok () → s.revoked ⊆ t.revoked ∧
        s.generation ≤ t.generation)) ∧
    A.extends_ C nodeId s.seen = .ok () ∧
    (∀ (B D : RevocationLog) (t u : RevocationState), B.verify C nodeId = .ok t →
      D.verify C nodeId = .ok u → B.extends_ C nodeId s.seen = .ok () →
      D.extends_ C nodeId t.seen = .ok () → D.extends_ C nodeId s.seen = .ok ()) ∧
    ∀ calls : List (UserKey × RevocationEntry),
      (∃ t, (A.appendAll C nodeId calls).verify C nodeId = .ok t) ∧
      (A.appendAll C nodeId calls).extends_ C nodeId s.seen = .ok () := by
  refine ⟨fun B t hB => ⟨RevocationLog.extends_iff hinj hA hB, fun hext => ?_⟩, ?_, ?_, ?_⟩
  · have hle := (RevocationLog.extends_isPrefix hinj hA hext).mono hA hB
    exact ⟨hle.revoked, hle.generation⟩
  · exact (RevocationLog.extends_iff hinj hA hA).mpr List.prefix_rfl
  · intro B D t u hB hD hAB hBD
    have hAB := RevocationLog.extends_isPrefix hinj hA hAB
    have hBD := RevocationLog.extends_isPrefix hinj hB hBD
    exact RevocationLog.Extends.extends_ (hAB.trans hBD) hA hD
  · intro calls
    obtain ⟨⟨t, ht⟩, hext⟩ := RevocationLog.appendAll_verifies hfp hsign calls hA
    exact ⟨⟨t, ht⟩, hext.extends_ hA ht⟩

set_option maxRecDepth 100000 in
/-- The log that revokes key 5 extends the bare one. -/
theorem extends_means_prefix_revoked :
    (Shared.log 2).extends_ Shared.crypto Shared.format.nodeId (Shared.states 1).seen = .ok () := by
  have hA : (Shared.log 1).verify Shared.crypto Shared.format.nodeId = .ok (Shared.states 1) := by
    decide +kernel
  have hB : (Shared.log 2).verify Shared.crypto Shared.format.nodeId = .ok (Shared.states 2) := by
    decide +kernel
  obtain ⟨hiff, -⟩ := extends_means_prefix Shared.format_lawful.ids (fun _ _ h => h)
    (idealCrypto_correct _).user hA
  refine (hiff _ _ hB).1.mpr ((RevocationLog.nodeIds_isPrefix Shared.format_lawful.ids).mpr ?_)
  exact List.take_prefix 1 Shared.nodes

end Mesh
