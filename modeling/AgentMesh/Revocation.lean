/-
The revocation log.

A user-signed, append-only chain of nodes that names revoked agents and bumps
the generation.  Nothing in a log is trusted until `verify` has recomputed
every id and checked every signature; `extends_` then refuses a log that is
shorter than, or forks from, what a consumer has seen.

* `RevocationLog.verify_linked` — a verified log is a chain, and its state
  names its length and last node;
* `RevocationLog.Extends.mono` — what a longer log says includes what the
  shorter one said;
* `RevocationLog.extends_isPrefix` — a log that extends what was seen extends
  the log it was seen of.
-/
import AgentMesh.CertChain
import AgentMesh.HashChain
import AgentMesh.Runs

open HashChain

namespace Mesh

/-! ### The model -/

inductive RevocationEntry where
  /-- First node only: names the user whose key signs the whole log. -/
  | genesis (user : UserPublic)
  /-- The agent with this key fingerprint is revoked, wherever it sits in a
  chain. -/
  | revoke (agent : Fingerprint)
  /-- The current generation moves to `current`. -/
  | generation (current : ℕ)
  deriving DecidableEq

/-- A log node and its detached signature. -/
structure SignedEntry where
  node : MerkleNode RevocationEntry
  sig : Signature
  deriving DecidableEq

/-- The ordered, signed nodes of one user's revocation log. -/
structure RevocationLog where
  entries : List SignedEntry
  deriving DecidableEq

structure RevocationState where
  user : Fingerprint
  head : ContentId
  /-- Number of nodes, genesis included. -/
  len : ℕ
  generation : ℕ
  revoked : Finset Fingerprint
  deriving DecidableEq

/-- The head a consumer last saw and persisted. -/
structure Seen where
  user : Fingerprint
  len : ℕ
  head : ContentId
  deriving DecidableEq

/-- The record a consumer should persist after accepting this state. -/
def RevocationState.seen (s : RevocationState) : Seen := ⟨s.user, s.len, s.head⟩

inductive RevocationError where
  | state (why : String)
  | revoked (agent : Fingerprint)
  | mesh (e : MeshError)
  deriving DecidableEq

def revocationDomain : Bytes := ascii "agent-mesh/revocation/v1" ++ [0]

/-- What a log's user signs for a node. -/
def revocationMessage (cid : ContentId) : Bytes := revocationDomain ++ cid.bytes

section Model

variable (C : Crypto)

def RevocationError.text : RevocationError → String
  | .state why => "revocation state: " ++ why
  | .revoked agent => "revoked: agent " ++ agent.short C
  | .mesh e => e.text

def UserPublic.fingerprint (u : UserPublic) : Fingerprint := .ofBytes C u.verifying

/-- The fingerprint of the root user a chain goes up to. -/
def CertChain.userFingerprint : CertChain → Fingerprint
  | .root _ _ user _ => user.fingerprint C
  | .delegated _ _ _ parent _ => parent.userFingerprint

/-- The first revoked link, from the leaf up. -/
def CertChain.revokedLink (revoked : Finset Fingerprint) : CertChain → Option Fingerprint
  | .root pk _ _ _ => if .ofBytes C pk ∈ revoked then some (.ofBytes C pk) else none
  | .delegated pk _ _ parent _ =>
    if .ofBytes C pk ∈ revoked then some (.ofBytes C pk) else parent.revokedLink revoked

/-- Verify the chain against a state: same user, no link revoked, every link
valid at the state's generation. -/
def CertChain.verifyWith (cert : CertChain) (state : RevocationState) :
    Except RevocationError Unit := do
  ensure (cert.userFingerprint C = state.user) (.state "chain belongs to a different user")
  match cert.revokedLink C state.revoked with
  | some agent => .error (.revoked agent)
  | none => (cert.verifyAt C state.generation).mapError .mesh

variable (nodeId : MerkleNode RevocationEntry → ContentId)

namespace RevocationLog

/-- One node: its parents are exactly `prev`, its signature is good.  The
result is the recomputed id. -/
def checkLink (user : UserPublic) (e : SignedEntry) (prev : Option ContentId) :
    Except RevocationError ContentId := do
  ensure (e.node.parents = after prev) (.state "broken parent link")
  let id := nodeId e.node
  ensure (C.verify user.verifying (revocationMessage id) e.sig) (.mesh .badSignature)
  return id

/-- Check the next node and fold it into the state. -/
def verifyNext (user : UserPublic) (s : RevocationState) (e : SignedEntry) :
    Except RevocationError RevocationState := do
  let head ← checkLink C nodeId user e (some s.head)
  let s := { s with head := head, len := s.len + 1 }
  match e.node.payload with
  | .genesis _ => .error (.state "second genesis")
  | .revoke agent => .ok { s with revoked := insert agent s.revoked }
  | .generation current =>
    if current ≤ s.generation then .error (.state "generation does not increase")
    else .ok { s with generation := current }

/-- Check the whole log and fold it into a state. -/
def verify (log : RevocationLog) : Except RevocationError RevocationState :=
  match log.entries with
  | [] => .error (.state "missing genesis")
  | first :: rest =>
    match first.node.payload with
    | .genesis user => do
      let head ← checkLink C nodeId user first none
      Steps.run (verifyNext C nodeId user) ⟨user.fingerprint C, head, 1, 0, ∅⟩ rest
    | _ => .error (.state "first node is not a genesis")

/-- Refuse a log that is shorter than what the consumer has seen, or whose node
at that position is not the head they saw. -/
def extends_ (log : RevocationLog) (seen : Seen) : Except RevocationError Unit := do
  let state ← log.verify C nodeId
  ensure (state.user = seen.user) (.state "log belongs to a different user")
  ensure (¬(seen.len = 0 ∨ state.len < seen.len))
    (.state "log is shorter than what was seen (rollback)")
  let at_ ← okOr log.entries[seen.len - 1]? (.state "seen too long")
  ensure (nodeId at_.node = seen.head) (.state "log forks from what was seen")

end RevocationLog

end Model

/-! ### Verified logs -/

variable {C : Crypto} {nodeId : MerkleNode RevocationEntry → ContentId}

namespace RevocationState

def next (s : RevocationState) (id : ContentId) : RevocationEntry → RevocationState
  | .genesis _ => { s with head := id, len := s.len + 1 }
  | .revoke agent => { s with head := id, len := s.len + 1, revoked := insert agent s.revoked }
  | .generation current => { s with head := id, len := s.len + 1, generation := current }

@[simp] theorem next_head (s : RevocationState) (id : ContentId) (p : RevocationEntry) :
    (s.next id p).head = id := by
  cases p <;> rfl

@[simp] theorem next_len (s : RevocationState) (id : ContentId) (p : RevocationEntry) :
    (s.next id p).len = s.len + 1 := by
  cases p <;> rfl

/-- `t` says all that `s` says. -/
structure Le (s t : RevocationState) : Prop where
  len : s.len ≤ t.len
  revoked : s.revoked ⊆ t.revoked
  generation : s.generation ≤ t.generation

theorem Le.refl (s : RevocationState) : s.Le s := ⟨Nat.le_refl _, subset_rfl, Nat.le_refl _⟩

theorem Le.trans {s t u : RevocationState} (h : s.Le t) (h' : t.Le u) : s.Le u :=
  ⟨h.len.trans h'.len, h.revoked.trans h'.revoked, h.generation.trans h'.generation⟩

end RevocationState

namespace RevocationLog

def nodes (log : RevocationLog) : List (MerkleNode RevocationEntry) := log.entries.map (·.node)

theorem checkLink_ok {user : UserPublic} {e : SignedEntry} {prev : Option ContentId}
    {id : ContentId} :
    checkLink C nodeId user e prev = .ok id ↔
      e.node.parents = after prev ∧
        C.verify user.verifying (revocationMessage (nodeId e.node)) e.sig = true ∧
        id = nodeId e.node := by
  simp only [checkLink, bind_ok, ensure_ok, pure, Except.pure, Except.ok.injEq]
  constructor
  · rintro ⟨_, hp, _, hv, rfl⟩
    exact ⟨hp, hv, rfl⟩
  · rintro ⟨hp, hv, rfl⟩
    exact ⟨(), hp, (), hv, rfl⟩

theorem verifyNext_ok {user : UserPublic} {s s' : RevocationState} {e : SignedEntry}
    (h : verifyNext C nodeId user s e = .ok s') :
    e.node.parents = {s.head} ∧ s' = s.next (nodeId e.node) e.node.payload ∧
      s.generation ≤ s'.generation := by
  simp only [verifyNext, bind_ok, checkLink_ok] at h
  obtain ⟨head, ⟨hparents, -, rfl⟩, h⟩ := h
  refine ⟨hparents, ?_⟩
  cases hp : e.node.payload with
  | genesis user =>
    simp only [hp] at h
    cases h
  | revoke agent =>
    simp only [hp] at h
    cases h
    exact ⟨rfl, Nat.le_refl _⟩
  | generation current =>
    simp only [hp] at h
    split at h
    · cases h
    · rename_i hlt
      cases h
      exact ⟨rfl, by simpa using Nat.le_of_lt (Nat.lt_of_not_le hlt)⟩

theorem verifyNext_le {user : UserPublic} {s s' : RevocationState} {e : SignedEntry}
    (h : verifyNext C nodeId user s e = .ok s') : s.Le s' := by
  obtain ⟨-, hs, hgen⟩ := verifyNext_ok h
  refine ⟨?_, ?_, hgen⟩
  · rw [hs, RevocationState.next_len]
    exact Nat.le_succ _
  · rw [hs]
    cases e.node.payload with
    | genesis | generation => exact subset_rfl
    | revoke agent => exact Finset.subset_insert _ _

/-- The first state of a log that starts with `first`. -/
def start (C : Crypto) (nodeId : MerkleNode RevocationEntry → ContentId) (user : UserPublic)
    (first : MerkleNode RevocationEntry) : RevocationState :=
  ⟨user.fingerprint C, nodeId first, 1, 0, ∅⟩

theorem verify_ok {log : RevocationLog} {s : RevocationState} (h : log.verify C nodeId = .ok s) :
    ∃ user first rest, log.entries = first :: rest ∧ first.node.payload = .genesis user ∧
      first.node.parents = ∅ ∧
      Steps.run (verifyNext C nodeId user) (start C nodeId user first.node) rest = .ok s := by
  rw [verify] at h
  split at h
  · cases h
  · rename_i first rest hentries
    split at h
    · rename_i user hpayload
      simp only [bind_ok, checkLink_ok] at h
      obtain ⟨head, ⟨hparents, -, rfl⟩, hrun⟩ := h
      exact ⟨user, first, rest, hentries, hpayload, hparents, hrun⟩
    · cases h

/-- The state of a run of nodes depends on the nodes alone. -/
theorem run_fold {user : UserPublic} {rest : List SignedEntry} :
    ∀ {s s' : RevocationState}, Steps.run (verifyNext C nodeId user) s rest = .ok s' →
      s' = (rest.map (·.node)).foldl (fun s n => s.next (nodeId n) n.payload) s := by
  induction rest with
  | nil =>
    intro s s' h
    cases h
    rfl
  | cons e rest ih =>
    intro s s' h
    obtain ⟨u, hu, h⟩ := Steps.run_cons.mp h
    rw [List.map_cons, List.foldl_cons, ← (verifyNext_ok hu).2.1]
    exact ih h

/-- **A verified log is a chain**, and its state names its length and its last
node. -/
theorem verify_linked {log : RevocationLog} {s : RevocationState}
    (h : log.verify C nodeId = .ok s) :
    Linked nodeId MerkleNode.parents none log.nodes ∧ s.len = log.nodes.length ∧
      log.nodes.getLast?.map nodeId = some s.head := by
  obtain ⟨user, first, rest, hentries, -, hparents, hrun⟩ := verify_ok h
  rw [nodes, hentries]
  refine Steps.run_invariant (fun rest s =>
    Linked nodeId MerkleNode.parents none ((first :: rest).map (·.node)) ∧
      s.len = ((first :: rest).map (·.node)).length ∧
      ((first :: rest).map (·.node)).getLast?.map nodeId = some s.head) ?_ ?_ hrun
  · exact ⟨⟨hparents, trivial⟩, rfl, rfl⟩
  · intro xs s x s' _ hinv hx
    obtain ⟨hlinked, hlen, hhead⟩ := hinv
    obtain ⟨hp, hs, -⟩ := verifyNext_ok hx
    rw [← List.cons_append, List.map_append]
    refine ⟨Linked.snoc.mpr ⟨hlinked, ?_⟩, ?_, ?_⟩
    · rw [hhead, hp]
      rfl
    · rw [hs, RevocationState.next_len, hlen, List.length_append]
      rfl
    · rw [hs, RevocationState.next_head, List.map_singleton, List.getLast?_concat]
      rfl

/-- `log'` is a longer version of `log`. -/
def Extends (log log' : RevocationLog) : Prop := log.nodes <+: log'.nodes

/-- **A longer log says all that a shorter one says.** -/
theorem Extends.mono {log log' : RevocationLog} (hext : log.Extends log')
    {s s' : RevocationState} (h : log.verify C nodeId = .ok s)
    (h' : log'.verify C nodeId = .ok s') : s.Le s' := by
  obtain ⟨user, first, rest, hentries, hgenesis, -, hrun⟩ := verify_ok h
  obtain ⟨user', first', rest', hentries', hgenesis', -, hrun'⟩ := verify_ok h'
  rw [Extends, nodes, nodes, hentries, hentries', List.map_cons, List.map_cons,
    List.cons_prefix_cons] at hext
  obtain ⟨hfirst, hrest⟩ := hext
  rw [hfirst, hgenesis'] at hgenesis
  cases hgenesis
  -- the longer log, cut where the shorter one ends, leads to the same state
  obtain ⟨more, hmore⟩ := hrest
  have hcut : (rest'.take rest.length).map (·.node) = rest.map (·.node) := by
    have hlen : rest.length = (rest.map (·.node)).length := (List.length_map _).symm
    rw [List.map_take, ← hmore, hlen, List.take_left']
    rfl
  rw [← List.take_append_drop rest.length rest'] at hrun'
  obtain ⟨u, hu, hrun'⟩ := Steps.run_append.mp hrun'
  have hsame : u = s := by
    rw [run_fold hu, hcut, ← hfirst, ← run_fold hrun]
  rw [← hsame]
  exact Steps.run_rel RevocationState.Le.refl (fun hab hbc => hab.trans hbc)
    (fun hx => verifyNext_le hx) hrun'

theorem extends_ok {log : RevocationLog} {seen : Seen} {u : Unit} :
    log.extends_ C nodeId seen = .ok u ↔
      ∃ s, log.verify C nodeId = .ok s ∧ s.user = seen.user ∧ seen.len ≠ 0 ∧ seen.len ≤ s.len ∧
        ∃ n, log.nodes[seen.len - 1]? = some n ∧ nodeId n = seen.head := by
  simp only [extends_, bind_ok, ensure_ok, okOr_ok, nodes, List.getElem?_map,
    Option.map_eq_some_iff, not_or, not_lt]
  constructor
  · rintro ⟨s, hs, _, huser, _, hlen, e, he, hid⟩
    exact ⟨s, hs, huser, hlen.1, hlen.2, e.node, ⟨e, he, rfl⟩, hid⟩
  · rintro ⟨s, hs, huser, hne, hle, _, ⟨e, he, rfl⟩, hid⟩
    exact ⟨s, hs, (), huser, (), ⟨hne, hle⟩, e, he, hid⟩

/-- **A log that extends what was seen extends the log it was seen of.** -/
theorem extends_isPrefix (hinj : Function.Injective nodeId) {log log' : RevocationLog}
    {s : RevocationState} (h : log.verify C nodeId = .ok s) {u : Unit}
    (hext : log'.extends_ C nodeId s.seen = .ok u) : log.Extends log' := by
  obtain ⟨s', hs', -, -, -, n, hn, hid⟩ := extends_ok.mp hext
  obtain ⟨hlinked, hlen, hhead⟩ := verify_linked h
  obtain ⟨hlinked', -, -⟩ := verify_linked hs'
  obtain ⟨m, hm, hmid⟩ := Option.map_eq_some_iff.mp hhead
  refine hlinked.isPrefix hinj hlinked' hm ?_ (hmid.trans hid.symm)
  rw [← hlen]
  exact hn

end RevocationLog

end Mesh
