/-
Logs with the same events.

Records name a certificate and are chained by their own ids, so two logs can
hold the same events under different records.  The board and the session table
are folded from the events alone: who signed an event follows from its author,
which is the fingerprint of the signing key, and from the class of key that its
kind takes.

* `State.Accepts.signer_eq` — one event, one signer;
* `Replays.alike` — the same events lead to the same board and table;
* `Replays.entries_isPrefix` — and their entries come first in any longer log.
-/
import AgentMesh.Agreement
import AgentMesh.Citations

open Std Mesh

namespace Flock

variable {P : Primitives} {g : MerkleNode Genesis}

/-- Different keys have different fingerprints. -/
def Primitives.KeysInjective (P : Primitives) : Prop :=
  Function.Injective fun key : PubKey => (Fingerprint.ofBytes P.toCrypto key).hex P.toCrypto

/-- Two states that differ in the records behind them only. -/
structure State.Alike (st st' : State) : Prop where
  board : st.board = st'.board
  sessions : st.sessions = st'.sessions
  epoch : st.chain.epoch = st'.chain.epoch
  serverPub : st.chain.serverPub = st'.chain.serverPub

theorem Resolved.fingerprint_eq {s : Sessions} {sig : Assertion} {event : ContentId}
    {server : PubKey} {user : UserPublic} {epoch : ℕ} {signer : Signer}
    (h : Resolved P s sig event server user epoch signer) :
    signer.fingerprint = sig.author.agentFingerprint P.toCrypto := by
  cases h <;> rfl

/-- Operators sign answers, and nobody else does. -/
theorem Admissible.operator_iff {b : Board} {node : MerkleNode Event} {signer : Signer}
    {conflict : Option ConflictKind} (h : Admissible P b node signer conflict) :
    signer.class_ = .operator ↔ node.payload.kind = .answer := by
  obtain ⟨member, target, closes, hmember, -, -, -⟩ := h.table
  constructor
  · intro hc
    exact signerMember_operator hc hmember
  · intro hkind
    rw [hkind] at hmember
    exact (signerMember_answer hmember).1

/-- **One event, one signer**, whatever record it is admitted under. -/
theorem State.Accepts.signer_eq (hkeys : P.KeysInjective) {st st' : State}
    (hst : st.Alike st') {x y : Sealed} {cert cert' : CertChain} {signer signer' : Signer}
    {conflict conflict' : Option ConflictKind} (hx : st.Accepts P x cert signer conflict)
    (hy : st'.Accepts P y cert' signer' conflict') (hev : x.event = y.event) :
    signer = signer' := by
  have hrx := resolve_ok hx.vetted.resolved
  have hry := resolve_ok hy.vetted.resolved
  -- the author is the fingerprint of the key that signed
  have hkey : cert.agentPubkey = cert'.agentPubkey := by
    refine hkeys ?_
    have ha := hx.vetted.admissible.author
    rw [hev, hy.vetted.admissible.author, hrx.fingerprint_eq, hry.fingerprint_eq] at ha
    exact ha.symm
  have hfp : cert.agentFingerprint P.toCrypto = cert'.agentFingerprint P.toCrypto :=
    congrArg (Fingerprint.ofBytes P.toCrypto) hkey
  have hclass : signer.class_ = .operator ↔ signer'.class_ = .operator := by
    rw [hx.vetted.admissible.operator_iff, hy.vetted.admissible.operator_iff, hev]
  cases hrx with
  | server key signed =>
    cases hry with
    | server => rw [hfp]
    | device key' =>
      have hoperator := hclass.mpr rfl
      cases hoperator
    | session _ key' =>
      rw [hkey, hst.serverPub] at key
      exact absurd key key'
  | device key issued registered signed =>
    cases hry with
    | server key' =>
      have hoperator := hclass.mp rfl
      cases hoperator
    | device => rw [hfp]
    | session _ _ issued' =>
      have hoperator := hclass.mp rfl
      cases hoperator
  | session s key issued known live recorded signed =>
    cases hry with
    | server key' =>
      rw [hkey, hst.serverPub] at key
      exact absurd key' key
    | device _ issued' =>
      have hoperator := hclass.mpr rfl
      cases hoperator
    | session s' _ _ known' =>
      rw [hst.sessions, hfp, known'] at known
      cases known
      rw [hfp]

theorem State.Accepts.alike (hkeys : P.KeysInjective) {st st' : State} (hst : st.Alike st')
    {x y : Sealed} {cert cert' : CertChain} {signer signer' : Signer}
    {conflict conflict' : Option ConflictKind} (hx : st.Accepts P x cert signer conflict)
    (hy : st'.Accepts P y cert' signer' conflict') (hev : x.event = y.event) :
    (st.after P x signer conflict).Alike (st'.after P y signer' conflict') := by
  obtain rfl := hx.signer_eq hkeys hst hy hev
  have hconflict : conflict = conflict' := by
    have hadm := hx.vetted.admissible
    rw [hst.board, hev] at hadm
    exact hadm.conflict_eq hy.vetted.admissible
  have hepoch : x.record.payload.epoch = y.record.payload.epoch := by
    rw [hx.extend.epoch, hy.extend.epoch, hev, Chain.epochFor, Chain.epochFor, hst.epoch]
  refine ⟨?_, ?_, hepoch, hst.serverPub⟩
  · rw [State.after, State.after, hst.board, hev, hconflict]
  · rw [State.after, State.after, hst.sessions, hev, hepoch]

/-- **The same events lead to the same board and table.** -/
theorem Replays.alike (hkeys : P.KeysInjective) {xs : List Sealed} :
    ∀ {ys : List Sealed} {st st' : State}, Replays P g xs st → Replays P g ys st' →
      xs.map (·.event) = ys.map (·.event) → st.Alike st' := by
  induction xs using List.reverseRecOn with
  | nil =>
    intro ys st st' hx hy hevents
    obtain rfl : ys = [] := by simpa using hevents.symm
    obtain rfl := hx.unique hy
    exact ⟨rfl, rfl, rfl, rfl⟩
  | append_singleton xs x ih =>
    intro ys st st' hx hy hevents
    rcases List.eq_nil_or_concat ys with rfl | ⟨ys, y, rfl⟩
    · simp at hevents
    · rw [List.concat_eq_append] at hy hevents
      rw [List.map_append, List.map_append] at hevents
      obtain ⟨hfront, hlast⟩ := List.append_inj' hevents rfl
      obtain ⟨u, cert, signer, conflict, hu, hacc, rfl⟩ := Replays.snoc.mp hx
      obtain ⟨v, cert', signer', conflict', hv, hacc', rfl⟩ := Replays.snoc.mp hy
      exact hacc.alike hkeys (ih hu hv hfront) hacc' (List.singleton_inj.mp hlast)

/-! ### Entries -/

theorem entriesFrom_append (xs ys : List LogEntry) :
    ∀ pre : List LogEntry, entriesFrom P pre (xs ++ ys) =
      entriesFrom P pre xs ++ entriesFrom P (pre ++ xs) ys := by
  induction xs with
  | nil =>
    intro pre
    rw [List.append_nil]
    rfl
  | cons x xs ih =>
    intro pre
    rw [List.cons_append, entriesFrom, entriesFrom, ih, List.append_assoc, List.cons_append]
    rfl

theorem run_entries {log more : List Sealed} {u st : State} (hu : Replays P g log u)
    (hrun : Steps.run (State.replay P) u more = .ok st) :
    u.board.entriesInOrder <+: st.board.entriesInOrder := by
  obtain ⟨entries, -, hadmitted⟩ := hu.taken.admitted
  obtain ⟨added, hst⟩ : ∃ added, Admitted P g (entries ++ added) st.board := by
    refine Steps.run_invariant (fun _ (st : State) =>
      ∃ added, Admitted P g (entries ++ added) st.board) ⟨[], by simpa using hadmitted⟩ ?_ hrun
    rintro xs s x s' - ⟨added, hs⟩ hx
    obtain ⟨cert, signer, conflict, hacc, rfl⟩ := State.replay_ok.mp hx
    refine ⟨added ++ [⟨x.event, signer⟩], ?_⟩
    rw [← List.append_assoc]
    exact .snoc hs ⟨conflict, hacc.vetted.admissible, rfl⟩
  rw [hadmitted.entriesInOrder, hst.entriesInOrder, entriesFrom_append]
  exact ⟨_, rfl⟩

/-- **The entries of a log come first in every log that starts with its
events.** -/
theorem Replays.entries_isPrefix (hkeys : P.KeysInjective) {xs ys zs : List Sealed}
    {st st' : State} (hx : Replays P g xs st) (hy : Replays P g (ys ++ zs) st')
    (hevents : xs.map (·.event) = ys.map (·.event)) :
    st.board.entriesInOrder <+: st'.board.entriesInOrder := by
  obtain ⟨u, hu, hrun⟩ := hy.of_append
  have halike := hx.alike hkeys hu hevents
  rw [halike.board]
  exact run_entries hu hrun

theorem Replays.entries_ids {log : List Sealed} {st : State} (h : Replays P g log st) :
    st.board.entriesInOrder.map (·.id) = log.map (fun x => P.eventId x.event) := by
  obtain ⟨entries, hnodes, hadmitted⟩ := h.taken.admitted
  rw [hadmitted.entriesInOrder, entriesFrom_id]
  have hids := congrArg (List.map P.eventId) hnodes
  simpa [LogEntry.id, Function.comp_def] using hids

theorem Replays.entry_index {log : List Sealed} {st : State} (h : Replays P g log st) {i : ℕ}
    {e : Entry} (he : st.board.entriesInOrder[i]? = some e) : e.index = i + 1 := by
  obtain ⟨entries, -, hadmitted⟩ := Taken.admitted h.taken
  rw [hadmitted.entriesInOrder] at he
  have hindex : (entriesFrom P [] entries).map (·.index) = List.range' 1 entries.length :=
    entriesFrom_index
  have hget : ((entriesFrom P [] entries).map (·.index))[i]? = some e.index := by
    rw [List.getElem?_map, he]
    rfl
  rw [hindex] at hget
  obtain ⟨hi, hnumber⟩ := List.getElem?_eq_some_iff.mp hget
  rw [List.getElem_range'] at hnumber
  omega

end Flock
