/-
Events on a session's chain head.

What an active session writes next has the session's chain head as `prev`: its
own last event or, before its first one, the hand-off that activated it.  Such
an event is never one the board has already, since an earlier one chains to
something admitted before it, and the writer chain accepts it.  So whether the
board admits it is up to its references and the table.

* `Replays.serves` — the board and the table of a follower belong together;
* `Admitted.fresh_on_head` — an event on its author's head is new;
* `checkRefs_single` — the references of an event that cites one other;
* `Board.Serves.admits` — what is left to check.
-/
import AgentMesh.Renewal
import AgentMesh.Attempts

open Std Mesh

namespace Flock

variable {P : Primitives} {g : MerkleNode Genesis}

/-- A board that was reached from genesis and a session table that goes with
it: the hand-offs that activated its sessions are on the board. -/
structure Board.Serves (P : Primitives) (g : MerkleNode Genesis) (b : Board) (s : Sessions) :
    Prop where
  admitted : ∃ log, Admitted P g log b
  activated : ∀ (a : String) (x : Session) id, s.sessions[a]? = some x → x.activatedBy = some id →
    ∃ e, b.get id = some e ∧ e.event.kind = .handoff

/-- **The board and the table of a verified log belong together.** -/
theorem Replays.serves {log : List Sealed} {st : State} (h : Replays P g log st) :
    st.board.Serves P g st.sessions where
  admitted := by
    obtain ⟨entries, -, hadmitted⟩ := h.taken.admitted
    exact ⟨entries, hadmitted⟩
  activated _ _ _ hx hid := h.activated hx hid

/-- A table of one session that no hand-off activated goes with any board. -/
theorem Board.Serves.of_first {log : List LogEntry} {b : Board} (h : Admitted P g log b)
    {s : Sessions} {a : String} {x : Session}
    (hs : s.sessions = (∅ : BTreeMap String Session).insert a x) (hx : x.activatedBy = none) :
    b.Serves P g s where
  admitted := ⟨log, h⟩
  activated a' x' id hget hid := by
    rw [hs, BTreeMap.get_insert] at hget
    split at hget
    · cases hget
      rw [hx] at hid
      cases hid
    · simp at hget

/-- `ev` is what an active session of `member` writes next: signed by it, for
this flock, on its chain head. -/
structure Sessions.Writes (P : Primitives) (s : Sessions) (b : Board) (ev : Event)
    (signer : Signer) (member : String) : Prop where
  session : ∃ x, s.sessions[ev.author]? = some x ∧ x.member = member ∧ x.status = .active
  signed : signer.class_ = .session member false
  author : ev.author = signer.fingerprint.hex P.toCrypto
  flock : ev.flock = b.flock
  prev : ev.prev = s.chainHead b ev.author

theorem signerMember_sessionKind {b : Board} {kind : Kind} {signer : Signer}
    {m : Option (String × Role)} (hserver : serverSigns kind = false) (hanswer : kind ≠ .answer)
    (h : signerMember b kind signer = .ok m) :
    ∃ member pending, signer.class_ = .session member pending := by
  cases hclass : signer.class_ with
  | session member pending => exact ⟨member, pending, rfl⟩
  | server =>
    rw [signerMember, hclass] at h
    simp only [bind_ok, ensure_ok, hserver] at h
    obtain ⟨_, hfalse, -⟩ := h
    cases hfalse
  | operator =>
    rw [signerMember, hclass] at h
    simp only [bind_ok, ensure_ok] at h
    obtain ⟨_, hkind, -⟩ := h
    exact absurd hkind hanswer

/-- **An event on its author's head is new.**  An admitted one like it would
have its own `prev` admitted before it and the author's head after. -/
theorem Admitted.fresh_on_head (hinj : Function.Injective P.eventId) {log : List LogEntry}
    {b : Board} (h : Admitted P g log b) {node : MerkleNode Event}
    (hserver : serverSigns node.payload.kind = false) (hanswer : node.payload.kind ≠ .answer)
    (hprev : ∀ head, b.headOf node.payload.author = some head → node.payload.prev = some head) :
    b.get (P.eventId node) = none := by
  by_contra hget
  obtain ⟨e, he⟩ := Option.ne_none_iff_exists'.mp hget
  obtain ⟨pre, x, post, rfl, hid, -⟩ := h.get_iff.mp he
  obtain rfl : x.node = node := hinj hid
  obtain ⟨u, conflict, -, hadm⟩ := h.split
  obtain ⟨m, target, closes, hgate, -⟩ := hadm.table
  obtain ⟨member, pending, hclass⟩ := signerMember_sessionKind hserver hanswer hgate
  obtain ⟨y, hy, hlast⟩ := lastOf_from (P := P) (x := x) rfl pre post
  have hy' : x.event.prev = some (y.id P) := hprev _ ((h.headOf _).trans hlast)
  -- what `x` chains to was admitted before it, `y` was not
  have hbefore : ∃ z ∈ pre, x.event.prev = some (z.id P) := by
    rcases h.session_prev hclass with hz | ⟨-, z, hz, -, hprev⟩
    · rw [hy'] at hz
      obtain ⟨z, hmem, -, hid⟩ := lastOf_some hz.symm
      exact ⟨z, hmem, by rw [hy', hid]⟩
    · exact ⟨z, hz, hprev⟩
  obtain ⟨z, hz, hz'⟩ := hbefore
  rw [hy', Option.some.injEq] at hz'
  exact h.id_ne hz hy hz'.symm

/-! ### Entries and references -/

theorem Admitted.mem_iff_get {log : List LogEntry} {b : Board} (h : Admitted P g log b)
    {e : Entry} : e ∈ b.entriesInOrder ↔ b.get e.id = some e := by
  rw [h.mem_entries, h.get_iff]
  constructor
  · rintro ⟨pre, x, post, hsplit, rfl⟩
    exact ⟨pre, x, post, hsplit, rfl, rfl⟩
  · rintro ⟨pre, x, post, hsplit, -, rfl⟩
    exact ⟨pre, x, post, hsplit, rfl⟩

theorem Admitted.get_fits {log : List LogEntry} {b : Board} (h : Admitted P g log b)
    {id : ContentId} {e : Entry} (hget : b.get id = some e) :
    e.id = id ∧ e.event.body.kind = e.event.kind ∧
      (closedBy e.event = none → e.conflict = none) := by
  obtain ⟨pre, x, post, rfl, hid, rfl⟩ := h.get_iff.mp hget
  obtain ⟨u, conflict, -, hadm⟩ := h.split
  refine ⟨hid, hadm.fits, fun hclosed => ?_⟩
  have hclosed : closedBy x.event = none := hclosed
  rw [LogEntry.entry, hclosed]
  rfl

/-- The references of an event that cites one other, of a kind its own kind
allows and without a lane of its own. -/
theorem checkRefs_single {b : Board} {ev : Event} {role : String} {kinds : List Kind}
    {required : Bool} {cid : ContentId} {e : Entry} (hserver : isServerKind ev.kind = false)
    (hroster : ev.kind ≠ .roster) (hspec : refSpec ev.kind = [(role, kinds, required)])
    (hrefs : ev.refs = (∅ : BTreeMap String ContentId).insert role cid)
    (hget : b.get cid = some e) (hkind : e.event.kind ∈ kinds)
    (hlane : declaredLane ev.body = none) : checkRefs b ev = .ok (some cid) := by
  have hknown : (ev.refs.keys.find? fun r => !(refSpec ev.kind).any fun s => s.1 == r) = none := by
    rw [List.find?_eq_none]
    intro r hr
    rw [ExtTreeMap.mem_keys, hrefs, ExtTreeMap.mem_insert] at hr
    have hrole : role = r := hr.elim (fun h => LawfulEqCmp.eq_of_compare h) fun h => by simp at h
    simp [hspec, hrole]
  have hrole : ev.refs[role]? = some cid := by
    rw [hrefs, BTreeMap.get_insert, if_pos rfl]
  have hsame : checkLane ev.body e.event.body = .ok () := by
    rw [checkLane, hlane]
  rw [checkRefs, hserver, if_neg Bool.false_ne_true, hknown, hspec]
  simp only [List.foldlM_cons, List.foldlM_nil, checkRef, hrole, if_neg hroster, hget, okOr]
  simp [hkind, hsame]

section Serving

variable {b : Board} {s : Sessions} {ev : Event} {signer : Signer} {member : String}

theorem Sessions.Writes.head (hw : s.Writes P b ev signer member) (head : ContentId)
    (h : b.headOf ev.author = some head) : ev.prev = some head := by
  rw [hw.prev, Sessions.chainHead, h]
  rfl

/-- The writer chain accepts what a session writes next. -/
theorem Board.Serves.writerChain (h : b.Serves P g s) (hw : s.Writes P b ev signer member) :
    writerChain b ev signer = .ok () := by
  obtain ⟨x, hx, -, -⟩ := hw.session
  have hprev := hw.prev
  rw [Sessions.chainHead, hx, Option.bind_some] at hprev
  exact writerChain_of (fun id => h.activated _ x id hx) hprev hw.signed

/-- **What is left to check** of what an active session writes next: that its
member's role may sign it, its references, its place in the table, and that it
closes nothing twice. -/
theorem Board.Serves.admits (hinj : Function.Injective P.eventId) (h : b.Serves P g s)
    (hw : s.Writes P b ev signer member) {m : Member} {target closes : Option ContentId}
    (hm : (b.members.find? fun m => decide (m.name = member)) = some m)
    (hserver : serverSigns ev.kind = false) (hack : ev.kind ≠ .ack)
    (hrole : sessionSigns m.role ev.kind = true) (hfits : ev.body.kind = ev.kind)
    (hfiles : ∀ f ∈ ev.files, f.root ∈ b.roots) (hrefs : checkRefs b ev = .ok target)
    (htable : applyTable b ev (some (member, m.role)) target = .ok closes)
    (hopen : closes.bind b.closerOf = none) :
    admitEvent P b ev.node signer = .admitted := by
  obtain ⟨log, hlog⟩ := h.admitted
  have hanswer : ev.kind ≠ .answer := by
    intro hkind
    rw [hkind] at hrole
    cases hrole
  have hfresh : b.get (P.eventId ev.node) = none :=
    hlog.fresh_on_head hinj hserver hanswer hw.head
  have hgate : signerMember b ev.kind signer = .ok (some (member, m.role)) := by
    rw [signerMember, hw.signed]
    simp only [bind_ok, ensure_ok, okOr_ok, pure, Except.pure, Except.ok.injEq]
    exact ⟨(), trivial, m, hm, (), fun hboth => hack hboth.1, (), hrole, rfl⟩
  have hroster : checkRoster b ev.body signer = .ok () := by
    unfold checkRoster
    split
    · rename_i hbody
      rw [hbody] at hfits
      rw [← hfits] at hserver
      cases hserver
    · rfl
  have hdecide : decideNode P b ev.node signer = .ok .admitted := by
    rw [decideNode, hfresh]
    simp only [bind_ok, ensure_ok, pure, Except.pure, Except.ok.injEq]
    exact ⟨(), hw.flock, (), hw.author, (), rfl, (), decide_eq_true hfits, _, hgate, (), hroster,
      (), hfiles, (), h.writerChain hw, target, hrefs, closes, htable, by rw [hopen]⟩
  rw [admitEvent, hdecide]

end Serving

end Flock
