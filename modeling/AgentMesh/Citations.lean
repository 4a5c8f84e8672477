/-
What admitted entries point at.

The admission table checks each event against the board of its moment.  Here
its checks become facts about whole histories: what an entry cites was admitted
before it, whoever closes something first stays its closer, and the entries of
one author are one chain.

* `Taken.admitted` — the boards of servers and readers are such boards;
* `writer_chains_never_fork` — a session chains to the last entry of its author;
* `first_closer_wins` — the closer of an event is the first entry that closes it;
* `Legitimate`, `citations_legitimate` — prev, references, addressees, lanes and
  file roots of every entry that a session or an operator signed.
-/
import AgentMesh.Rosters

open Std Mesh

namespace Flock

variable {P : Primitives} {g : MerkleNode Genesis}

/-- The board of a server or of a reader: it admitted the events of its
history, each for some signer. -/
theorem Taken.admitted {log : List Sealed} {st : State} (h : Taken P g log st) :
    ∃ entries : List LogEntry, entries.map (·.node) = log.map (·.event) ∧
      Admitted P g entries st.board := by
  induction h with
  | nil hst =>
    obtain ⟨user, -, rfl⟩ := startState_ok.mp hst
    exact ⟨[], rfl, .nil rfl⟩
  | @snoc log st st' x _ hx ih =>
    obtain ⟨entries, hnodes, hadmitted⟩ := ih
    obtain ⟨sig, epoch, signer, conflict, hv, hboard, -⟩ := hx.vetted
    refine ⟨entries ++ [⟨x.event, signer⟩], by simp [hnodes], ?_⟩
    exact .snoc hadmitted ⟨conflict, hv.admissible, hboard⟩

/-! ### Writer chains -/

theorem lastOf_some {log : List LogEntry} {author : String} {i : ContentId}
    (h : lastOf P log author = some i) : ∃ x ∈ log, x.event.author = author ∧ x.id P = i := by
  obtain ⟨x, hx, rfl⟩ := Option.map_eq_some_iff.mp h
  obtain ⟨hmem, hauthor⟩ := List.mem_filter.mp (List.mem_of_getLast? hx)
  exact ⟨x, hmem, by simpa using hauthor, rfl⟩

theorem lastOf_eq_none {log : List LogEntry} {author : String} :
    lastOf P log author = none ↔ ∀ x ∈ log, x.event.author ≠ author := by
  simp [lastOf]

theorem lastOf_from {author : String} {x : LogEntry} (hx : x.event.author = author)
    (pre mid : List LogEntry) :
    ∃ y ∈ x :: mid, lastOf P (pre ++ x :: mid) author = some (y.id P) := by
  induction mid using List.reverseRecOn with
  | nil => exact ⟨x, by simp, by rw [lastOf_snoc, if_pos hx]⟩
  | append_singleton mid y ih =>
    rw [← List.cons_append, ← List.append_assoc, lastOf_snoc]
    by_cases hy : y.event.author = author
    · exact ⟨y, by simp, by rw [if_pos hy]⟩
    · obtain ⟨z, hz, hlast⟩ := ih
      rw [if_neg hy]
      exact ⟨z, by simp only [List.mem_cons, List.mem_append] at hz ⊢; tauto, hlast⟩

/-- What a session's entry chains to. -/
theorem Admitted.session_prev {pre post : List LogEntry} {x : LogEntry} {b : Board}
    (h : Admitted P g (pre ++ x :: post) b) {member : String} {pending : Bool}
    (hs : x.signer.class_ = .session member pending) :
    x.event.prev = lastOf P pre x.event.author ∨ lastOf P pre x.event.author = none ∧
      ∃ y ∈ pre, y.event.kind = .handoff ∧ x.event.prev = some (y.id P) := by
  obtain ⟨u, conflict, hu, hadm⟩ := h.split
  rw [← hu.headOf]
  rcases writerChain_session hs hadm.writer with hprev | ⟨hnone, p, e, hprev, hget, hkind⟩
  · exact .inl hprev
  · right
    obtain ⟨pre', y, post', rfl, rfl, rfl⟩ := hu.get_iff.mp hget
    exact ⟨hnone, y, by simp, hkind, hprev⟩

/-- **Writer chains never fork.**  In every log a fold accepts, an entry that a
session signed has the latest earlier entry of its author as `prev`, or, if
there is none, no `prev` or an earlier hand-off; two such entries that both
follow an earlier entry of the author have different `prev`s; and the heads are
the last entries of the authors. -/
theorem writer_chains_never_fork {log : List LogEntry} {b : Board}
    (h : Board.fold P g log = .ok b) (author : String) :
    (∀ (pre : List LogEntry) (x : LogEntry) (post : List LogEntry) (member : String)
      (pending : Bool), admitted P g log = pre ++ x :: post → x.event.author = author →
      x.signer.class_ = .session member pending →
      match lastOf P pre author with
      | some last => x.event.prev = some last
      | none => x.event.prev = none ∨
          ∃ y ∈ pre, y.event.kind = .handoff ∧ x.event.prev = some (y.id P)) ∧
    (∀ (pre : List LogEntry) (x : LogEntry) (mid : List LogEntry) (y : LogEntry)
      (post : List LogEntry) (member member' : String) (pending pending' : Bool),
      admitted P g log = pre ++ x :: (mid ++ y :: post) →
      x.event.author = author → y.event.author = author →
      x.signer.class_ = .session member pending → y.signer.class_ = .session member' pending' →
      (∃ w ∈ pre, w.event.author = author) → x.event.prev ≠ y.event.prev) ∧
    b.headOf author = lastOf P (admitted P g log) author ∧
    (b.headOf author ≠ none ↔ ∃ x ∈ admitted P g log, x.event.author = author) := by
  have hlog := Board.fold_admitted h
  refine ⟨?_, ?_, hlog.headOf author, ?_⟩
  · rintro pre x post member pending hsplit rfl hs
    rw [hsplit] at hlog
    rcases hlog.session_prev hs with hprev | ⟨hnone, hhandoff⟩
    · cases hlast : lastOf P pre x.event.author with
      | none => exact .inl (hprev.trans hlast)
      | some last => exact hprev.trans hlast
    · rw [hnone]
      exact .inr hhandoff
  · rintro pre x mid y post member member' pending pending' hsplit rfl hy hsx hsy ⟨w, hw, hwa⟩
    rw [hsplit] at hlog
    -- `x` chains to an entry before it, `y` to `x` or to one after it
    have hx : ∃ z ∈ pre, x.event.prev = some (z.id P) := by
      have hlast : lastOf P pre x.event.author ≠ none :=
        fun hnone => lastOf_eq_none.mp hnone w hw hwa
      obtain ⟨i, hi⟩ := Option.ne_none_iff_exists'.mp hlast
      obtain ⟨z, hz, -, rfl⟩ := lastOf_some hi
      rcases hlog.session_prev hsx with hprev | ⟨hnone, -⟩
      · exact ⟨z, hz, hprev.trans hi⟩
      · exact absurd hnone hlast
    have hy : ∃ z ∈ x :: mid, y.event.prev = some (z.id P) := by
      have hlater : Admitted P g ((pre ++ x :: mid) ++ y :: post) b := by simpa using hlog
      obtain ⟨z, hz, hlast⟩ := lastOf_from (P := P) rfl pre mid
      rw [← hy] at hlast
      rcases hlater.session_prev hsy with hprev | ⟨hnone, -⟩
      · exact ⟨z, hz, hprev.trans hlast⟩
      · rw [hlast] at hnone
        cases hnone
    obtain ⟨z, hz, hprev⟩ := hx
    obtain ⟨z', hz', hprev'⟩ := hy
    have hmem : z' ∈ x :: (mid ++ y :: post) := by
      simp only [List.mem_cons, List.mem_append] at hz' ⊢
      tauto
    rw [hprev, hprev', ne_eq, Option.some.injEq]
    exact hlog.id_ne hz hmem
  · rw [hlog.headOf, ne_eq, lastOf_eq_none]
    push Not
    rfl

set_option maxRecDepth 100000 in
/-- The helper's head is what it asked. -/
theorem writer_chains_never_fork_asked :
    ∃ b, Board.fold Small.P Small.genesis Small.answeredLog = .ok b ∧
      b.headOf "kkkk" = some (Small.eid 12) := by
  obtain ⟨b, hb, -⟩ : ∃ b, Board.fold Small.P Small.genesis Small.answeredLog = .ok b ∧ True := by
    decide +kernel
  refine ⟨b, hb, ?_⟩
  rw [(writer_chains_never_fork hb "kkkk").2.2.1]
  decide +kernel

/-! ### Closers -/

theorem firstCloser_append {log more : List LogEntry} {t c : ContentId}
    (h : firstCloser P log t = some c) : firstCloser P (log ++ more) t = some c := by
  rw [firstCloser] at h
  rw [firstCloser, List.find?_append, Option.map_or, h, Option.some_or]

/-- What an entry closes, once it is admitted. -/
theorem Admitted.closedBy_iff {pre post : List LogEntry} {x : LogEntry} {b : Board}
    (h : Admitted P g (pre ++ x :: post) b) (t : ContentId) :
    closedBy x.event = some t ↔ x.Closes t := by
  obtain ⟨u, conflict, -, hadm⟩ := h.split
  exact hadm.closedBy_iff t

/-- **The first closer wins, exactly.**  On every board that calls reach, the
closer of `t` is the first admitted entry that closes it; no later call replaces
it; every later entry that closes `t` is flagged with it; and no other entry is
flagged. -/
theorem first_closer_wins (P : Primitives) (g : MerkleNode Genesis) (calls : List LogEntry)
    (t : ContentId) :
    (Board.reached P g calls).closerOf t = firstCloser P (admitted P g calls) t ∧
    (∀ (c : ContentId) (more : List LogEntry), (Board.reached P g calls).closerOf t = some c →
      (Board.reached P g (calls ++ more)).closerOf t = some c) ∧
    (∀ (pre : List LogEntry) (x : LogEntry) (post : List LogEntry) (first : ContentId),
      admitted P g calls = pre ++ x :: post → x.Closes t → firstCloser P pre t = some first →
      (Board.reached P g calls).closerOf t = some first ∧
        ∃ e, (Board.reached P g calls).get (x.id P) = some e ∧
          e.conflict = some (.secondCloser first)) ∧
    (∀ (i : ContentId) (e : Entry) (kind : ConflictKind),
      (Board.reached P g calls).get i = some e → e.conflict = some kind →
      ∃ pre x post target first, admitted P g calls = pre ++ x :: post ∧ x.id P = i ∧
        x.Closes target ∧ firstCloser P pre target = some first ∧
        kind = .secondCloser first) := by
  have hcalls := Board.reached_admitted P g calls
  refine ⟨hcalls.closerOf t, ?_, ?_, ?_⟩
  · intro c more hc
    rw [hcalls.closerOf] at hc
    rw [(Board.reached_admitted P g (calls ++ more)).closerOf, admitted_append]
    exact firstCloser_append hc
  · intro pre x post first hsplit hx hfirst
    rw [hcalls.closerOf, hsplit]
    rw [hsplit] at hcalls
    refine ⟨firstCloser_append hfirst, _, hcalls.get_of_split, ?_⟩
    have hclosed := (hcalls.closedBy_iff t).mpr hx
    simp [LogEntry.entry, hclosed, hfirst]
  · intro i e kind hget hconflict
    obtain ⟨pre, x, post, hsplit, hid, rfl⟩ := hcalls.get_iff.mp hget
    rw [hsplit] at hcalls
    obtain ⟨first, hfirst, rfl⟩ := Option.map_eq_some_iff.mp hconflict
    obtain ⟨target, hclosed, hfirst⟩ := Option.bind_eq_some_iff.mp hfirst
    exact ⟨pre, x, post, target, first, hsplit, hid, (hcalls.closedBy_iff target).mp hclosed,
      hfirst, rfl⟩

/-! ### Everything an entry points at -/

/-- A brief or a review for `to_`. -/
def Body.AddressedTo (body : Body) (to_ : String) : Prop :=
  (∃ lane, body = .brief to_ lane) ∨ ∃ lane head, body = .review to_ lane head

/-- What holds of an entry that a session or an operator signed, admitted after
`pre`: everything it points at was admitted before it and is what its kind may
point at. -/
structure Legitimate (P : Primitives) (g : MerkleNode Genesis) (pre : List LogEntry)
    (x : LogEntry) : Prop where
  /-- The node's parents are `prev` and the references. -/
  parents : ∀ p, p ∈ x.node.parents ↔
    x.event.prev = some p ∨ ∃ role : String, x.event.refs[role]? = some p
  prev : ∀ p, x.event.prev = some p → ∃ y ∈ pre, y.id P = p
  /-- A reference has a role of the kind and names an earlier entry of an
  allowed kind; a roster may replace the genesis. -/
  refs : ∀ (role : String) (cid : ContentId), x.event.refs[role]? = some cid →
    ∃ spec ∈ refSpec x.event.kind, spec.1 = role ∧
      ((∃ y ∈ pre, y.id P = cid ∧ y.event.kind ∈ spec.2.1) ∨
        x.event.kind = .roster ∧ cid = P.genesisId g)
  required : ∀ spec ∈ refSpec x.event.kind, spec.2.2 = true →
    ∃ cid, x.event.refs[spec.1]? = some cid
  /-- Acks, results and verdicts are the addressee's. -/
  addressed : x.event.kind ∈ [.ack, .result, .verdict] →
    ∃ role : String, ∃ y ∈ pre, x.event.refs[role]? = some (y.id P) ∧
      ∃ member pending, x.signer.class_ = .session member pending ∧
        y.event.body.AddressedTo member
  head : ∀ head approved, x.event.body = .verdict head approved →
    ∃ y ∈ pre, x.event.refs["review"]? = some (y.id P) ∧
      ∃ to_ lane, y.event.body = .review to_ lane head
  /-- A job is ended by a session of the member that started it, with either a
  code or a signal. -/
  job : x.event.kind = .jobEnd → (∃ y ∈ pre, x.event.refs["job"]? = some (y.id P) ∧
      ∃ member pending pending', x.signer.class_ = .session member pending ∧
        y.signer.class_ = .session member pending') ∧
    ∃ code signal, x.event.body = .jobEnd code signal ∧ code.isSome ≠ signal.isSome
  nudge : ∀ to_, (x.event.body = .nudged to_ ∨ ∃ e f, x.event.body = .nudgeMisfire to_ e f) →
    ∀ cid, x.event.refs["of"]? = some cid →
      ∃ y ∈ pre, y.id P = cid ∧ y.event.body.AddressedTo to_
  lane : ∀ lane text, x.event.body = .ask (some lane) text → ∀ cid,
    x.event.refs["about"]? = some cid →
      ∃ y ∈ pre, y.id P = cid ∧ ∃ to_, y.event.body = .brief to_ lane
  files : ∀ f ∈ x.event.files, f.root ∈ (inForce P g pre).roots

theorem Body.brief_of_kind {body : Body} (h : body.kind = .brief) :
    ∃ to_ lane, body = .brief to_ lane := by
  cases body <;> first | exact ⟨_, _, rfl⟩ | cases h

theorem addressee_eq_some {e : Entry} {to_ : String} :
    addressee e = some to_ ↔ e.event.body.AddressedTo to_ := by
  rw [addressee, Body.AddressedTo]
  cases e.event.body <;> simp

theorem Admitted.get_mem {log : List LogEntry} {b : Board} (h : Admitted P g log b)
    {i : ContentId} {e : Entry} (he : b.get i = some e) :
    ∃ y ∈ log, y.id P = i ∧ e.event = y.event ∧ e.member = y.signer.class_.member := by
  obtain ⟨pre, y, post, rfl, hid, rfl⟩ := h.get_iff.mp he
  exact ⟨y, by simp, hid, rfl, rfl⟩

theorem Admitted.fits {log : List LogEntry} {b : Board} (h : Admitted P g log b) {y : LogEntry}
    (hy : y ∈ log) : y.event.body.kind = y.event.kind := by
  obtain ⟨pre, post, rfl⟩ := List.append_of_mem hy
  obtain ⟨u, conflict, -, hadm⟩ := h.split
  exact hadm.fits

theorem signerMember_some {b : Board} {kind : Kind} {signer : Signer} {m : String × Role}
    (h : signerMember b kind signer = .ok (some m)) :
    ∃ pending, signer.class_ = .session m.1 pending := by
  rw [signerMember] at h
  cases hc : signer.class_ with
  | server =>
    rw [hc] at h
    simp [pure, Except.pure] at h
  | operator =>
    rw [hc] at h
    simp [pure, Except.pure] at h
  | session member pending =>
    rw [hc] at h
    simp only [bind_ok, pure, Except.pure, Except.ok.injEq, Option.some.injEq] at h
    obtain ⟨_, -, _, -, _, -, _, -, rfl⟩ := h
    exact ⟨pending, rfl⟩

theorem SignerClass.member_some {c : SignerClass} {m : String} (h : c.member = some m) :
    ∃ pending, c = .session m pending := by
  cases c with
  | session member pending =>
    cases h
    exact ⟨pending, rfl⟩
  | server => cases h
  | operator => cases h

theorem addressed_ok {b : Board} {member : Option (String × Role)} {target : Option ContentId}
    {role : String} {e : Entry} (h : addressed b member target role = .ok e) :
    ∃ m cid, member = some m ∧ target = some cid ∧ b.get cid = some e ∧
      e.event.body.AddressedTo m.1 := by
  simp only [addressed, bind_ok, okOr_ok, ensure_ok, pure, Except.pure, Except.ok.injEq] at h
  obtain ⟨m, hm, e', he, _, hto, rfl⟩ := h
  obtain ⟨cid, hcid, hget⟩ := Option.bind_eq_some_iff.mp he
  exact ⟨m, cid, hm, hcid, hget, addressee_eq_some.mp hto⟩

theorem checkHead_ok {review : Body} {head : String} (h : checkHead review head = .ok ()) :
    ∃ to_ lane, review = .review to_ lane head := by
  unfold checkHead at h
  split at h
  · rename_i to_ lane _
    exact ⟨to_, lane, by rw [ensure_ok.mp h]⟩
  · cases h

theorem checkExit_ok {body : Body} (h : checkExit body = .ok ()) :
    ∃ code signal, body = .jobEnd code signal ∧ code.isSome ≠ signal.isSome := by
  unfold checkExit at h
  split at h
  · rename_i code signal
    exact ⟨code, signal, rfl, ensure_ok.mp h⟩
  · cases h

/-- A nudge that cites an event is about its addressee. -/
theorem nudgeOk_about {b : Board} {to_ : String} {e : Entry} {texts : List String}
    {closes : Option ContentId} (h : nudgeOk b to_ (some e) texts = .ok closes) :
    e.event.body.AddressedTo to_ := by
  simp only [nudgeOk, checkNudged, bind_ok, ensure_ok, okOr_ok] at h
  obtain ⟨_, -, _, ⟨to', hto, rfl⟩, -⟩ := h
  exact addressee_eq_some.mp hto

theorem checkLane_ok {mine theirs : Body} {lane lane' : String} (h : checkLane mine theirs = .ok ())
    (hm : declaredLane mine = some lane) (ht : declaredLane theirs = some lane') :
    lane = lane' := by
  rw [checkLane, hm, ht] at h
  exact ensure_ok.mp h

section Legitimate

variable {pre : List LogEntry} {u : Board} {x : LogEntry} {member : Option (String × Role)}
  {target closes : Option ContentId}

theorem Cites.cited {cid : ContentId} (h : Cites u x.event (some cid)) :
    ∃ spec, refSpec x.event.kind = [spec] ∧ x.event.refs[spec.1]? = some cid := by
  cases h with
  | event _ spec_eq cited => exact ⟨_, spec_eq, cited⟩

theorem Cites.refs (hu : Admitted P g pre u) (h : Cites u x.event target) (role : String)
    (cid : ContentId) (hcid : x.event.refs[role]? = some cid) :
    ∃ spec ∈ refSpec x.event.kind, spec.1 = role ∧
      ((∃ y ∈ pre, y.id P = cid ∧ y.event.kind ∈ spec.2.1) ∨
        x.event.kind = .roster ∧ cid = P.genesisId g) := by
  cases h with
  | nothing _ only =>
    rw [only] at hcid
    cases hcid
  | roster kind current only =>
    obtain rfl := only role cid hcid
    rw [current, Option.some.injEq] at hcid
    refine ⟨("replaces", [.roster], true), by simp [kind, refSpec], rfl, ?_⟩
    have hforce : u.rosterId = (inForce P g pre).id := congrArg Roster.id hu.inForce
    rcases latest_cases (P := P) (g := g) (fun _ => true) pre with hgen | ⟨y, hy, hroster⟩
    · exact .inr ⟨kind, hcid.symm.trans (hforce.trans (congrArg Roster.id hgen))⟩
    · obtain ⟨hid, hbody⟩ := LogEntry.roster_some.mp hroster
      refine .inl ⟨y, hy, (hcid.symm.trans (hforce.trans hid)).symm, ?_⟩
      rw [← hu.fits hy, hbody]
      simp [Body.kind]
  | event notRoster spec_eq cited only known allowed =>
    obtain rfl := only role cid hcid
    rw [cited] at hcid
    cases hcid
    obtain ⟨y, hy, hid, hevent, -⟩ := hu.get_mem known
    refine ⟨_, by rw [spec_eq]; exact List.mem_singleton_self _, rfl, .inl ⟨y, hy, hid, ?_⟩⟩
    rw [← hevent]
    exact allowed

theorem Cites.required (h : Cites u x.event target) {spec : String × List Kind × Bool}
    (hspec : spec ∈ refSpec x.event.kind) (hreq : spec.2.2 = true) :
    ∃ cid, x.event.refs[spec.1]? = some cid := by
  cases h with
  | nothing optional =>
    rw [optional spec hspec] at hreq
    cases hreq
  | roster kind current =>
    rw [kind, refSpec, List.mem_singleton] at hspec
    rw [hspec]
    exact ⟨_, current⟩
  | event _ spec_eq cited =>
    rw [spec_eq, List.mem_singleton] at hspec
    rw [hspec]
    exact ⟨_, cited⟩

theorem Tabled.addressed (hu : Admitted P g pre u) (hcites : Cites u x.event target)
    (hm : signerMember u x.event.kind x.signer = .ok member)
    (h : Tabled u x.event member target closes)
    (hk : x.event.kind ∈ [.ack, .result, .verdict]) :
    ∃ role : String, ∃ y ∈ pre, x.event.refs[role]? = some (y.id P) ∧
      ∃ member pending, x.signer.class_ = .session member pending ∧
        y.event.body.AddressedTo member := by
  have hsigned : ∃ role e, Flock.addressed u member target role = .ok e := by
    cases h with
    | ack _ signed => exact ⟨_, _, signed⟩
    | result _ signed => exact ⟨_, _, signed⟩
    | verdict _ _ signed => exact ⟨_, _, signed⟩
    | jobEnd kind => simp [kind] at hk
    | answer kind => simp [kind] at hk
    | nudge kind => rcases kind with kind | kind <;> simp [kind] at hk
    | other kind => simp at kind hk; tauto
  obtain ⟨_, e, hsigned⟩ := hsigned
  obtain ⟨m, cid, rfl, rfl, hget, hto⟩ := addressed_ok hsigned
  obtain ⟨spec, -, hcid⟩ := hcites.cited
  obtain ⟨y, hy, rfl, hevent, -⟩ := hu.get_mem hget
  obtain ⟨pending, hclass⟩ := signerMember_some hm
  exact ⟨spec.1, y, hy, hcid, m.1, pending, hclass, hevent ▸ hto⟩

theorem Tabled.head (hu : Admitted P g pre u) (hcites : Cites u x.event target)
    (h : Tabled u x.event member target closes) (hfits : x.event.body.kind = x.event.kind)
    {head : String} {approved : Bool} (hb : x.event.body = .verdict head approved) :
    ∃ y ∈ pre, x.event.refs["review"]? = some (y.id P) ∧
      ∃ to_ lane, y.event.body = .review to_ lane head := by
  have hk : x.event.kind = .verdict := by
    rw [← hfits, hb]
    rfl
  cases h with
  | verdict _ body signed head_eq =>
    rw [hb, Body.verdict.injEq] at body
    obtain ⟨rfl, -⟩ := body
    obtain ⟨m, cid, rfl, rfl, hget, -⟩ := addressed_ok signed
    obtain ⟨y, hy, rfl, hevent, -⟩ := hu.get_mem hget
    obtain ⟨to_, lane, hreview⟩ := checkHead_ok head_eq
    have hspec : refSpec x.event.kind = [("review", [.review], true)] := by
      rw [hk]
      rfl
    exact ⟨y, hy, (hcites.target_eq hspec (by simp [hk])).symm, to_, lane, hevent ▸ hreview⟩
  | _ => simp_all

theorem Tabled.job (hu : Admitted P g pre u) (hcites : Cites u x.event target)
    (hm : signerMember u x.event.kind x.signer = .ok member)
    (h : Tabled u x.event member target closes) (hk : x.event.kind = .jobEnd) :
    (∃ y ∈ pre, x.event.refs["job"]? = some (y.id P) ∧
      ∃ member pending pending', x.signer.class_ = .session member pending ∧
        y.signer.class_ = .session member pending') ∧
    ∃ code signal, x.event.body = .jobEnd code signal ∧ code.isSome ≠ signal.isSome := by
  cases h with
  | @jobEnd m e _ exit signer known job =>
    refine ⟨?_, checkExit_ok exit⟩
    subst signer
    obtain ⟨cid, rfl, hget⟩ := Option.bind_eq_some_iff.mp known
    obtain ⟨y, hy, rfl, -, hmember⟩ := hu.get_mem hget
    obtain ⟨pending, hclass⟩ := signerMember_some hm
    have hspec : refSpec x.event.kind = [("job", [.job], true)] := by
      rw [hk]
      rfl
    obtain ⟨pending', hjob⟩ := SignerClass.member_some (hmember.symm.trans job)
    exact ⟨y, hy, (hcites.target_eq hspec (by simp [hk])).symm, m.1, pending, pending', hclass,
      hjob⟩
  | _ => simp_all

theorem Tabled.nudge_about (hu : Admitted P g pre u) (hcites : Cites u x.event target)
    (h : Tabled u x.event member target closes) (hfits : x.event.body.kind = x.event.kind)
    {to_ : String} (hb : x.event.body = .nudged to_ ∨ ∃ e f, x.event.body = .nudgeMisfire to_ e f)
    {cid : ContentId} (hcid : x.event.refs["of"]? = some cid) :
    ∃ y ∈ pre, y.id P = cid ∧ y.event.body.AddressedTo to_ := by
  have hk : x.event.kind = .nudged ∨ x.event.kind = .nudgeMisfire := by
    rw [← hfits]
    rcases hb with hb | ⟨e, f, hb⟩ <;> simp [hb, Body.kind]
  have hne : x.event.kind ≠ .roster := by rcases hk with hk | hk <;> simp [hk]
  obtain ⟨spec, e, -, -, rfl, hget, -, -⟩ := hcites.known hne hcid
  obtain ⟨y, hy, hid, hevent, -⟩ := hu.get_mem hget
  refine ⟨y, hy, hid, ?_⟩
  rw [← hevent]
  cases h with
  | @nudge to' texts _ body about =>
    have hto : to' = to_ := by
      rcases hb with hb | ⟨e, f, hb⟩ <;> rcases body with body | ⟨e', f', body⟩ <;>
        rw [hb] at body <;> cases body <;> rfl
    subst hto
    rw [Option.bind_some, hget] at about
    exact nudgeOk_about about
  | other kind => rcases hk with hk | hk <;> simp [hk] at kind
  | _ => rcases hk with hk | hk <;> simp_all

theorem Cites.lane_eq (hu : Admitted P g pre u) (hcites : Cites u x.event target)
    (hfits : x.event.body.kind = x.event.kind) {lane text : String}
    (hb : x.event.body = .ask (some lane) text) {cid : ContentId}
    (hcid : x.event.refs["about"]? = some cid) :
    ∃ y ∈ pre, y.id P = cid ∧ ∃ to_, y.event.body = .brief to_ lane := by
  have hk : x.event.kind = .ask := by
    rw [← hfits, hb]
    rfl
  obtain ⟨spec, e, hspec, -, -, hget, hallowed, hlane⟩ := hcites.known (by simp [hk]) hcid
  obtain ⟨y, hy, hid, hevent, -⟩ := hu.get_mem hget
  have hbrief : y.event.kind = .brief := by
    rw [hk, refSpec, List.singleton_inj] at hspec
    rw [← hspec, hevent] at hallowed
    simpa using hallowed
  obtain ⟨to_, lane', hbody⟩ := Body.brief_of_kind ((hu.fits hy).trans hbrief)
  rw [hevent, hb, hbody] at hlane
  obtain rfl := checkLane_ok hlane rfl rfl
  exact ⟨y, hy, hid, to_, hbody⟩

end Legitimate

/-- An entry that a session or an operator signed is legitimate where it was
admitted. -/
theorem Admissible.legitimate {pre : List LogEntry} {u : Board} {x : LogEntry}
    {conflict : Option ConflictKind} (hu : Admitted P g pre u)
    (h : Admissible P u x.node x.signer conflict) (hc : x.signer.class_ ≠ .server) :
    Legitimate P g pre x := by
  obtain ⟨member, target, closes, hm, hrefs, htable, -⟩ := h.table
  have hm : signerMember u x.event.kind x.signer = .ok member := hm
  have hcites : Cites u x.event target := checkRefs_cites (h.notServerKind hc) hrefs
  have htabled : Tabled u x.event member target closes := applyTable_tabled h.fits htable
  have hfits : x.event.body.kind = x.event.kind := h.fits
  refine ⟨?_, ?_, hcites.refs hu, fun spec hspec => hcites.required hspec,
    htabled.addressed hu hcites hm, fun head approved hb => htabled.head hu hcites hfits hb,
    htabled.job hu hcites hm, fun to_ hb cid hcid => htabled.nudge_about hu hcites hfits hb hcid,
    fun lane text hb cid hcid => hcites.lane_eq hu hfits hb hcid, ?_⟩
  · intro p
    have hparents : x.node.parents = x.event.expectedParents := h.parents
    rw [hparents, Event.expectedParents, List.mem_toFinset, List.mem_append, Option.mem_toList,
      BTreeMap.mem_values]
  · intro p hp
    cases hclass : x.signer.class_ with
    | server => exact absurd hclass hc
    | operator =>
      have hnone := h.writer
      rw [writerChain, hclass] at hnone
      have hnone : x.event.prev = none := ensure_ok.mp hnone
      rw [hnone] at hp
      cases hp
    | session m pending =>
      rcases writerChain_session hclass h.writer with hprev | ⟨-, q, e, hprev, hget, -⟩
      · rw [hu.headOf] at hprev
        obtain ⟨y, hy, -, hid⟩ := lastOf_some (hprev.symm.trans hp)
        exact ⟨y, hy, hid⟩
      · obtain ⟨y, hy, hid, -, -⟩ := hu.get_mem hget
        exact ⟨y, hy, hid.trans (Option.some.inj (hprev.symm.trans hp))⟩
  · intro f hf
    have hroots : u.roots = (inForce P g pre).roots := congrArg Roster.roots hu.inForce
    rw [← hroots]
    exact h.files f hf

/-- **Everything an admitted entry points at is legitimate.**  On every board
that calls reach, and for every admitted entry that a session or an operator
signed: what it cites was admitted before it, with a smaller index, and fits
its kind, its signer and its lane. -/
theorem citations_legitimate (P : Primitives) (g : MerkleNode Genesis) (calls : List LogEntry)
    (pre : List LogEntry) (x : LogEntry) (post : List LogEntry)
    (hsplit : admitted P g calls = pre ++ x :: post) (hc : x.signer.class_ ≠ .server) :
    Legitimate P g pre x ∧
      (∃ e, (Board.reached P g calls).get (x.id P) = some e ∧ e.index = pre.length + 1) ∧
      ∀ y ∈ pre, ∃ e, (Board.reached P g calls).get (y.id P) = some e ∧
        e.index < pre.length + 1 := by
  have hcalls := Board.reached_admitted P g calls
  rw [hsplit] at hcalls
  obtain ⟨u, conflict, hu, hadm⟩ := hcalls.split
  refine ⟨hadm.legitimate hu hc, ⟨_, hcalls.get_of_split, rfl⟩, ?_⟩
  intro y hy
  obtain ⟨before, after, rfl⟩ := List.append_of_mem hy
  rw [List.append_assoc, List.cons_append] at hcalls
  refine ⟨_, hcalls.get_of_split, ?_⟩
  simp only [LogEntry.entry, List.length_append, List.length_cons]
  omega

set_option maxRecDepth 100000 in
/-- The operator's answer cites what the helper asked. -/
theorem citations_legitimate_answered :
    Legitimate Small.P Small.genesis (Small.answeredLog.take 2)
      ⟨Small.answered.event, ⟨⟨2⟩, .operator⟩⟩ := by
  have hadmitted : admitted Small.P Small.genesis Small.answeredLog =
      Small.answeredLog.take 2 ++ ⟨Small.answered.event, ⟨⟨2⟩, .operator⟩⟩ :: [] := by
    decide +kernel
  exact (citations_legitimate Small.P Small.genesis Small.answeredLog _ _ [] hadmitted
    (by decide)).1

end Flock
