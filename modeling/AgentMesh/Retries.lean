/-
Retrying what was admitted changes nothing.

The first question `apply` asks is whether the board knows the event's id, and
nothing else about the call matters if it does.  So copies of admitted nodes,
signed by anyone, can be inserted into a log after their first occurrences and
the fold does not notice.

* `Board.apply_known` — a known event is answered with its index, for every
  signer;
* `Board.get_applyAll` — an entry once taken in stays as it was taken in;
* `Board.foldFrom_retries` — a fold does not notice retries;
* `Board.order_of_fold` — the entries come in the order of first occurrence;
* `retries_harmless` — the three together.
-/
import AgentMesh.Rosters

open Std Mesh

namespace Flock

variable {P : Primitives} {g : MerkleNode Genesis}

/-- The log with further copies of its nodes, each with any signer, after
their first occurrences; `seen` are the nodes that occurred before. -/
inductive WithRetries : List (MerkleNode Event) → List LogEntry → List LogEntry → Prop where
  | nil {seen : List (MerkleNode Event)} : WithRetries seen [] []
  | entry {seen : List (MerkleNode Event)} {x : LogEntry} {log log' : List LogEntry}
      (rest : WithRetries (x.node :: seen) log log') : WithRetries seen (x :: log) (x :: log')
  | retry {seen : List (MerkleNode Event)} {node : MerkleNode Event} {signer : Signer}
      {log log' : List LogEntry} (earlier : node ∈ seen) (rest : WithRetries seen log log') :
      WithRetries seen log (⟨node, signer⟩ :: log')

namespace Board

/-! ### One call -/

/-- **A known event is a duplicate**, whoever signed it. -/
theorem apply_known {b : Board} {node : MerkleNode Event} {e : Entry}
    (h : b.get (P.eventId node) = some e) (signer : Signer) :
    b.apply P node signer = (b, .duplicate e.index) := by
  have hv : admitEvent P b node signer = .duplicate e.index := by
    simp [admitEvent, decideNode, h]
  rw [apply, hv]
  rfl

theorem apply_verdict (b : Board) (node : MerkleNode Event) (signer : Signer) :
    (b.apply P node signer).2 = admitEvent P b node signer := by
  rw [apply]
  cases (admitEvent P b node signer).recorded <;> rfl

theorem apply_unrecorded {b : Board} {node : MerkleNode Event} {signer : Signer}
    (h : (b.apply P node signer).2.recorded = none) : (b.apply P node signer).1 = b := by
  rw [apply_verdict] at h
  rw [apply, h]

theorem known_of_duplicate {b : Board} {node : MerkleNode Event} {signer : Signer} {i : ℕ}
    (h : admitEvent P b node signer = .duplicate i) : ∃ e, b.get (P.eventId node) = some e := by
  cases hget : b.get (P.eventId node) with
  | some e => exact ⟨e, rfl⟩
  | none =>
    -- past the first question the verdict is an admission or a refusal
    have hdecide : decideNode P b node signer = .ok (.duplicate i) := by
      rw [admitEvent] at h
      cases hd : decideNode P b node signer with
      | ok v =>
        rw [hd] at h
        exact congrArg Except.ok h
      | error why =>
        rw [hd] at h
        cases h
    simp only [decideNode, hget, bind_ok, pure, Except.pure, Except.ok.injEq] at hdecide
    obtain ⟨_, -, _, -, _, -, _, -, _, -, _, -, _, -, _, -, _, -, _, -, hverdict⟩ := hdecide
    split at hverdict <;> cases hverdict

theorem apply_get {b : Board} {node : MerkleNode Event} {signer : Signer}
    (h : ∀ r, (b.apply P node signer).2 ≠ .refuse r) :
    ∃ e, (b.apply P node signer).1.get (P.eventId node) = some e := by
  rw [apply] at h ⊢
  cases hv : admitEvent P b node signer with
  | refuse r =>
    rw [hv] at h
    exact absurd rfl (h r)
  | duplicate i => exact known_of_duplicate hv
  | admitted =>
    show ∃ e, (b.record (P.eventId node) node.payload signer none).get (P.eventId node) = some e
    rw [get_record, if_pos rfl]
    exact ⟨_, rfl⟩
  | conflict c =>
    show ∃ e, (b.record (P.eventId node) node.payload signer (some c)).get (P.eventId node) = some e
    rw [get_record, if_pos rfl]
    exact ⟨_, rfl⟩

theorem get_apply {b : Board} {i : ContentId} {e : Entry} (h : b.get i = some e) (x : LogEntry) :
    (b.apply P x.node x.signer).1.get i = some e := by
  rcases b.apply_cases x with ⟨⟨conflict, hadm, heq⟩, -⟩ | ⟨heq, -⟩
  · -- what is taken in was not known, so it is another entry
    have hne : x.id P ≠ i := by
      rintro rfl
      cases hadm.fresh.symm.trans h
    rw [heq, get_record, if_neg hne]
    exact h
  · rw [heq]
    exact h

/-- **An entry once taken in stays as it was taken in.** -/
theorem get_applyAll {i : ContentId} {e : Entry} {calls : List LogEntry} :
    ∀ {b : Board}, b.get i = some e → (b.applyAll P calls).get i = some e := by
  induction calls with
  | nil => exact fun h => h
  | cons x calls ih =>
    intro b h
    rw [applyAll_cons]
    exact ih (get_apply h x)

/-- An event that was admitted, retried after any further calls: its original
index, and nothing changes. -/
theorem apply_again {b : Board} {x : LogEntry} {conflict : Option ConflictKind}
    (h : (b.apply P x.node x.signer).2.recorded = some conflict) (calls : List LogEntry)
    (signer : Signer) :
    ((b.apply P x.node x.signer).1.applyAll P calls).apply P x.node signer =
      ((b.apply P x.node x.signer).1.applyAll P calls, .duplicate (b.order.length + 1)) := by
  have hrecord : (b.apply P x.node x.signer).1 =
      b.record (x.id P) x.event x.signer conflict := by
    rw [apply_verdict] at h
    rw [apply, h]
    rfl
  have hget : (b.apply P x.node x.signer).1.get (x.id P) =
      some ⟨x.id P, b.order.length + 1, x.event, x.signer.class_.member, conflict⟩ := by
    rw [hrecord, get_record, if_pos rfl]
  exact apply_known (get_applyAll hget) signer

/-! ### Folds -/

theorem foldFrom_cons {b b' : Board} {position : ℕ} {x : LogEntry} {log : List LogEntry} :
    b.foldFrom P position (x :: log) = .ok b' ↔ (∀ r, (b.apply P x.node x.signer).2 ≠ .refuse r) ∧
      (b.apply P x.node x.signer).1.foldFrom P (position + 1) log = .ok b' := by
  rw [foldFrom]
  obtain ⟨next, verdict⟩ := b.apply P x.node x.signer
  cases verdict <;> simp

/-- **A fold does not notice retries.**  The positions only label errors. -/
theorem foldFrom_retries {seen : List (MerkleNode Event)} {log log' : List LogEntry}
    (h : WithRetries seen log log') :
    ∀ {b b' : Board} {position : ℕ} (position' : ℕ),
      (∀ node ∈ seen, ∃ e, b.get (P.eventId node) = some e) →
      b.foldFrom P position log = .ok b' → b.foldFrom P position' log' = .ok b' := by
  induction h with
  | nil => exact fun _ _ h => h
  | @entry seen x log log' _ ih =>
    intro b b' position position' hseen hfold
    obtain ⟨hok, hrest⟩ := foldFrom_cons.mp hfold
    refine foldFrom_cons.mpr ⟨hok, ih (position' + 1) ?_ hrest⟩
    refine List.forall_mem_cons.mpr ⟨apply_get hok, fun node hnode => ?_⟩
    obtain ⟨e, he⟩ := hseen node hnode
    exact ⟨e, get_apply he x⟩
  | @retry seen node signer log log' hearlier _ ih =>
    intro b b' position position' hseen hfold
    obtain ⟨e, he⟩ := hseen node hearlier
    refine foldFrom_cons.mpr ?_
    rw [apply_known he]
    exact ⟨fun r hr => (nomatch hr), ih (position' + 1) hseen hfold⟩

theorem foldFrom_snoc {x : LogEntry} {log : List LogEntry} :
    ∀ {b b' : Board} {position : ℕ}, b.foldFrom P position (log ++ [x]) = .ok b' →
      ∃ u, b.foldFrom P position log = .ok u ∧ (∀ r, (u.apply P x.node x.signer).2 ≠ .refuse r) ∧
        b' = (u.apply P x.node x.signer).1 := by
  induction log with
  | nil =>
    intro b b' position h
    obtain ⟨hok, hend⟩ := foldFrom_cons.mp h
    cases hend
    exact ⟨b, rfl, hok, rfl⟩
  | cons y log ih =>
    intro b b' position h
    obtain ⟨hok, hrest⟩ := foldFrom_cons.mp h
    obtain ⟨u, hu, hx⟩ := ih hrest
    exact ⟨u, foldFrom_cons.mpr ⟨hok, hu⟩, hx⟩

theorem mem_order_of_fold {log : List LogEntry} {b : Board} (h : Board.fold P g log = .ok b)
    {i : ContentId} : i ∈ b.order ↔ ∃ e, b.get i = some e := by
  have hadm := fold_admitted h
  rw [hadm.order, List.mem_map]
  constructor
  · rintro ⟨x, hx, rfl⟩
    obtain ⟨pre, post, hsplit⟩ := List.append_of_mem hx
    exact ⟨_, hadm.get_iff.mpr ⟨pre, x, post, hsplit, rfl, rfl⟩⟩
  · rintro ⟨e, he⟩
    obtain ⟨pre, x, post, hsplit, rfl, -⟩ := hadm.get_iff.mp he
    exact ⟨x, by simp [hsplit], rfl⟩

/-- The order of a board is the order of first occurrence in its log. -/
theorem order_of_fold {log : List LogEntry} {b : Board} (h : Board.fold P g log = .ok b) :
    b.order = (log.map (·.id P)).eraseDups := by
  induction log using List.reverseRecOn generalizing b with
  | nil =>
    cases h
    rfl
  | append_singleton log x ih =>
    obtain ⟨u, hu, hok, rfl⟩ := foldFrom_snoc h
    have horder : u.order = (log.map (·.id P)).eraseDups := ih hu
    have hmem : x.id P ∈ log.map (·.id P) ↔ ∃ e, u.get (x.id P) = some e := by
      rw [← mem_order_of_fold hu, horder, List.mem_eraseDups]
    rw [List.map_append, List.eraseDups_append, ← horder]
    rcases u.apply_cases x with ⟨⟨conflict, hadm, heq⟩, -⟩ | ⟨heq, -⟩
    · have hfresh : x.id P ∉ log.map (·.id P) := by
        rw [hmem]
        rintro ⟨e, he⟩
        cases hadm.fresh.symm.trans he
      have hremove : ([x].map (·.id P)).removeAll (log.map (·.id P)) = [x.id P] := by
        simpa [List.removeAll] using hfresh
      rw [heq, hremove]
      rfl
    · obtain ⟨e, he⟩ := apply_get hok
      rw [heq] at he ⊢
      have hold : x.id P ∈ log.map (·.id P) := hmem.mpr ⟨e, he⟩
      have hremove : ([x].map (·.id P)).removeAll (log.map (·.id P)) = [] := by
        simpa [List.removeAll] using hold
      rw [hremove]
      simp

end Board

/-- **Retries are harmless.**  A fold accepts a log with retries as it accepts
the log, and gives the same board; the entries are numbered from one without a
gap, in the order of first occurrence; and whatever the board, a call that is
refused or finds a duplicate leaves it unchanged, and an event that was
admitted is answered with its original index after any further calls, whoever
signs it. -/
theorem retries_harmless {log log' : List LogEntry} {b : Board}
    (hfold : Board.fold P g log = .ok b) (hretries : WithRetries [] log log') :
    Board.fold P g log' = .ok b ∧
    b.entriesInOrder.map (·.id) = (log.map (·.id P)).eraseDups ∧
    b.entriesInOrder.map (·.index) = List.range' 1 b.entriesInOrder.length ∧
    (∀ (c : Board) (x : LogEntry), (∃ r, (c.apply P x.node x.signer).2 = .refuse r) ∨
        (∃ i, (c.apply P x.node x.signer).2 = .duplicate i) →
      (c.apply P x.node x.signer).1 = c) ∧
    ∀ (c : Board) (x : LogEntry) (calls : List LogEntry) (signer : Signer),
      (c.apply P x.node x.signer).2.recorded.isSome →
      let later := (c.apply P x.node x.signer).1.applyAll P calls
      later.apply P x.node signer = (later, .duplicate (c.order.length + 1)) := by
  have hadm := Board.fold_admitted hfold
  refine ⟨?_, ?_, ?_, ?_, ?_⟩
  · exact Board.foldFrom_retries hretries 0 (fun node hnode => (nomatch hnode)) hfold
  · rw [hadm.entriesInOrder, entriesFrom_id, ← hadm.order]
    exact Board.order_of_fold hfold
  · have hlen : b.entriesInOrder.length = (admitted P g log).length := by
      rw [hadm.entriesInOrder, ← List.length_map (·.id), entriesFrom_id, List.length_map]
    rw [hlen, hadm.entriesInOrder]
    exact entriesFrom_index
  · rintro c x (⟨r, hr⟩ | ⟨i, hi⟩)
    · exact Board.apply_unrecorded (by rw [hr]; rfl)
    · exact Board.apply_unrecorded (by rw [hi]; rfl)
  · intro c x calls signer h
    obtain ⟨conflict, hconflict⟩ := Option.isSome_iff_exists.mp h
    exact Board.apply_again hconflict calls signer

set_option maxRecDepth 100000 in
/-- A helper's question is repeated by a key nobody knows, after its answer. -/
theorem retries_harmless_answered :
    ∃ b, Board.fold Small.P Small.genesis Small.answeredLog = .ok b ∧
      Board.fold Small.P Small.genesis
        (Small.answeredLog ++ [⟨Small.asked.event, ⟨⟨77⟩, .session "x" true⟩⟩]) = .ok b := by
  obtain ⟨b, hb, -⟩ : ∃ b, Board.fold Small.P Small.genesis Small.answeredLog = .ok b ∧ True := by
    decide +kernel
  have hretries : WithRetries [] Small.answeredLog
      (Small.answeredLog ++ [⟨Small.asked.event, ⟨⟨77⟩, .session "x" true⟩⟩]) :=
    .entry (.entry (.entry (.retry (by simp) .nil)))
  exact ⟨b, hb, (retries_harmless hb hretries).1⟩

end Flock
