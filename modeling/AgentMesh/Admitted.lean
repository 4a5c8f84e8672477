/-
Boards and the entries they admitted.

A board is reached from genesis by any sequence of `apply` calls: a call that
is refused or finds a duplicate leaves it as it is.  What the board holds is a
function of the entries it admitted, in the order of their admission, and
`Admitted P g log b` says that `b` admitted exactly `log`.

* `Board.reached_admitted`, `Board.fold_ok` — whatever a sequence of calls or
  a fold reaches admitted the entries that `admittedOf` picks out;
* `checkRefs_cites` — what the references of an event come to;
* `Admissible.conflict_closed` — the admission table and the recording agree on
  what an event closes;
* `Admitted.order`, `Admitted.get_iff`, `Admitted.headOf`, `Admitted.closerOf`
  — the fields of the board as functions of the admitted entries.
-/
import AgentMesh.Admission
import AgentMesh.Runs

open Std Mesh

namespace Flock

/-- One log item as a reader sees it: the node and who signed it. -/
structure LogEntry where
  node : MerkleNode Event
  signer : Signer
  deriving DecidableEq

namespace LogEntry

def event (x : LogEntry) : Event := x.node.payload

def id (P : Primitives) (x : LogEntry) : ContentId := P.eventId x.node

/-- A result of that brief, a verdict on that review, the end of that job or
an operator's answer to that ask. -/
def Closes (x : LogEntry) (t : ContentId) : Prop :=
  (x.event.kind = .result ∧ x.event.refs["brief"]? = some t) ∨
  (x.event.kind = .verdict ∧ x.event.refs["review"]? = some t) ∨
  (x.event.kind = .jobEnd ∧ x.event.refs["job"]? = some t) ∨
  (x.event.kind = .answer ∧ x.signer.class_ = .operator ∧ x.event.refs["ask"]? = some t)

instance (x : LogEntry) (t : ContentId) : Decidable (x.Closes t) :=
  inferInstanceAs (Decidable (_ ∨ _ ∨ _ ∨ _))

end LogEntry

/-- A log entry the fold refused: the log is not an admitted log. -/
structure FoldError where
  position : ℕ
  refusal : Refusal
  deriving DecidableEq

namespace Board

variable (P : Primitives)

/-- Apply the entries, counted from `position`; stop at the first refusal. -/
def foldFrom (b : Board) (position : ℕ) : List LogEntry → Except FoldError Board
  | [] => .ok b
  | x :: log =>
    match b.apply P x.node x.signer with
    | (_, .refuse refusal) => .error ⟨position, refusal⟩
    | (next, _) => foldFrom next (position + 1) log

def fold (genesis : MerkleNode Genesis) (log : List LogEntry) : Except FoldError Board :=
  (new P genesis).foldFrom P 0 log

/-- The board after a sequence of calls, whatever they return. -/
def applyAll (b : Board) (calls : List LogEntry) : Board :=
  calls.foldl (fun b x => (b.apply P x.node x.signer).1) b

/-- The entries of a sequence of calls that the board takes in. -/
def admittedOf (b : Board) : List LogEntry → List LogEntry
  | [] => []
  | x :: calls =>
    let next := b.apply P x.node x.signer
    match next.2.recorded with
    | some _ => x :: next.1.admittedOf calls
    | none => next.1.admittedOf calls

def entriesInOrder (b : Board) : List Entry := b.order.filterMap b.get

end Board

variable {P : Primitives} {g : MerkleNode Genesis}

/-! ### What a sequence of calls admits -/

/-- The board takes `x` in and becomes `b'`. -/
def Board.Admits (P : Primitives) (b : Board) (x : LogEntry) (b' : Board) : Prop :=
  ∃ conflict, Admissible P b x.node x.signer conflict ∧
    b' = b.record (x.id P) x.event x.signer conflict

/-- The board of genesis `g` that admitted exactly `log`, in this order. -/
def Admitted (P : Primitives) (g : MerkleNode Genesis) : List LogEntry → Board → Prop :=
  Steps.Trace (fun b => b = Board.new P g) (Board.Admits P)

theorem Board.apply_cases (b : Board) (x : LogEntry) :
    (b.Admits P x (b.apply P x.node x.signer).1 ∧ ∀ calls, b.admittedOf P (x :: calls) =
      x :: (b.apply P x.node x.signer).1.admittedOf P calls) ∨
    ((b.apply P x.node x.signer).1 = b ∧ ∀ calls, b.admittedOf P (x :: calls) =
      b.admittedOf P calls) := by
  cases hv : (admitEvent P b x.node x.signer).recorded with
  | some conflict =>
    have hadm := admitEvent_recorded.mp hv
    have happ : b.apply P x.node x.signer =
        (b.record (x.id P) x.event x.signer conflict, admitEvent P b x.node x.signer) := by
      rw [Board.apply, hv]
      rfl
    left
    refine ⟨⟨conflict, hadm, by rw [happ]⟩, fun calls => ?_⟩
    simp only [admittedOf, happ, hv]
  | none =>
    have happ : b.apply P x.node x.signer = (b, admitEvent P b x.node x.signer) := by
      rw [Board.apply, hv]
    right
    refine ⟨by rw [happ], fun calls => ?_⟩
    simp only [admittedOf, happ, hv]

theorem Board.applyAll_cons (b : Board) (x : LogEntry) (calls : List LogEntry) :
    b.applyAll P (x :: calls) = (b.apply P x.node x.signer).1.applyAll P calls := rfl

theorem Board.admittedOf_append {xs ys : List LogEntry} :
    ∀ {b : Board}, b.admittedOf P (xs ++ ys) =
      b.admittedOf P xs ++ (b.applyAll P xs).admittedOf P ys := by
  induction xs with
  | nil =>
    intro b
    rfl
  | cons x xs ih =>
    intro b
    rw [List.cons_append, Board.applyAll_cons]
    rcases b.apply_cases x with ⟨-, h⟩ | ⟨hb, h⟩
    · rw [h, h, ih, List.cons_append]
    · rw [h, h, ih, hb]

theorem Admitted.applyAll {calls : List LogEntry} :
    ∀ {log : List LogEntry} {b : Board}, Admitted P g log b →
      Admitted P g (log ++ b.admittedOf P calls) (b.applyAll P calls) := by
  induction calls with
  | nil =>
    intro log b h
    rw [Board.admittedOf, List.append_nil]
    exact h
  | cons x calls ih =>
    intro log b h
    rw [Board.applyAll_cons]
    rcases b.apply_cases x with ⟨hx, hlog⟩ | ⟨hb, hlog⟩
    · rw [hlog, ← List.singleton_append, ← List.append_assoc]
      exact ih (.snoc h hx)
    · rw [hlog, hb]
      exact ih h

/-- The board after a sequence of calls from genesis. -/
def Board.reached (P : Primitives) (g : MerkleNode Genesis) (calls : List LogEntry) : Board :=
  (Board.new P g).applyAll P calls

/-- The entries a sequence of calls from genesis admits, in order. -/
def admitted (P : Primitives) (g : MerkleNode Genesis) (calls : List LogEntry) : List LogEntry :=
  (Board.new P g).admittedOf P calls

/-- **Every sequence of calls from genesis**: its board admitted the entries
the calls took in. -/
theorem Board.reached_admitted (P : Primitives) (g : MerkleNode Genesis)
    (calls : List LogEntry) : Admitted P g (admitted P g calls) (Board.reached P g calls) :=
  Admitted.applyAll (.nil rfl)

theorem admitted_append (calls more : List LogEntry) :
    admitted P g (calls ++ more) =
      admitted P g calls ++ (Board.reached P g calls).admittedOf P more :=
  Board.admittedOf_append

theorem Board.foldFrom_ok {log : List LogEntry} :
    ∀ {b b' : Board} {position : ℕ}, b.foldFrom P position log = .ok b' →
      b' = b.applyAll P log := by
  induction log with
  | nil =>
    intro b b' position h
    cases h
    rfl
  | cons x log ih =>
    intro b b' position h
    rw [foldFrom] at h
    split at h
    · cases h
    · rename_i next verdict _ happ
      rw [applyAll_cons, happ]
      exact ih h

theorem Board.fold_ok {log : List LogEntry} {b : Board} (h : Board.fold P g log = .ok b) :
    b = Board.reached P g log := foldFrom_ok h

theorem Board.fold_admitted {log : List LogEntry} {b : Board} (h : Board.fold P g log = .ok b) :
    Admitted P g (admitted P g log) b := by
  rw [fold_ok h]
  exact reached_admitted P g log

/-! ### References -/

/-- What the references of an event that is not the server's bookkeeping come
to, with the event it acts on. -/
inductive Cites (b : Board) (ev : Event) : Option ContentId → Prop where
  | nothing (optional : ∀ s ∈ refSpec ev.kind, s.2.2 = false)
      (only : ∀ role : String, ev.refs[role]? = none) : Cites b ev none
  | roster (kind : ev.kind = .roster) (current : ev.refs["replaces"]? = some b.rosterId)
      (only : ∀ role cid, ev.refs[role]? = some cid → role = "replaces") : Cites b ev none
  | event {spec : String × List Kind × Bool} {cid : ContentId} {e : Entry}
      (notRoster : ev.kind ≠ .roster) (spec_eq : refSpec ev.kind = [spec])
      (cited : ev.refs[spec.1]? = some cid)
      (only : ∀ role cid', ev.refs[role]? = some cid' → role = spec.1)
      (known : b.get cid = some e) (allowed : e.event.kind ∈ spec.2.1)
      (lane : checkLane ev.body e.event.body = .ok ()) : Cites b ev (some cid)

theorem refSpec_cases (k : Kind) : refSpec k = [] ∨ ∃ s, refSpec k = [s] := by
  cases k <;> simp [refSpec]

theorem checkRefs_roles {b : Board} {ev : Event} {target : Option ContentId}
    (hs : isServerKind ev.kind = false) (h : checkRefs b ev = .ok target) :
    (∀ role cid, ev.refs[role]? = some cid → ∃ s ∈ refSpec ev.kind, s.1 = role) ∧
      (refSpec ev.kind).foldlM (checkRef b ev) none = .ok target := by
  rw [checkRefs, hs] at h
  simp only [Bool.false_eq_true, if_false] at h
  split at h
  · cases h
  · rename_i hnone
    refine ⟨?_, h⟩
    intro role cid hcid
    have hmem : role ∈ ev.refs.keys := by
      rw [ExtTreeMap.mem_keys, ExtTreeMap.mem_iff_isSome_getElem?, hcid]
      rfl
    have hany : ((refSpec ev.kind).any fun s => s.1 == role) = true := by
      simpa only [Bool.not_eq_true', Bool.not_eq_false] using
        List.find?_eq_none.mp hnone role hmem
    obtain ⟨s, hs, heq⟩ := List.any_eq_true.mp hany
    exact ⟨s, hs, beq_iff_eq.mp heq⟩

theorem checkRefs_cites {b : Board} {ev : Event} {target : Option ContentId}
    (hs : isServerKind ev.kind = false) (h : checkRefs b ev = .ok target) :
    Cites b ev target := by
  obtain ⟨hroles, hfold⟩ := checkRefs_roles hs h
  rcases refSpec_cases ev.kind with hspec | ⟨s, hspec⟩
  · -- a kind without references
    rw [hspec] at hroles hfold
    cases hfold
    refine .nothing (by simp [hspec]) fun role => ?_
    by_contra hne
    obtain ⟨cid, hcid⟩ := Option.ne_none_iff_exists'.mp hne
    obtain ⟨s, hmem, -⟩ := hroles role cid hcid
    simp at hmem
  · have honly : ∀ role cid, ev.refs[role]? = some cid → role = s.1 := by
      intro role cid hcid
      obtain ⟨s', hmem, rfl⟩ := hroles role cid hcid
      rw [hspec, List.mem_singleton] at hmem
      rw [hmem]
    rw [hspec, List.foldlM_cons] at hfold
    obtain ⟨acts, hfold, hend⟩ := bind_ok.mp hfold
    cases hend
    rw [checkRef] at hfold
    split at hfold
    · rename_i hnone
      split at hfold
      · cases hfold
      · rename_i hopt
        cases hfold
        refine .nothing (by simpa [hspec] using hopt) fun role => ?_
        by_contra hne
        obtain ⟨cid, hcid⟩ := Option.ne_none_iff_exists'.mp hne
        rw [honly role cid hcid, hnone] at hcid
        cases hcid
    · rename_i cid hcid
      split at hfold
      · rename_i hk
        have hs1 : s = ("replaces", [Kind.roster], true) := by
          rw [hk, refSpec] at hspec
          simpa using hspec.symm
        simp only [bind_ok, ensure_ok, pure, Except.pure, Except.ok.injEq] at hfold
        obtain ⟨_, hcur, rfl⟩ := hfold
        rw [hs1] at honly hcid
        exact .roster hk (hcur ▸ hcid) honly
      · rename_i hk
        simp only [bind_ok, ensure_ok, okOr_ok, pure, Except.pure, Except.ok.injEq] at hfold
        obtain ⟨e, hget, _, hkind, _, hlane, rfl⟩ := hfold
        exact .event hk hspec hcid honly hget hkind hlane

theorem Cites.target_eq {b : Board} {ev : Event} {target : Option ContentId}
    (h : Cites b ev target) {spec : String × List Kind × Bool} (hspec : refSpec ev.kind = [spec])
    (hk : ev.kind ≠ .roster) : target = ev.refs[spec.1]? := by
  cases h with
  | nothing _ only => rw [only]
  | roster kind => exact absurd kind hk
  | event _ spec_eq cited =>
    rw [hspec, List.singleton_inj] at spec_eq
    rw [spec_eq, cited]

/-- What a named reference is: a known event of an allowed kind, in the lane. -/
theorem Cites.known {b : Board} {ev : Event} {target : Option ContentId}
    (h : Cites b ev target) (hk : ev.kind ≠ .roster) {role : String} {cid : ContentId}
    (hcid : ev.refs[role]? = some cid) :
    ∃ spec e, refSpec ev.kind = [spec] ∧ role = spec.1 ∧ target = some cid ∧
      b.get cid = some e ∧ e.event.kind ∈ spec.2.1 ∧
      checkLane ev.body e.event.body = .ok () := by
  cases h with
  | nothing _ only =>
    rw [only] at hcid
    cases hcid
  | roster kind => exact absurd kind hk
  | @event spec cid' e _ spec_eq cited only known allowed lane =>
    obtain rfl := only role cid hcid
    rw [cited] at hcid
    cases hcid
    exact ⟨spec, e, spec_eq, rfl, rfl, known, allowed, lane⟩

/-! ### What an event closes -/

theorem Admissible.notServerKind {b : Board} {x : LogEntry} {conflict : Option ConflictKind}
    (h : Admissible P b x.node x.signer conflict) (hc : x.signer.class_ ≠ .server) :
    isServerKind x.event.kind = false := by
  obtain ⟨member, target, closes, hm, -, -, -⟩ := h.table
  cases hk : isServerKind x.event.kind with
  | false => rfl
  | true => exact absurd (signerMember_serverKind hk hm) hc

theorem signerMember_operator {b : Board} {kind : Kind} {signer : Signer}
    {m : Option (String × Role)} (hc : signer.class_ = .operator)
    (h : signerMember b kind signer = .ok m) : kind = .answer := by
  rw [signerMember, hc] at h
  simp only [bind_ok, ensure_ok] at h
  obtain ⟨_, hkind, -⟩ := h
  exact hkind

theorem signerMember_answer {b : Board} {signer : Signer} {m : Option (String × Role)}
    (h : signerMember b .answer signer = .ok m) :
    signer.class_ = .operator ∧ listedDevice b signer.fingerprint = true := by
  cases hc : signer.class_ with
  | server =>
    rw [signerMember, hc] at h
    obtain ⟨_, hsigns, -⟩ := bind_ok.mp h
    exact absurd (ensure_ok.mp hsigns) (by simp [serverSigns])
  | operator =>
    rw [signerMember, hc] at h
    simp only [bind_ok, ensure_ok] at h
    obtain ⟨_, -, _, hl, -⟩ := h
    exact ⟨rfl, hl⟩
  | session member pending =>
    obtain ⟨-, r, -, hs⟩ := signerMember_session hc h
    simp [sessionSigns] at hs

theorem Body.verdict_of_kind {body : Body} (h : body.kind = .verdict) :
    ∃ head approved, body = .verdict head approved := by
  cases body <;> first | exact ⟨_, _, rfl⟩ | cases h

theorem Body.nudged_of_kind {body : Body} (h : body.kind = .nudged) :
    ∃ to_, body = .nudged to_ := by
  cases body <;> first | exact ⟨_, rfl⟩ | cases h

theorem Body.nudgeMisfire_of_kind {body : Body} (h : body.kind = .nudgeMisfire) :
    ∃ to_ e f, body = .nudgeMisfire to_ e f := by
  cases body <;> first | exact ⟨_, _, _, rfl⟩ | cases h

/-- What the table asked of an event, with the target it closes. -/
inductive Tabled (b : Board) (ev : Event) (member : Option (String × Role))
    (target : Option ContentId) : Option ContentId → Prop where
  | ack {e : Entry} (kind : ev.kind = .ack) (signed : addressed b member target "of" = .ok e) :
      Tabled b ev member target none
  | result {e : Entry} (kind : ev.kind = .result)
      (signed : addressed b member target "brief" = .ok e) : Tabled b ev member target target
  | verdict {e : Entry} {head : String} {approved : Bool} (kind : ev.kind = .verdict)
      (body : ev.body = .verdict head approved)
      (signed : addressed b member target "review" = .ok e)
      (head_eq : checkHead e.event.body head = .ok ()) : Tabled b ev member target target
  | jobEnd {m : String × Role} {e : Entry} (kind : ev.kind = .jobEnd)
      (exit : checkExit ev.body = .ok ()) (signer : member = some m)
      (known : target.bind b.get = some e) (job : e.member = some m.1) :
      Tabled b ev member target target
  | answer (kind : ev.kind = .answer) : Tabled b ev member target target
  | nudge {to_ : String} {texts : List String} (kind : ev.kind = .nudged ∨ ev.kind = .nudgeMisfire)
      (body : ev.body = .nudged to_ ∨ ∃ e f, ev.body = .nudgeMisfire to_ e f)
      (about : nudgeOk b to_ (target.bind b.get) texts = .ok none) : Tabled b ev member target none
  | other (kind : ev.kind ∉ [.ack, .result, .verdict, .jobEnd, .answer, .nudged, .nudgeMisfire]) :
      Tabled b ev member target none

theorem nudgeOk_none {b : Board} {to_ : String} {about : Option Entry} {texts : List String}
    {closes : Option ContentId} (h : nudgeOk b to_ about texts = .ok closes) : closes = none := by
  simp only [nudgeOk, bind_ok, pure, Except.pure, Except.ok.injEq] at h
  obtain ⟨_, -, _, -, _, -, rfl⟩ := h
  rfl

theorem applyTable_tabled {b : Board} {ev : Event} {member : Option (String × Role)}
    {target closes : Option ContentId} (hfits : ev.body.kind = ev.kind)
    (h : applyTable b ev member target = .ok closes) : Tabled b ev member target closes := by
  unfold applyTable at h
  split at h
  · rename_i hk
    obtain ⟨e, hsigned, hend⟩ := bind_ok.mp h
    cases hend
    exact .ack hk hsigned
  · rename_i hk
    obtain ⟨e, hsigned, hend⟩ := bind_ok.mp h
    cases hend
    exact .result hk hsigned
  · rename_i head approved hk hb
    obtain ⟨e, hsigned, h⟩ := bind_ok.mp h
    obtain ⟨_, hhead, hend⟩ := bind_ok.mp h
    cases hend
    exact .verdict hk hb hsigned hhead
  · rename_i hk
    simp only [bind_ok, ensure_ok, okOr_ok, pure, Except.pure, Except.ok.injEq] at h
    obtain ⟨_, hexit, m, hm, e, he, _, hjob, rfl⟩ := h
    exact .jobEnd hk hexit hm he hjob
  · rename_i hk _
    obtain ⟨_, -, hend⟩ := bind_ok.mp h
    cases hend
    exact .other (by simp [hk])
  · rename_i hk
    cases h
    exact .answer hk
  · rename_i to_ hk hb
    obtain rfl := nudgeOk_none h
    exact .nudge (.inl hk) (.inl hb) h
  · rename_i to_ e f hk hb
    obtain rfl := nudgeOk_none h
    exact .nudge (.inr hk) (.inr ⟨e, f, hb⟩) h
  · rename_i hack hresult hjob hanswer hverdict _ hnudged hmisfire
    cases h
    refine .other fun hk => ?_
    -- a body that fits its kind would have taken the kind's own branch
    simp only [List.mem_cons, List.not_mem_nil, or_false] at hk
    rcases hk with hk | hk | hk | hk | hk | hk | hk
    · exact hack hk
    · exact hresult hk
    · obtain ⟨head, approved, hb⟩ := Body.verdict_of_kind (hfits.trans hk)
      exact hverdict head approved hk hb
    · exact hjob hk
    · exact hanswer hk
    · obtain ⟨to_, hb⟩ := Body.nudged_of_kind (hfits.trans hk)
      exact hnudged to_ hk hb
    · obtain ⟨to_, e, f, hb⟩ := Body.nudgeMisfire_of_kind (hfits.trans hk)
      exact hmisfire to_ e f hk hb

theorem applyTable_closes {b : Board} {ev : Event} {member : Option (String × Role)}
    {target closes : Option ContentId} (hfits : ev.body.kind = ev.kind)
    (hrefs : checkRefs b ev = .ok target) (h : applyTable b ev member target = .ok closes) :
    closes = closedBy ev := by
  have htarget : ∀ {spec}, isServerKind ev.kind = false → refSpec ev.kind = [spec] →
      ev.kind ≠ .roster → target = ev.refs[spec.1]? :=
    fun hs hspec hk => (checkRefs_cites hs hrefs).target_eq hspec hk
  rw [closedBy]
  cases applyTable_tabled hfits h with
  | ack kind => rw [kind]
  | result kind =>
    rw [kind] at htarget ⊢
    exact htarget rfl rfl (by decide)
  | verdict kind =>
    rw [kind] at htarget ⊢
    exact htarget rfl rfl (by decide)
  | jobEnd kind =>
    rw [kind] at htarget ⊢
    exact htarget rfl rfl (by decide)
  | answer kind =>
    rw [kind] at htarget ⊢
    exact htarget rfl rfl (by decide)
  | nudge kind => rcases kind with kind | kind <;> rw [kind]
  | other kind =>
    cases hk : ev.kind with
    | result | verdict | jobEnd | answer => simp [hk] at kind
    | _ => rfl

section Recording

variable {b : Board} {x : LogEntry} {conflict : Option ConflictKind}

theorem Admissible.conflict_closed (h : Admissible P b x.node x.signer conflict) :
    conflict = ((closedBy x.event).bind b.closerOf).map .secondCloser := by
  obtain ⟨member, target, closes, -, hrefs, htable, rfl⟩ := h.table
  rw [applyTable_closes h.fits hrefs htable]
  rfl

/-- What an admitted entry closes, said by its kind, references and signer. -/
theorem Admissible.closedBy_iff (h : Admissible P b x.node x.signer conflict) (t : ContentId) :
    closedBy x.event = some t ↔ x.Closes t := by
  obtain ⟨member, -, -, hm, -, -, -⟩ := h.table
  have hm : signerMember b x.event.kind x.signer = .ok member := hm
  rw [closedBy, LogEntry.Closes]
  cases hk : x.event.kind with
  | answer =>
    rw [hk] at hm
    simp [(signerMember_answer hm).1]
  | _ => simp

end Recording

/-! ### The board as a function of the admitted entries -/

theorem Board.closerOf_record {b : Board} {id : ContentId} {ev : Event} {signer : Signer}
    {conflict : Option ConflictKind} {t : ContentId} :
    (b.record id ev signer conflict).closerOf t =
      if conflict = none ∧ closedBy ev = some t then some id else b.closerOf t := by
  cases conflict with
  | some kind => simp [Board.closerOf, Board.record]
  | none =>
    cases hclosed : closedBy ev with
    | none => simp [Board.closerOf, Board.record, hclosed]
    | some target => simp [BTreeMap.get_insert, Board.closerOf, Board.record, hclosed]

def firstCloser (P : Primitives) (log : List LogEntry) (t : ContentId) : Option ContentId :=
  (log.find? fun x => decide (x.Closes t)).map (·.id P)

/-- The last entry of an author, in whatever class. -/
def lastOf (P : Primitives) (log : List LogEntry) (author : String) : Option ContentId :=
  (log.filter fun x => decide (x.event.author = author)).getLast?.map (·.id P)

/-- What the board keeps of `x`, taken in after `log`. -/
def LogEntry.entry (P : Primitives) (log : List LogEntry) (x : LogEntry) : Entry where
  id := x.id P
  index := log.length + 1
  event := x.event
  member := x.signer.class_.member
  conflict := ((closedBy x.event).bind (firstCloser P log)).map .secondCloser

theorem firstCloser_snoc (log : List LogEntry) (x : LogEntry) (t : ContentId) :
    firstCloser P (log ++ [x]) t =
      (firstCloser P log t).or (if x.Closes t then some (x.id P) else none) := by
  rw [firstCloser, firstCloser, List.find?_append, Option.map_or]
  by_cases hx : x.Closes t
  · simp [hx]
  · simp [hx]

theorem lastOf_snoc (log : List LogEntry) (x : LogEntry) (author : String) :
    lastOf P (log ++ [x]) author =
      if x.event.author = author then some (x.id P) else lastOf P log author := by
  rw [lastOf, lastOf, List.filter_append]
  by_cases hx : x.event.author = author
  · simp [hx]
  · simp [hx]

/-- What the board keeps of entries taken in one after another, after `pre`. -/
def entriesFrom (P : Primitives) (pre : List LogEntry) : List LogEntry → List Entry
  | [] => []
  | x :: log => x.entry P pre :: entriesFrom P (pre ++ [x]) log

theorem mem_entriesFrom {e : Entry} {log : List LogEntry} :
    ∀ {start : List LogEntry}, e ∈ entriesFrom P start log ↔
      ∃ pre x post, log = pre ++ x :: post ∧ e = x.entry P (start ++ pre) := by
  induction log with
  | nil =>
    intro start
    simp [entriesFrom]
  | cons y log ih =>
    intro start
    rw [entriesFrom, List.mem_cons, ih]
    constructor
    · rintro (rfl | ⟨pre, x, post, rfl, rfl⟩)
      · exact ⟨[], y, log, rfl, by simp⟩
      · exact ⟨y :: pre, x, post, rfl, by simp⟩
    · rintro ⟨pre, x, post, hsplit, rfl⟩
      cases pre with
      | nil =>
        cases hsplit
        left
        simp
      | cons z pre =>
        cases hsplit
        right
        exact ⟨pre, x, post, rfl, by simp⟩

theorem entriesFrom_index {log : List LogEntry} :
    ∀ {pre : List LogEntry}, (entriesFrom P pre log).map (·.index) =
      List.range' (pre.length + 1) log.length := by
  induction log with
  | nil =>
    intro pre
    rfl
  | cons x log ih =>
    intro pre
    rw [entriesFrom, List.map_cons, ih, List.length_cons, List.range'_succ, List.length_append]
    rfl

theorem entriesFrom_id {log : List LogEntry} :
    ∀ {pre : List LogEntry}, (entriesFrom P pre log).map (·.id) = log.map (·.id P) := by
  induction log with
  | nil =>
    intro pre
    rfl
  | cons x log ih =>
    intro pre
    rw [entriesFrom, List.map_cons, ih, List.map_cons]
    rfl

/-- Entries picked out by their events come in the order of the log. -/
theorem entriesFrom_filter (p : Event → Bool) {log : List LogEntry} :
    ∀ {pre : List LogEntry}, ((entriesFrom P pre log).filter fun e => p e.event).map (·.id) =
      (log.filter fun x => p x.event).map (·.id P) := by
  induction log with
  | nil =>
    intro pre
    rfl
  | cons x log ih =>
    intro pre
    have hevent : (x.entry P pre).event = x.event := rfl
    rw [entriesFrom, List.filter_cons, List.filter_cons, hevent]
    by_cases hx : p x.event = true
    · rw [if_pos hx, if_pos hx, List.map_cons, List.map_cons, ih]
      rfl
    · rw [if_neg hx, if_neg hx, ih]

namespace Admitted

variable {log : List LogEntry} {b : Board}

theorem order (h : Admitted P g log b) : b.order = log.map (·.id P) := by
  induction h with
  | nil hb => rw [hb]; rfl
  | snoc _ hx ih =>
    obtain ⟨conflict, -, rfl⟩ := hx
    simp [Board.record, ih]

theorem headOf (h : Admitted P g log b) (author : String) :
    b.headOf author = lastOf P log author := by
  induction h with
  | nil hb =>
    rw [hb]
    simp [Board.new, Board.headOf, lastOf]
  | snoc _ hx ih =>
    obtain ⟨conflict, -, rfl⟩ := hx
    rw [Board.headOf_record, lastOf_snoc, ih]

theorem closerOf (h : Admitted P g log b) (t : ContentId) :
    b.closerOf t = firstCloser P log t := by
  induction h with
  | nil hb =>
    rw [hb]
    simp [Board.new, Board.closerOf, firstCloser]
  | @snoc log b b' x _ hx ih =>
    obtain ⟨conflict, hadm, rfl⟩ := hx
    rw [firstCloser_snoc, ← ih, Board.closerOf_record, hadm.conflict_closed]
    simp only [← hadm.closedBy_iff t]
    by_cases hc : closedBy x.event = some t
    · -- a second closer is flagged, and the first one stays
      cases hfirst : b.closerOf t <;> simp [hc, hfirst]
    · simp [hc]

/-- What the board holds: the admitted entries, each as it was taken in. -/
theorem get_iff (h : Admitted P g log b) {i : ContentId} {e : Entry} :
    b.get i = some e ↔ ∃ pre x post, log = pre ++ x :: post ∧ x.id P = i ∧
      e = x.entry P pre := by
  induction h generalizing i e with
  | nil hb =>
    rw [hb]
    simp [Board.new, Board.get]
  | @snoc log b b' x hlog hx ih =>
    obtain ⟨conflict, hadm, rfl⟩ := hx
    have hentry : (⟨x.id P, b.order.length + 1, x.event, x.signer.class_.member, conflict⟩ :
        Entry) = x.entry P log := by
      rw [LogEntry.entry, hadm.conflict_closed, order hlog, List.length_map]
      congr
      funext t
      exact closerOf hlog t
    have hfresh : ∀ pre y post, log = pre ++ y :: post → y.id P ≠ x.id P := by
      intro pre y post hsplit hid
      have hget := ih.mpr ⟨pre, y, post, hsplit, hid, rfl⟩
      have hnone : b.get (x.id P) = none := hadm.fresh
      rw [hnone] at hget
      cases hget
    rw [Board.get_record, hentry]
    simp only [Steps.snoc_split]
    by_cases hid : x.id P = i
    · rw [if_pos hid]
      constructor
      · intro he
        cases he
        exact ⟨log, x, [], .inl ⟨rfl, rfl, rfl⟩, hid, rfl⟩
      · rintro ⟨pre, y, post, ⟨-, rfl, rfl⟩ | ⟨post', -, hsplit⟩, hy, rfl⟩
        · rfl
        · exact absurd (hy.trans hid.symm) (hfresh pre y post' hsplit)
    · rw [if_neg hid, ih]
      constructor
      · rintro ⟨pre, y, post, rfl, hy, rfl⟩
        exact ⟨pre, y, post ++ [x], .inr ⟨post, rfl, rfl⟩, hy, rfl⟩
      · rintro ⟨pre, y, post, ⟨-, rfl, rfl⟩ | ⟨post', -, hsplit⟩, hy, rfl⟩
        · exact absurd hy hid
        · exact ⟨pre, y, post', hsplit, hy, rfl⟩

theorem get_of_split {pre post : List LogEntry} {x : LogEntry}
    (h : Admitted P g (pre ++ x :: post) b) : b.get (x.id P) = some (x.entry P pre) :=
  h.get_iff.mpr ⟨pre, x, post, rfl, rfl, rfl⟩

theorem entriesInOrder (h : Admitted P g log b) : b.entriesInOrder = entriesFrom P [] log := by
  suffices hsub : ∀ pre post, log = pre ++ post →
      (post.map (·.id P)).filterMap b.get = entriesFrom P pre post by
    rw [Board.entriesInOrder, h.order]
    exact hsub [] log rfl
  intro pre post
  induction post generalizing pre with
  | nil =>
    intro _
    rfl
  | cons x post ih =>
    rintro rfl
    rw [List.map_cons, List.filterMap_cons_some h.get_of_split, entriesFrom]
    congr 1
    exact ih (pre ++ [x]) (by simp)

theorem nodup (h : Admitted P g log b) : (log.map (·.id P)).Nodup := by
  have hkeep : ∀ {b b' : Board} {x : LogEntry} {k : ContentId}, b.Admits P x b' →
      b.get k ≠ none → b'.get k ≠ none := by
    rintro b _ x k ⟨conflict, -, rfl⟩ hk
    rw [Board.get_record]
    split
    · simp
    · exact hk
  have hnodup := Steps.Trace.nodup (fun x : LogEntry => some (x.id P))
    (fun b k => b.get k ≠ none) (fun _ hx hk => hkeep hx hk) ?_ h
  · simpa using hnodup.1
  · rintro _ b x _ k - ⟨conflict, hadm, rfl⟩ ⟨⟩
    exact ⟨fun hne => hne hadm.fresh, by simp [Board.get_record]⟩

theorem id_ne {pre post : List LogEntry} (h : Admitted P g (pre ++ post) b) {x y : LogEntry}
    (hx : x ∈ pre) (hy : y ∈ post) : x.id P ≠ y.id P := by
  have hnodup := h.nodup
  rw [List.map_append, List.nodup_append] at hnodup
  exact hnodup.2.2 _ (List.mem_map_of_mem hx) _ (List.mem_map_of_mem hy)

theorem split {pre post : List LogEntry} {x : LogEntry}
    (h : Admitted P g (pre ++ x :: post) b) :
    ∃ u conflict, Admitted P g pre u ∧ Admissible P u x.node x.signer conflict := by
  obtain ⟨u, v, hu, conflict, hadm, -⟩ := Steps.Trace.split h
  exact ⟨u, conflict, hu, hadm⟩

end Admitted

end Flock
