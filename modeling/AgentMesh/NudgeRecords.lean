/-
What a nudge found is recorded.

The adapter looks for briefs and reviews whose addressee has done nothing about
them, nudges the addressee and writes down what came of it.  The texts in that
record come from another program and may be anything; they are spelled out and
cut before they are recorded, so that the board's own rules for them hold.

* `describe_ok` — a description passes the board's rule for claims;
* `mem_pending` — what is pending is an admitted brief or review to a member;
* `nudge_outcome` — what a nudge can come to;
* `nudge_recorded` — the board admits the record of any nudge.
-/
import AgentMesh.NudgeRuns
import AgentMesh.ChainHeads

open Std Flock Dialogue

namespace Herdr

/-! ### What is pending, and its record -/

/-- Something shows that the brief or review was handled. -/
def handled (b : Board) (id : ContentId) : Bool :=
  (b.closerOf id).isSome || b.entriesInOrder.any fun e =>
    decide (e.event.kind = .ack ∨ e.event.kind = .nudged ∨ e.event.kind = .nudgeMisfire) &&
      decide (e.event.refs["of"]? = some id)

/-- Briefs and reviews that need a nudge, in admission order, with whom they
are addressed to. -/
def pending (b : Board) : List (ContentId × String) :=
  (((b.entriesInOrder.filter fun e => decide (e.conflict = none)).filterMap fun e =>
      (addressee e).map fun to_ => (e.id, to_)).filter fun p =>
    b.members.any fun m => decide (m.name = p.2) && !reserved m.role).filter fun p =>
      !handled b p.1

/-- What to record for `outcome`: the kind, the references and the body. -/
def record (display : ContentId → String) (of_ : ContentId) :
    Outcome → Kind × BTreeMap String ContentId × Body
  | .nudged target =>
    (.nudged, (∅ : BTreeMap String ContentId).insert "of" of_, .nudged target)
  | .misfire target expected found =>
    (.nudgeMisfire, (∅ : BTreeMap String ContentId).insert "of" of_,
      .nudgeMisfire target expected found)
  | .status text => (.status, ∅, .status (text ++ " (of " ++ display of_ ++ ")"))

/-! ### Descriptions -/

theorem floorBoundary_le (cs : List Char) (n : ℕ) : floorBoundary cs n ≤ n := by
  induction n with
  | zero => exact le_rfl
  | succ n ih =>
    rw [floorBoundary]
    split
    · exact le_rfl
    · omega

theorem takeBytes_subset {cs : List Char} : ∀ {n : ℕ}, takeBytes cs n ⊆ cs := by
  induction cs with
  | nil => exact fun {n} => List.Subset.refl []
  | cons c cs ih =>
    intro n
    rw [takeBytes]
    split
    · exact List.cons_subset_cons c ih
    · exact List.nil_subset _

theorem utf8ByteSize_takeBytes {cs : List Char} :
    ∀ {n : ℕ}, (String.ofList (takeBytes cs n)).utf8ByteSize ≤ n := by
  induction cs with
  | nil => exact fun {n} => Nat.zero_le n
  | cons c cs ih =>
    intro n
    rw [takeBytes]
    split
    · have hrest := @ih (n - c.utf8Size)
      rw [String.ofList_cons, String.utf8ByteSize_append, String.utf8ByteSize_singleton]
      omega
    · exact Nat.zero_le n

theorem inert_plain {text : String} {c : Char} (h : c ∈ (inert text).toList) :
    isControl c = false :=
  (of_stands (inert_stands h)).2.1

theorem claimOk_of {v : String} (hne : v ≠ "") (hsize : v.utf8ByteSize ≤ 128)
    (hplain : ∀ c ∈ v.toList, isControl c = false) : claimOk v = true := by
  have hnone : (v.toList.any fun c => decide (c.toNat < 32) ||
      decide (127 ≤ c.toNat ∧ c.toNat < 160)) = false := by
    rw [List.any_eq_false]
    intro c hc
    have hc' := hplain c hc
    rw [isControl] at hc'
    rw [hc']
    exact Bool.false_ne_true
  rw [claimOk, hnone, decide_eq_true hne, decide_eq_true hsize]
  rfl

/-- **A description passes the board's rule for claims**, whatever the text. -/
theorem describe_ok (text : String) : claimOk (describe text) = true := by
  unfold describe
  split
  · decide
  · rename_i hne
    split
    · rename_i hsize
      exact claimOk_of hne hsize fun c => inert_plain
    · -- cut: three bytes are left for the ellipsis, which is no control character
      refine claimOk_of ?_ ?_ ?_
      · intro hnil
        have hlast := congrArg String.toList hnil
        rw [String.toList_append] at hlast
        exact List.cons_ne_nil _ _ (List.append_eq_nil_iff.mp hlast).2
      · have hcut := floorBoundary_le (inert text).toList (description - '…'.utf8Size)
        have hkept := @utf8ByteSize_takeBytes (inert text).toList
          (floorBoundary (inert text).toList (description - '…'.utf8Size))
        have hmark : "…".utf8ByteSize = 3 := by decide
        have hroom : description - '…'.utf8Size = 125 := by decide
        rw [String.utf8ByteSize_append, hmark]
        omega
      · intro c hc
        rw [String.toList_append, String.toList_ofList] at hc
        rcases List.mem_append.mp hc with hc | hc
        · exact inert_plain (takeBytes_subset hc)
        · have hmark : c = '…' := by simpa using hc
          rw [hmark]
          decide

/-! ### Outcomes -/

section Recording

variable {P : Primitives} {g : MerkleNode Genesis} {b : Board}

/-- **What a nudge can come to**: its target is the member it was for, and the
descriptions are of texts. -/
theorem nudge_outcome {F : Formats} {job : Job} {s : List Exchange} {o : Outcome}
    (h : Goes F job s o) :
    o = .nudged job.target.member ∨
      (∃ expected found, o = .misfire job.target.member (describe expected) (describe found)) ∨
      ∃ text, o = .status text := by
  cases h with
  | stopped | undelivered => exact .inr (.inr ⟨_, rfl⟩)
  | nudged => exact .inl rfl
  | misfire => exact .inr (.inl ⟨_, _, rfl⟩)

/-- What is pending is an admitted brief or review to a member of the roster. -/
theorem mem_pending {log : List LogEntry} (h : Admitted P g log b) {of_ : ContentId} {to_ : String}
    (hp : (of_, to_) ∈ pending b) :
    ∃ e, b.get of_ = some e ∧ addressee e = some to_ ∧
      (e.event.kind = .brief ∨ e.event.kind = .review) ∧
      (b.members.any fun m => decide (m.name = to_)) = true := by
  rw [pending, List.mem_filter, List.mem_filter] at hp
  obtain ⟨⟨hmem, hmember⟩, -⟩ := hp
  obtain ⟨e, he, hsome⟩ := List.mem_filterMap.mp hmem
  obtain ⟨to', haddr, heq⟩ := Option.map_eq_some_iff.mp hsome
  cases heq
  have hget := h.mem_iff_get.mp (List.mem_filter.mp he).1
  refine ⟨e, hget, haddr, ?_, ?_⟩
  · rw [← (h.get_fits hget).2.1]
    unfold addressee at haddr
    split at haddr
    · rename_i hbody
      rw [hbody]
      exact .inl rfl
    · rename_i hbody
      rw [hbody]
      exact .inr rfl
    · cases haddr
  · obtain ⟨m, hm, hname⟩ := List.any_eq_true.mp hmember
    exact List.any_eq_true.mpr ⟨m, hm, (Bool.and_eq_true _ _ |>.mp hname).1⟩

/-- A nudge at the addressee of what it cites, with texts that may be claimed,
is in order. -/
theorem nudgeOk_of {e : Flock.Entry} {to_ : String} {texts : List String}
    (hmember : (b.members.any fun m => decide (m.name = to_)) = true)
    (haddr : addressee e = some to_) (htexts : texts.all claimOk = true) :
    nudgeOk b to_ (some e) texts = .ok none := by
  simp only [nudgeOk, checkNudged, bind_ok, okOr_ok, ensure_ok, pure, Except.pure]
  exact ⟨(), hmember, (), ⟨to_, haddr, rfl⟩, (), htexts, trivial⟩

theorem checkRefs_nudge {ev : Event} {of_ : ContentId} {e : Flock.Entry}
    (hkind : ev.kind = .nudged ∨ ev.kind = .nudgeMisfire) (hlane : declaredLane ev.body = none)
    (hrefs : ev.refs = (∅ : BTreeMap String ContentId).insert "of" of_)
    (hget : b.get of_ = some e) (hcited : e.event.kind = .brief ∨ e.event.kind = .review) :
    checkRefs b ev = .ok (some of_) := by
  have hallowed : e.event.kind ∈ [Kind.brief, Kind.review] := by
    rcases hcited with hcited | hcited <;> simp [hcited]
  rcases hkind with hkind | hkind
  · exact checkRefs_single (by rw [hkind]; rfl) (by simp [hkind]) (by rw [hkind]; rfl) hrefs hget
      hallowed hlane
  · exact checkRefs_single (by rw [hkind]; rfl) (by simp [hkind]) (by rw [hkind]; rfl) hrefs hget
      hallowed hlane

/-- An event about a nudge, next on the chain of a session of the adapter. -/
theorem nudge_admitted (hinj : Function.Injective P.eventId) {s : Sessions} (h : b.Serves P g s)
    {m : Member} {name : String}
    (hm : (b.members.find? fun m => decide (m.name = name)) = some m) (hrole : m.role = .adapter)
    {ev : Event} {signer : Signer} (hw : s.Writes P b ev signer name) (hfiles : ev.files = [])
    {target : Option ContentId}
    (hkind : ev.kind = .nudged ∨ ev.kind = .nudgeMisfire ∨ ev.kind = .status)
    (hfits : ev.body.kind = ev.kind) (hrefs : checkRefs b ev = .ok target)
    (htable : applyTable b ev (some (name, m.role)) target = .ok none) :
    admitEvent P b ev.node signer = .admitted := by
  refine h.admits hinj hw hm ?_ ?_ ?_ hfits (by simp [hfiles]) hrefs htable rfl
  · rcases hkind with hkind | hkind | hkind <;> rw [hkind] <;> rfl
  · rcases hkind with hkind | hkind | hkind <;> simp [hkind]
  · rcases hkind with hkind | hkind | hkind <;> rw [hkind, hrole] <;> rfl

/-- **Whatever a nudge found can be recorded.**  For anything pending on a
board with an adapter, and whatever herdr answered to the nudge of its
addressee, the event built from the record of the outcome, next on the chain of
an active session of the adapter, is admitted. -/
theorem nudge_recorded (hinj : Function.Injective P.eventId) {s : Sessions} (h : b.Serves P g s)
    {m : Member} {name : String}
    (hm : (b.members.find? fun m => decide (m.name = name)) = some m) (hrole : m.role = .adapter)
    {of_ : ContentId} {to_ : String} (hpending : (of_, to_) ∈ pending b) (F : Formats) (job : Job)
    (hto : job.target.member = to_) (env : List Exchange → List String → Except String String)
    {ev : Event} {signer : Signer} (hw : s.Writes P b ev signer name) (hfiles : ev.files = [])
    (hev : (ev.kind, ev.refs, ev.body) = record F.display of_ ((nudge F job).run env []).2) :
    admitEvent P b ev.node signer = .admitted := by
  obtain ⟨log, hlog⟩ := h.admitted
  obtain ⟨e, hget, haddr, hcited, hmember⟩ := mem_pending hlog hpending
  obtain ⟨said, -, htalk⟩ := talk_run env (nudge F job) []
  rcases nudge_outcome (nudge_goes htalk) with ho | ⟨expected, found, ho⟩ | ⟨text, ho⟩
  · rw [ho, hto] at hev
    obtain ⟨hkind, hrefs, hbody⟩ : ev.kind = .nudged ∧ ev.refs = _ ∧ ev.body = .nudged to_ := by
      simpa [record] using hev
    have hof := checkRefs_nudge (.inl hkind) (by rw [hbody]; rfl) hrefs hget hcited
    refine nudge_admitted hinj h hm hrole hw hfiles (.inl hkind) (by rw [hkind, hbody]; rfl) hof ?_
    simp only [applyTable, hkind, hbody, Option.bind_some, hget]
    exact nudgeOk_of hmember haddr rfl
  · rw [ho, hto] at hev
    obtain ⟨hkind, hrefs, hbody⟩ : ev.kind = .nudgeMisfire ∧ ev.refs = _ ∧
        ev.body = .nudgeMisfire to_ (describe expected) (describe found) := by
      simpa [record] using hev
    have hof := checkRefs_nudge (.inr hkind) (by rw [hbody]; rfl) hrefs hget hcited
    refine nudge_admitted hinj h hm hrole hw hfiles (.inr (.inl hkind)) (by rw [hkind, hbody]; rfl)
      hof ?_
    simp only [applyTable, hkind, hbody, Option.bind_some, hget]
    exact nudgeOk_of hmember haddr (by simp [describe_ok])
  · rw [ho] at hev
    obtain ⟨hkind, hrefs, hbody⟩ : ev.kind = .status ∧ ev.refs = ∅ ∧
        ev.body = .status (text ++ " (of " ++ F.display of_ ++ ")") := by
      simpa [record] using hev
    have hnone : checkRefs b ev = .ok none := by
      have hkeys : (∅ : BTreeMap String ContentId).keys = [] := rfl
      rw [checkRefs, hkind, hrefs, hkeys]
      rfl
    refine nudge_admitted hinj h hm hrole hw hfiles (.inr (.inr hkind)) (by rw [hkind, hbody]; rfl)
      hnone ?_
    simp only [applyTable, hkind, hbody]

end Recording

/-! The shepherd `s` briefs the helper `h1`; the adapter `ad` prompts its pane
and cannot read it any more after that. -/

namespace Small

noncomputable def genesis : MerkleNode Genesis :=
  ⟨∅, ⟨"genesis", "f", Flock.Small.serverCert,
    [⟨"s", .shepherd, [], false⟩, ⟨"ad", .adapter, [], false⟩, ⟨"h1", .helper, [], false⟩], ""⟩⟩

def briefs : MerkleNode Event := Flock.Small.event .brief "kk" none [] 0 (.brief "h1" "l")

def misfired : Event :=
  ⟨Flock.Small.gid, .nudgeMisfire, "kkk", none,
    (∅ : BTreeMap String ContentId).insert "of" (Flock.Small.eid 0), [], 0,
    .nudgeMisfire "h1"
      ("pane w1:p4 tab w1:t2 label Some(\"h1\") agent Some(\"claude\") " ++
        "name None terminal \"term7\"")
      "unreadable: parse `herdr agent get`"⟩

noncomputable def tables : Tables where
  metadata := Flock.Small.metadata
  genesis := genesis
  events := [briefs, misfired.node]
  records := []
  approvals := []
  certs := []
  frames := []

noncomputable def board : Board :=
  Board.reached tables.primitives genesis [⟨briefs, ⟨⟨2⟩, .session "s" false⟩⟩]

/-- The table with the adapter's session. -/
def sessions : Sessions :=
  ⟨∅, ∅, (∅ : BTreeMap String Session).insert "kkk" ⟨"ad", 3, Flock.Small.eid 1, .active, ∅, 0,
    none⟩, {"ad"}, ∅, ∅, ∅⟩

theorem board_serves : board.Serves tables.primitives genesis sessions :=
  .of_first (Board.reached_admitted _ _ _) rfl rfl

/-- herdr, until something has been prompted. -/
def untilPrompted (said : List Exchange) (args : List String) : Except String String :=
  if (said.any fun x => isPrompt x.1) && args.take 2 = ["agent", "get"] then .ok ""
  else herdr said args

end Small

set_option maxRecDepth 100000 in
theorem nudge_recorded_misfired :
    admitEvent Small.tables.primitives Small.board Small.misfired.node
      ⟨⟨3⟩, .session "ad" false⟩ = .admitted := by
  have hpending : (Flock.Small.eid 0, "h1") ∈ pending Small.board := by decide +kernel
  have hm : (Small.board.members.find? fun m => decide (m.name = "ad")) =
      some ⟨"ad", .adapter, [], false⟩ := by decide +kernel
  refine nudge_recorded Small.tables.idsInjective.event Small.board_serves hm rfl hpending
    Small.formats Small.job rfl Small.untilPrompted ?_ rfl (by decide +kernel)
  exact ⟨⟨⟨"ad", 3, Flock.Small.eid 1, .active, ∅, 0, none⟩, by decide +kernel, rfl, rfl⟩, rfl,
    by decide +kernel, by decide +kernel, by decide +kernel⟩

end Herdr
