/-
Rosters: operator devices, the delegate and file roots are the server's alone.

A shepherd's roster may reorder, rename and re-role members, but the checks
compare what it binds with what the board binds now: devices by member name,
the delegate's name and the set of roots.  So along any log these three are
those of the latest roster that the server signed.

* `inForce`, `serverRoster` — the latest roster of a log, and the latest one
  the server signed;
* `Admitted.inForce` — the board's roster is the latest one;
* `bindings_members` — equal bindings keep every member with devices;
* `Locked`, `Admitted.locked` — the invariant and its run lemma;
* `server_owns_devices` — the result, for every log a fold accepts.
-/
import AgentMesh.Admitted
import AgentMesh.Ideal

open Std Mesh

namespace Flock

variable {P : Primitives} {g : MerkleNode Genesis}

/-! ### Rosters of a log -/

/-- A roster: the event that declared it, its members and its file roots. -/
structure Roster where
  id : ContentId
  members : List Member
  roots : List String
  deriving DecidableEq

def Roster.genesis (P : Primitives) (g : MerkleNode Genesis) : Roster :=
  ⟨P.genesisId g, g.payload.roster, []⟩

def LogEntry.roster (P : Primitives) (x : LogEntry) : Option Roster :=
  match x.event.body with
  | .roster members roots => some ⟨x.id P, members, roots⟩
  | _ => none

/-- The latest roster of the entries that satisfy `p`, or else the genesis
roster. -/
def latest (P : Primitives) (g : MerkleNode Genesis) (p : LogEntry → Bool)
    (log : List LogEntry) : Roster :=
  ((log.filter p).filterMap (·.roster P)).getLast?.getD (.genesis P g)

def inForce (P : Primitives) (g : MerkleNode Genesis) (log : List LogEntry) : Roster :=
  latest P g (fun _ => true) log

/-- A roster the server signed. -/
def LogEntry.serverRoster (x : LogEntry) : Bool :=
  decide (x.event.kind = .roster) && decide (x.signer.class_ = .server)

/-- The latest roster of `log` that the server signed. -/
def serverRoster (P : Primitives) (g : MerkleNode Genesis) (log : List LogEntry) : Roster :=
  latest P g LogEntry.serverRoster log

theorem LogEntry.roster_some {x : LogEntry} {r : Roster} :
    x.roster P = some r ↔ r.id = x.id P ∧ x.event.body = .roster r.members r.roots := by
  rw [LogEntry.roster]
  split
  · rename_i members roots hb
    constructor
    · intro h
      cases h
      exact ⟨rfl, hb⟩
    · rintro ⟨hid, hbody⟩
      rw [hb, Body.roster.injEq] at hbody
      obtain ⟨rfl, rfl⟩ := hbody
      rw [← hid]
  · rename_i hne
    constructor
    · intro h
      cases h
    · rintro ⟨-, hbody⟩
      exact absurd hbody (hne _ _)

theorem latest_snoc (p : LogEntry → Bool) (log : List LogEntry) (x : LogEntry) :
    latest P g p (log ++ [x]) =
      if p x = true then (x.roster P).getD (latest P g p log) else latest P g p log := by
  rw [latest, latest, List.filter_append]
  by_cases hx : p x = true
  · cases hr : x.roster P <;> simp [hx, hr]
  · simp [hx]

theorem latest_append {p : LogEntry → Bool} {log more : List LogEntry}
    (h : ∀ x ∈ more, p x = false) : latest P g p (log ++ more) = latest P g p log := by
  have hfilter : more.filter p = [] := by
    rw [List.filter_eq_nil_iff]
    intro x hx
    simp [h x hx]
  rw [latest, latest, List.filter_append, hfilter, List.append_nil]

theorem latest_cases (p : LogEntry → Bool) (log : List LogEntry) :
    latest P g p log = .genesis P g ∨ ∃ x ∈ log, x.roster P = some (latest P g p log) := by
  induction log using List.reverseRecOn with
  | nil =>
    left
    rfl
  | append_singleton log x ih =>
    have hold : latest P g p log = .genesis P g ∨
        ∃ y ∈ log ++ [x], y.roster P = some (latest P g p log) := by
      rcases ih with ih | ⟨y, hy, ih⟩
      · exact .inl ih
      · exact .inr ⟨y, by simp [hy], ih⟩
    rw [latest_snoc]
    by_cases hx : p x = true
    · rw [if_pos hx]
      cases hr : x.roster P with
      | none => exact hold
      | some r => exact .inr ⟨x, by simp, hr⟩
    · rw [if_neg hx]
      exact hold

theorem Body.roster_of_kind {body : Body} (h : body.kind = .roster) :
    ∃ members roots, body = .roster members roots := by
  cases body <;> first | exact ⟨_, _, rfl⟩ | cases h

/-- What recording an admitted roster, or anything else, does to the board's
roster. -/
theorem Admissible.record_roster {b : Board} {x : LogEntry} {conflict : Option ConflictKind}
    (h : Admissible P b x.node x.signer conflict) :
    let b' := b.record (x.id P) x.event x.signer conflict
    (⟨b'.rosterId, b'.members, b'.roots⟩ : Roster) =
      (x.roster P).getD ⟨b.rosterId, b.members, b.roots⟩ := by
  by_cases hk : x.event.kind = .roster
  · obtain ⟨members, roots, hb⟩ := Body.roster_of_kind (h.fits.trans hk)
    have hb : x.event.body = .roster members roots := hb
    obtain rfl := h.roster_conflict hk
    simp only [Board.record, hk, hb, LogEntry.roster, Option.getD_some]
  · have hnone : x.roster P = none := by
      rw [LogEntry.roster]
      split
      · rename_i members roots hb
        exact absurd (h.fits.symm.trans (congrArg Body.kind hb)) hk
      · rfl
    rw [hnone, Option.getD_none]
    unfold Board.record
    dsimp only
    split
    · rename_i hk' _
      exact absurd hk' hk
    · rfl

/-- **The board's roster is the latest one.** -/
theorem Admitted.inForce {log : List LogEntry} {b : Board} (h : Admitted P g log b) :
    (⟨b.rosterId, b.members, b.roots⟩ : Roster) = inForce P g log := by
  induction h with
  | nil hb =>
    rw [hb]
    rfl
  | @snoc log b b' x _ hx ih =>
    obtain ⟨conflict, hadm, rfl⟩ := hx
    rw [Flock.inForce, latest_snoc, if_pos rfl, hadm.record_roster, ih]
    rfl

/-! ### Bindings -/

theorem rosterWellFormed_iff {ms : List Member} :
    rosterWellFormed ms = true ↔ (ms.filter (·.delegate)).length ≤ 1 ∧ (ms.map (·.name)).Nodup ∧
      ∀ m ∈ ms, m.devices ≠ [] → m.role = .operator := by
  simp only [rosterWellFormed, Bool.and_eq_true, decide_eq_true_eq, List.all_eq_true,
    Bool.or_eq_true, List.isEmpty_iff, and_assoc]
  refine and_congr_right fun _ => and_congr_right fun _ => forall₂_congr fun m _ => ?_
  constructor
  · intro h hne
    exact h.resolve_right hne
  · intro h
    by_cases hne : m.devices = []
    · exact .inr hne
    · exact .inl (h hne)

/-- The devices of a member, sorted. -/
def Member.sorted (m : Member) : List (BitVec 256) :=
  (m.devices.map (·.hash)).insertionSort (· ≤ ·)

theorem Member.sorted_perm {m m' : Member} (h : m.sorted = m'.sorted) :
    m.devices.Perm m'.devices := by
  have hhash : Function.Injective Fingerprint.hash := by
    rintro ⟨a⟩ ⟨b⟩ rfl
    rfl
  have hperm : (m.devices.map (·.hash)).Perm (m'.devices.map (·.hash)) :=
    ((List.perm_insertionSort (· ≤ ·) _).symm.trans (.of_eq h)).trans
      (List.perm_insertionSort (· ≤ ·) _)
  exact (List.map_perm_map_iff hhash).mp hperm

theorem bindings_get {ms : List Member} (hnodup : (ms.map (·.name)).Nodup) {name : String}
    {devices : List (BitVec 256)} :
    (bindings ms)[name]? = some devices ↔
      ∃ m ∈ ms, m.devices ≠ [] ∧ m.name = name ∧ m.sorted = devices := by
  have hsub : ((ms.filter fun m => !m.devices.isEmpty).map (·.name)).Nodup :=
    hnodup.sublist (List.filter_sublist.map _)
  rw [bindings, BTreeMap.get_foldl_insert hsub]
  simp only [List.mem_filter, Bool.not_eq_true', List.isEmpty_eq_false_iff, and_assoc]
  simp [Member.sorted]

/-- **Equal bindings keep the members with devices**: none is dropped or
renamed, and each still lists the same devices. -/
theorem bindings_members {ms ms' : List Member} (hms : (ms.map (·.name)).Nodup)
    (hms' : (ms'.map (·.name)).Nodup) (h : bindings ms' = bindings ms) {m : Member} (hm : m ∈ ms)
    (hd : m.devices ≠ []) :
    ∃ m' ∈ ms', m'.name = m.name ∧ m'.devices ≠ [] ∧ m'.devices.Perm m.devices := by
  have hget := (bindings_get hms).mpr ⟨m, hm, hd, rfl, rfl⟩
  rw [← h] at hget
  obtain ⟨m', hm', hd', hname, hsorted⟩ := (bindings_get hms').mp hget
  exact ⟨m', hm', hname, hd', Member.sorted_perm hsorted⟩

theorem delegateOf_members {ms ms' : List Member} (h : delegateOf ms' = delegateOf ms)
    (hone : (ms.filter (·.delegate)).length ≤ 1) {m : Member} (hm : m ∈ ms)
    (hd : m.delegate = true) : ∃ m' ∈ ms', m'.name = m.name ∧ m'.delegate = true := by
  have hfind : ms.find? (·.delegate) = some m := by
    have hmem : m ∈ ms.filter (·.delegate) := List.mem_filter.mpr ⟨hm, hd⟩
    rw [← List.head?_filter]
    generalize ms.filter (·.delegate) = ds at hmem hone
    cases ds with
    | nil => simp at hmem
    | cons n ds =>
      have hds : ds = [] := by simpa using hone
      rw [hds, List.mem_singleton] at hmem
      rw [hmem]
      rfl
  rw [delegateOf, delegateOf, hfind, Option.map_some] at h
  obtain ⟨m', hfind', hname⟩ := Option.map_eq_some_iff.mp h
  exact ⟨m', List.mem_of_find?_eq_some hfind', hname, by simpa using List.find?_some hfind'⟩

/-! ### The lock -/

/-- What a board keeps of the latest roster `r` that the server signed. -/
structure Locked (r : Roster) (b : Board) : Prop where
  signed : rosterWellFormed r.members = true
  members : rosterWellFormed b.members = true
  roots : rootsWellFormed b.roots = true
  bindings_eq : bindings b.members = bindings r.members
  delegate_eq : delegateOf b.members = delegateOf r.members
  roots_eq : b.roots.toFinset = r.roots.toFinset

theorem checkDevices_ok {b : Board} {members : List Member} {signer : Signer}
    (h : checkDevices b members signer = .ok ()) :
    rosterWellFormed members = true ∧
      (signer.class_ = .server ∨ delegateOf members = delegateOf b.members) ∧
      (signer.class_ = .server ∨ bindings members = bindings b.members) := by
  simp only [checkDevices, bind_ok, ensure_ok] at h
  obtain ⟨_, -, _, -, _, hdelegate, _, hformed, hbindings⟩ := h
  exact ⟨hformed, hdelegate, hbindings⟩

theorem checkRoots_ok {b : Board} {roots : List String} {signer : Signer}
    (h : checkRoots b roots signer = .ok ()) :
    rootsWellFormed roots = true ∧
      (signer.class_ = .server ∨ roots.toFinset = b.roots.toFinset) := by
  simp only [checkRoots, bind_ok, ensure_ok] at h
  obtain ⟨_, hformed, hroots⟩ := h
  exact ⟨hformed, hroots⟩

theorem Admitted.locked {log : List LogEntry} {b : Board} (h : Admitted P g log b)
    (hg : rosterWellFormed g.payload.roster = true) : Locked (serverRoster P g log) b := by
  induction h with
  | nil hb =>
    rw [hb]
    exact ⟨hg, hg, rfl, rfl, rfl, rfl⟩
  | @snoc log b b' x _ hx ih =>
    obtain ⟨conflict, hadm, rfl⟩ := hx
    have hrecord := hadm.record_roster
    rw [serverRoster, latest_snoc]
    cases hr : x.roster P with
    | none =>
      rw [hr, Option.getD_none, Roster.mk.injEq] at hrecord
      rw [Option.getD_none, ite_self]
      obtain ⟨-, hmembers, hroots⟩ := hrecord
      exact ⟨ih.signed, hmembers ▸ ih.members, hroots ▸ ih.roots, hmembers ▸ ih.bindings_eq,
        hmembers ▸ ih.delegate_eq, hroots ▸ ih.roots_eq⟩
    | some r =>
      obtain ⟨-, hbody⟩ := LogEntry.roster_some.mp hr
      have hkind : x.event.kind = .roster := by
        have hfits : x.event.body.kind = x.event.kind := hadm.fits
        rw [← hfits, hbody]
        rfl
      obtain ⟨hdevices, hroots⟩ := hadm.roster r.members r.roots hbody
      obtain ⟨hformed, hdelegate, hbindings⟩ := checkDevices_ok hdevices
      obtain ⟨hplain, hset⟩ := checkRoots_ok hroots
      rw [hr, Option.getD_some, Roster.mk.injEq] at hrecord
      obtain ⟨-, hm, hro⟩ := hrecord
      by_cases hs : x.signer.class_ = .server
      · -- the server's own roster is the latest one it signed
        rw [if_pos (by simp [LogEntry.serverRoster, hkind, hs]), Option.getD_some]
        exact ⟨hformed, by rw [hm]; exact hformed, by rw [hro]; exact hplain, by rw [hm],
          by rw [hm], by rw [hro]⟩
      · -- a shepherd's roster binds what the board binds now
        rw [if_neg (by simp [LogEntry.serverRoster, hs])]
        refine ⟨ih.signed, by rw [hm]; exact hformed, by rw [hro]; exact hplain, ?_, ?_, ?_⟩
        · rw [hm, hbindings.resolve_left hs]
          exact ih.bindings_eq
        · rw [hm, hdelegate.resolve_left hs]
          exact ih.delegate_eq
        · rw [hro, hset.resolve_left hs]
          exact ih.roots_eq

theorem Locked.listed {r : Roster} {b : Board} (h : Locked r b) {device : Fingerprint}
    (hd : listedDevice b device = true) :
    ∃ m ∈ r.members, m.role = .operator ∧ device ∈ m.devices := by
  obtain ⟨-, hsigned, hops⟩ := rosterWellFormed_iff.mp h.signed
  obtain ⟨-, hmembers, -⟩ := rosterWellFormed_iff.mp h.members
  simp only [listedDevice, List.any_eq_true, Bool.and_eq_true, decide_eq_true_eq] at hd
  obtain ⟨m, hm, -, hmem⟩ := hd
  obtain ⟨m', hm', -, hne, hperm⟩ :=
    bindings_members hmembers hsigned h.bindings_eq.symm hm (List.ne_nil_of_mem hmem)
  exact ⟨m', hm', hops m' hm' hne, hperm.mem_iff.mpr hmem⟩

/-! ### The chain of rosters -/

theorem Admitted.replaces {pre post : List LogEntry} {x : LogEntry} {b : Board}
    (h : Admitted P g (pre ++ x :: post) b) (hk : x.event.kind = .roster) :
    x.event.refs["replaces"]? = some (Flock.inForce P g pre).id := by
  obtain ⟨u, conflict, hu, hadm⟩ := h.split
  obtain ⟨member, target, closes, -, hrefs, -, -⟩ := hadm.table
  have hs : isServerKind x.event.kind = false := by
    rw [hk]
    rfl
  cases checkRefs_cites hs hrefs with
  | nothing optional =>
    rw [hk] at optional
    simp [refSpec] at optional
  | roster _ current =>
    rw [← hu.inForce]
    exact current
  | event notRoster => exact absurd hk notRoster

theorem inForce_from {x : LogEntry} {r : Roster} (hx : x.roster P = some r)
    (pre mid : List LogEntry) :
    ∃ y ∈ x :: mid, (inForce P g (pre ++ x :: mid)).id = y.id P := by
  induction mid using List.reverseRecOn with
  | nil =>
    refine ⟨x, by simp, ?_⟩
    rw [inForce, latest_snoc, if_pos rfl, hx]
    exact (LogEntry.roster_some.mp hx).1
  | append_singleton mid y ih =>
    rw [← List.cons_append, ← List.append_assoc, inForce, latest_snoc, if_pos rfl]
    cases hy : y.roster P with
    | none =>
      obtain ⟨z, hz, hid⟩ := ih
      exact ⟨z, by simp at hz ⊢; tauto, hid⟩
    | some r' => exact ⟨y, by simp, (LogEntry.roster_some.mp hy).1⟩

theorem Admitted.replaces_ne (hids : ∀ n, P.eventId n ≠ P.genesisId g)
    {pre mid post : List LogEntry} {x y : LogEntry} {b : Board}
    (h : Admitted P g (pre ++ x :: (mid ++ y :: post)) b) (hx : x.event.kind = .roster)
    (hy : y.event.kind = .roster) :
    x.event.refs["replaces"]? ≠ y.event.refs["replaces"]? := by
  have hsplit : pre ++ x :: (mid ++ y :: post) = (pre ++ x :: mid) ++ y :: post := by simp
  have hlater : Admitted P g ((pre ++ x :: mid) ++ y :: post) b := by
    rw [← hsplit]
    exact h
  obtain ⟨u, conflict, -, hadm⟩ := h.split
  obtain ⟨members, roots, hbody⟩ := Body.roster_of_kind (hadm.fits.trans hx)
  have hroster : x.roster P = some ⟨x.id P, members, roots⟩ :=
    LogEntry.roster_some.mpr ⟨rfl, hbody⟩
  obtain ⟨z, hz, hid⟩ := inForce_from (g := g) hroster pre mid
  rw [h.replaces hx, hlater.replaces hy, hid]
  intro heq
  rcases latest_cases (P := P) (g := g) (fun _ => true) pre with hgen | ⟨w, hw, hroster⟩
  · exact hids z.node ((Option.some.inj heq).symm.trans (congrArg Roster.id hgen))
  · -- an entry before `x` and one from `x` on have different ids
    have hsame : w.id P = z.id P :=
      (LogEntry.roster_some.mp hroster).1.symm.trans (Option.some.inj heq)
    have hlater : z ∈ x :: (mid ++ y :: post) := by
      simp only [List.mem_cons, List.mem_append] at hz ⊢
      tauto
    exact h.id_ne hw hlater hsame

/-- With no admitted roster of the server in between, the board keeps what the
server's latest roster binds. -/
theorem Locked.between {r : Roster} {b b' : Board} (h : Locked r b) (h' : Locked r b') :
    bindings b'.members = bindings b.members ∧ delegateOf b'.members = delegateOf b.members ∧
      b'.roots.toFinset = b.roots.toFinset ∧
      (∀ m ∈ b.members, m.devices ≠ [] → ∃ m' ∈ b'.members,
        m'.name = m.name ∧ m'.role = .operator ∧ m'.devices.Perm m.devices) ∧
      (∀ m ∈ b.members, m.delegate = true → ∃ m' ∈ b'.members,
        m'.name = m.name ∧ m'.delegate = true) := by
  obtain ⟨hone, hnames, -⟩ := rosterWellFormed_iff.mp h.members
  obtain ⟨-, hnames', hops'⟩ := rosterWellFormed_iff.mp h'.members
  have hbindings : bindings b'.members = bindings b.members :=
    h'.bindings_eq.trans h.bindings_eq.symm
  have hdelegate : delegateOf b'.members = delegateOf b.members :=
    h'.delegate_eq.trans h.delegate_eq.symm
  refine ⟨hbindings, hdelegate, h'.roots_eq.trans h.roots_eq.symm, ?_, ?_⟩
  · intro m hm hd
    obtain ⟨m', hm', hname, hne, hperm⟩ := bindings_members hnames hnames' hbindings hm hd
    exact ⟨m', hm', hname, hops' m' hm' hne, hperm⟩
  · intro m hm hd
    exact delegateOf_members hdelegate hone hm hd

/-- **Operator devices, the delegate and file roots are the server's alone.**
For every log a fold accepts: after every part of it the roster and the roots
are well formed; the admitted rosters are one chain, so no two of them replace
the same one (where events and the genesis have different ids); with no
admitted roster of the server in between, the device bindings, the delegate and
the set of roots stay; and an operator's answer is signed by a device that the
server's latest roster lists on an operator. -/
theorem server_owns_devices (hg : rosterWellFormed g.payload.roster = true)
    {log : List LogEntry} {b : Board} (h : Board.fold P g log = .ok b) :
    (∀ pre : List LogEntry, pre <+: log → rosterWellFormed (Board.reached P g pre).members = true ∧
      rootsWellFormed (Board.reached P g pre).roots = true) ∧
    (∀ (pre : List LogEntry) (x : LogEntry) (post : List LogEntry),
      admitted P g log = pre ++ x :: post → x.event.kind = .roster →
      x.event.refs["replaces"]? = some (inForce P g pre).id) ∧
    ((∀ n, P.eventId n ≠ P.genesisId g) →
      ∀ (pre : List LogEntry) (x : LogEntry) (mid : List LogEntry) (y : LogEntry)
        (post : List LogEntry), admitted P g log = pre ++ x :: (mid ++ y :: post) →
      x.event.kind = .roster → y.event.kind = .roster →
      x.event.refs["replaces"]? ≠ y.event.refs["replaces"]?) ∧
    (∀ pre mid : List LogEntry, pre ++ mid <+: log →
      (∀ x ∈ (Board.reached P g pre).admittedOf P mid, x.serverRoster = false) →
      bindings (Board.reached P g (pre ++ mid)).members =
          bindings (Board.reached P g pre).members ∧
        delegateOf (Board.reached P g (pre ++ mid)).members =
          delegateOf (Board.reached P g pre).members ∧
        (Board.reached P g (pre ++ mid)).roots.toFinset =
          (Board.reached P g pre).roots.toFinset ∧
        (∀ m ∈ (Board.reached P g pre).members, m.devices ≠ [] →
          ∃ m' ∈ (Board.reached P g (pre ++ mid)).members,
            m'.name = m.name ∧ m'.role = .operator ∧ m'.devices.Perm m.devices) ∧
        (∀ m ∈ (Board.reached P g pre).members, m.delegate = true →
          ∃ m' ∈ (Board.reached P g (pre ++ mid)).members,
            m'.name = m.name ∧ m'.delegate = true)) ∧
    (∀ (pre : List LogEntry) (x : LogEntry) (post : List LogEntry),
      admitted P g log = pre ++ x :: post → x.signer.class_ = .operator →
      x.event.kind = .answer ∧ ∃ m ∈ (serverRoster P g pre).members, m.role = .operator ∧
        x.signer.fingerprint ∈ m.devices) := by
  have hlog := Board.fold_admitted h
  have hlocked : ∀ calls,
      Locked (serverRoster P g (admitted P g calls)) (Board.reached P g calls) :=
    fun calls => (Board.reached_admitted P g calls).locked hg
  refine ⟨?_, ?_, ?_, ?_, ?_⟩
  · intro pre _
    exact ⟨(hlocked pre).members, (hlocked pre).roots⟩
  · intro pre x post hsplit hk
    rw [hsplit] at hlog
    exact hlog.replaces hk
  · intro hids pre x mid y post hsplit hx hy
    rw [hsplit] at hlog
    exact hlog.replaces_ne hids hx hy
  · intro pre mid _ hnone
    have hsame : serverRoster P g (admitted P g (pre ++ mid)) =
        serverRoster P g (admitted P g pre) := by
      rw [admitted_append]
      exact latest_append hnone
    have hlater := hlocked (pre ++ mid)
    rw [hsame] at hlater
    exact (hlocked pre).between hlater
  · intro pre x post hsplit hc
    rw [hsplit] at hlog
    obtain ⟨u, conflict, hu, hadm⟩ := hlog.split
    obtain ⟨member, -, -, hm, -, -, -⟩ := hadm.table
    have hm : signerMember u x.event.kind x.signer = .ok member := hm
    have hkind : x.event.kind = .answer := signerMember_operator hc hm
    rw [hkind] at hm
    exact ⟨hkind, (hu.locked hg).listed (signerMember_answer hm).2⟩

/-- The server drops a member from the roster, a helper asks, and an operator's
device answers. -/
noncomputable def Small.answeredLog : List LogEntry :=
  [⟨dropped.event, ⟨⟨1⟩, .server⟩⟩, ⟨asked.event, ⟨⟨4⟩, .session "w" false⟩⟩,
    ⟨answered.event, ⟨⟨2⟩, .operator⟩⟩]

set_option maxRecDepth 100000 in
theorem server_owns_devices_answered :
    ∃ b, Board.fold Small.P Small.genesis Small.answeredLog = .ok b ∧
      rosterWellFormed b.members = true ∧
      ∃ m ∈ (serverRoster Small.P Small.genesis (Small.answeredLog.take 2)).members,
        m.role = .operator ∧ ⟨2⟩ ∈ m.devices := by
  obtain ⟨b, hb, -⟩ : ∃ b, Board.fold Small.P Small.genesis Small.answeredLog = .ok b ∧ True := by
    decide +kernel
  have hadmitted : admitted Small.P Small.genesis Small.answeredLog = Small.answeredLog := by
    decide +kernel
  obtain ⟨hformed, -, -, -, hanswer⟩ := server_owns_devices (by decide +kernel) hb
  refine ⟨b, hb, ?_, (hanswer (Small.answeredLog.take 2) _ [] hadmitted rfl).2⟩
  rw [Board.fold_ok hb]
  exact (hformed Small.answeredLog (List.prefix_refl _)).1

end Flock
