/-
The sending half of a session: numbering, and what is on the stream.

Every task of the sending half writes through one `Writer` behind one lock, and
may be dropped at any await.  `Outgoing.Steps` says once what a step can do;
what holds at any time follows from it.

* `Outgoing.Sound` — frames are numbered in the order the writer took them, and
  the stream holds them whole and in that order, but for part of the last;
* `Outgoing.Dead.step` — after a frame write was cancelled or failed nothing is
  put on the stream any more.
-/
import AgentMesh.Session

open Mesh Transport

namespace Bus

variable {W : SessionWire}

/-! ### Everything a step can do -/

/-- A stage that says nothing about the stream. -/
def Stage.Quiet (s : Stage) : Prop := ¬s.Abandoned ∧ s ≠ .finishing

theorem Job.next_abandoned (job : Job) : ¬job.next.Abandoned := by
  cases job <;> exact id

variable {o o' : Outgoing W}

namespace Outgoing

/-- Everything one step of the sending half can do. -/
inductive Steps (o : Outgoing W) : Outgoing W → Prop where
  | rest {tasks : List Task} (h : ∀ t ∈ tasks, t ∈ o.tasks ∨ t.stage.Quiet) :
    Steps o { o with tasks := tasks }
  | refuse (i : ℕ) (e : BusError) (hintact : o.writer.intact = false) (hlock : o.lock = none) :
    Steps o (o.setStage i (.failed e))
  | take (i : ℕ) (job : Job) (nonce : BitVec 192) (bytes : Bytes)
    (hintact : o.writer.intact = true) (hlock : o.lock = none)
    (hsend : sendEnvelope W.toEnvelopeWire
      (o.writer.link.envelope nonce o.writer.nextSeq job.body) = .ok bytes) :
    Steps o { o with
      writer.intact := false
      taken := o.taken ++ [(job.body, o.writer.link.envelope nonce o.writer.nextSeq job.body)]
      lock := some (i, .writing bytes) }
  | oversized (i : ℕ) (job : Job) (nonce : BitVec 192) (e : TransportError)
    (hintact : o.writer.intact = true) (hlock : o.lock = none)
    (hsend : sendEnvelope W.toEnvelopeWire
      (o.writer.link.envelope nonce o.writer.nextSeq job.body) = .error e) :
    Steps o (setStage { o with
      writer.intact := false
      taken := o.taken ++ [(job.body, o.writer.link.envelope nonce o.writer.nextSeq job.body)] }
      i (.failed (.transport e)))
  | hand (i n : ℕ) (rest : Bytes) (hlock : o.lock = some (i, .writing rest)) :
    Steps o { o with
      writer.io := o.writer.io ++ rest.take n
      lock := some (i, .writing (rest.drop n)) }
  | finish (i : ℕ) (job : Job) (hlock : o.lock = some (i, .writing [])) :
    Steps o (setStage { o with
      writer.intact := true
      writer.nextSeq := o.writer.nextSeq + 1
      lock := none } i job.next)
  | tear (i : ℕ) (rest : Bytes) (s : Stage) (hlock : o.lock = some (i, .writing rest))
    (hs : s.Abandoned) : Steps o (setStage { o with lock := none } i s)
  | closing (i : ℕ) (hlock : o.lock = none) (h : ∃ t ∈ o.tasks, t.stage = .finishing) :
    Steps o { o with writer.intact := false, lock := some (i, .shutting) }
  | unlock (i : ℕ) (shut : Bool) (s : Stage) (hlock : o.lock = some (i, .shutting))
    (hs : s.Quiet) : Steps o (setStage { o with writer.shut := shut, lock := none } i s)

theorem Steps.refl : o.Steps o := .rest fun _ h => .inl h

theorem mem_setStage {i : ℕ} {s : Stage} {t : Task} (h : t ∈ (o.setStage i s).tasks) :
    t ∈ o.tasks ∨ t.stage = s := by
  obtain ⟨j, hj⟩ := List.mem_iff_getElem?.mp h
  rw [setStage, List.getElem?_modify] at hj
  obtain ⟨t', ht', rfl⟩ := Option.map_eq_some_iff.mp hj
  by_cases hij : i = j
  · rw [if_pos hij]
    exact .inr rfl
  · rw [if_neg hij]
    exact .inl (List.mem_of_getElem? ht')

theorem Steps.setStage {i : ℕ} {s : Stage} (hs : s.Quiet) : o.Steps (o.setStage i s) := by
  refine .rest fun t ht => ?_
  rcases mem_setStage ht with ht | rfl
  · exact .inl ht
  · exact .inr hs

theorem write_steps (i : ℕ) (job : Job) (nonce : BitVec 192) (hlock : o.lock = none) :
    o.Steps (o.write i job nonce) := by
  rw [write]
  by_cases hintact : o.writer.intact = true
  · rw [if_pos hintact]
    cases hsend : sendEnvelope W.toEnvelopeWire
        (o.writer.link.envelope nonce o.writer.nextSeq job.body) with
    | ok bytes =>
      simp only [hsend]
      exact .take i job nonce bytes hintact hlock hsend
    | error e =>
      simp only [hsend]
      exact .oversized i job nonce e hintact hlock hsend
  · rw [if_neg hintact]
    exact .refuse i _ (Bool.eq_false_of_not_eq_true hintact) hlock

theorem enter_steps {i : ℕ} {t : Task} (nonce : BitVec 192) (hlock : o.lock = none)
    (ht : o.tasks[i]? = some t) : o.Steps (o.enter i t nonce) := by
  rw [enter]
  cases hstage : t.stage with
  | sleeping | locking => exact write_steps i t.job nonce hlock
  | finishing => exact .closing i hlock ⟨t, List.mem_of_getElem? ht, hstage⟩
  | done | failed | torn | gone | unshut => exact .refl

theorem inside_steps {i : ℕ} (job : Job) {s : Section} (io : Io) (hlock : o.lock = some (i, s)) :
    o.Steps (o.inside i job s io) := by
  cases s with
  | writing rest =>
    cases io with
    | wrote n => exact .hand i n rest hlock
    | flushed =>
      cases rest with
      | nil => exact .finish i job hlock
      | cons b rest => exact .refl
    | failed e => exact .tear i rest _ hlock trivial
  | shutting =>
    cases io with
    | wrote n => exact .refl
    | flushed => exact .unlock i true .done hlock ⟨id, by simp⟩
    | failed e => exact .unlock i o.writer.shut _ hlock ⟨id, by simp⟩

theorem leave_steps (i : ℕ) (t : Task) (result : Option BusError) :
    o.Steps (o.leave i t result) := by
  rw [leave]
  by_cases hended : t.stage.ended = true
  · rw [if_pos hended]
    exact .refl
  · rw [if_neg hended]
    exact .setStage ⟨id, by simp⟩

theorem abandon_steps (i : ℕ) (t : Task) (result : Option BusError) :
    o.Steps (o.abandon i t result) := by
  unfold abandon
  cases hlock : o.lock with
  | none => exact leave_steps i t result
  | some held =>
    obtain ⟨j, s⟩ := held
    by_cases hj : j = i
    · subst hj
      cases s with
      | writing rest =>
        simp only [if_true]
        exact .tear j rest _ hlock trivial
      | shutting =>
        simp only [if_true]
        exact .unlock j o.writer.shut _ hlock ⟨id, by simp⟩
    · cases s with
      | writing rest | shutting =>
        simp only [if_neg hj]
        exact leave_steps i t result

/-- **Everything a step can do.** -/
theorem step_steps (o : Outgoing W) (a : Act) : o.Steps (o.step a) := by
  cases a with
  | call job =>
    refine .rest fun t ht => ?_
    rcases List.mem_append.mp ht with ht | ht
    · exact .inl ht
    · rw [List.mem_singleton.mp ht]
      refine .inr ?_
      by_cases hjob : job = .keepalive
      · rw [if_pos hjob]
        exact ⟨id, by simp⟩
      · rw [if_neg hjob]
        exact ⟨id, by simp⟩
  | poll i nonce io =>
    rw [step]
    unfold poll
    cases ht : o.tasks[i]? with
    | none => exact .refl
    | some t =>
      cases hlock : o.lock with
      | none => exact enter_steps nonce hlock ht
      | some held =>
        obtain ⟨j, s⟩ := held
        by_cases hj : j = i
        · subst hj
          simp only [if_true]
          exact inside_steps t.job io hlock
        · simp only [if_neg hj]
          exact .refl
  | cancel i =>
    rw [step]
    cases o.tasks[i]? with
    | none => exact .refl
    | some t => exact abandon_steps i t none
  | shutdown i =>
    rw [step]
    cases o.tasks[i]? with
    | none => exact .refl
    | some t =>
      by_cases hstage : t.stage = .locking
      · simp only [if_pos hstage]
        exact abandon_steps i t _
      · simp only [if_neg hstage]
        exact .refl

theorem Steps.link (h : o.Steps o') : o'.writer.link = o.writer.link := by
  cases h <;> rfl

theorem Steps.taken (h : o.Steps o') : ∃ more, o'.taken = o.taken ++ more := by
  cases h with
  | take | oversized => exact ⟨_, rfl⟩
  | rest | refuse | hand | finish | tear | closing | unlock => exact ⟨[], (List.append_nil _).symm⟩

theorem Steps.io (h : o.Steps o') : o.writer.io <+: o'.writer.io := by
  cases h with
  | hand i n rest hlock => exact ⟨rest.take n, rfl⟩
  | rest | refuse | take | oversized | finish | tear | closing | unlock => exact List.prefix_rfl

theorem Steps.nextSeq (h : o.Steps o') : o.writer.nextSeq ≤ o'.writer.nextSeq := by
  cases h with
  | finish => exact Nat.le_succ _
  | rest | refuse | take | oversized | hand | tear | closing | unlock => exact le_rfl

/-! ### Frames are numbered, and on the stream in order -/

/-- The bytes of frames, one after another. -/
def wire (taken : List (Body × SignedEnvelope)) : Bytes :=
  (taken.map fun x => wireBytes W.toEnvelopeWire x.2).flatten

theorem wire_append (xs ys : List (Body × SignedEnvelope)) :
    wire (W := W) (xs ++ ys) = wire (W := W) xs ++ wire (W := W) ys := by
  simp [wire]

/-- No frame will be taken any more, and none is being written. -/
structure Dead (o : Outgoing W) : Prop where
  torn : o.writer.intact = false
  idle : ∀ i rest, o.lock ≠ some (i, .writing rest)

theorem Dead.of_unlocked (htorn : o.writer.intact = false) (hlock : o.lock = none) : o.Dead := by
  refine ⟨htorn, fun i rest h => ?_⟩
  rw [hlock] at h
  cases h

/-- How the writer, its lock and the count of frames go together. -/
inductive Condition (o : Outgoing W) : Prop where
  | ready (hintact : o.writer.intact = true) (hlock : o.lock = none)
    (hcount : o.taken.length = o.writer.nextSeq) (hclean : ∀ t ∈ o.tasks, ¬t.stage.Abandoned)
  | busy (i : ℕ) (rest : Bytes) (hintact : o.writer.intact = false)
    (hlock : o.lock = some (i, .writing rest)) (hcount : o.taken.length = o.writer.nextSeq + 1)
    (hio : o.writer.io ++ rest = wire (W := W) o.taken)
    (hfits : ∀ x ∈ o.taken, Fits W.toEnvelopeWire x.2)
    (hclean : ∀ t ∈ o.tasks, ¬t.stage.Abandoned)
  | dead (h : o.Dead)

/-- The stream is being finished, or is about to be. -/
def Finishing (o : Outgoing W) : Prop :=
  (∃ t ∈ o.tasks, t.stage = .finishing) ∨ (∃ i, o.lock = some (i, .shutting)) ∨
    o.writer.shut = true

/-- What holds of the sending half at any time. -/
structure Sound (o : Outgoing W) : Prop where
  numbered : ∀ {k body env}, o.taken[k]? = some (body, env) →
    ∃ nonce, env = o.writer.link.envelope nonce k body
  condition : o.Condition
  count : o.writer.nextSeq ≤ o.taken.length
  /-- One frame at most is not counted yet. -/
  last : o.taken.length ≤ o.writer.nextSeq + 1
  fits : ∀ x ∈ o.taken.take o.writer.nextSeq, Fits W.toEnvelopeWire x.2
  /-- The frames counted are on the stream, whole. -/
  written : wire (W := W) (o.taken.take o.writer.nextSeq) <+: o.writer.io
  /-- Nothing else is, but for part of the next one. -/
  within : o.writer.io <+: wire (W := W) o.taken
  finishing : o.Finishing → 0 < o.writer.nextSeq

theorem Sound.new (link : Link W) : (new link).Sound where
  numbered h := by simp [Outgoing.new] at h
  condition := .ready rfl rfl rfl (by simp [Outgoing.new, Stage.Abandoned])
  count := le_rfl
  last := Nat.zero_le _
  fits _ h := by cases h
  written := List.nil_prefix
  within := List.nil_prefix
  finishing h := by simp [Finishing, Outgoing.new] at h

theorem Finishing.of_tasks {tasks : List Task}
    (h : ∀ t ∈ tasks, t ∈ o.tasks ∨ t.stage.Quiet)
    (hf : Finishing { o with tasks := tasks }) : o.Finishing := by
  rcases hf with ⟨t, ht, hstage⟩ | hf
  · rcases h t ht with ht | ht
    · exact .inl ⟨t, ht, hstage⟩
    · exact absurd hstage ht.2
  · exact .inr hf

theorem Finishing.of_setStage {i : ℕ} {s : Stage} (hs : s ≠ .finishing)
    (hf : (o.setStage i s).Finishing) : o.Finishing := by
  rcases hf with ⟨t, ht, hstage⟩ | hf
  · rcases mem_setStage ht with ht | rfl
    · exact .inl ⟨t, ht, hstage⟩
    · exact absurd hstage hs
  · exact .inr hf

/-- Nobody starts to finish by a change of the lock that shuts nothing. -/
theorem Finishing.of_lock {o' : Outgoing W} (hf : o'.Finishing) (htasks : o'.tasks = o.tasks)
    (hlock : ∀ i, o'.lock ≠ some (i, .shutting)) (hshut : o'.writer.shut = o.writer.shut) :
    o.Finishing := by
  rcases hf with ⟨t, ht, hstage⟩ | ⟨i, hi⟩ | hf
  · exact .inl ⟨t, htasks ▸ ht, hstage⟩
  · exact absurd hi (hlock i)
  · exact .inr (.inr (hshut ▸ hf))

theorem Dead.setStage {i : ℕ} {s : Stage} (h : o.Dead) : (o.setStage i s).Dead := ⟨h.torn, h.idle⟩

/-- **A dead writer stays dead, and the stream stays as it is.** -/
theorem Dead.step (hd : o.Dead) (h : o.Steps o') :
    o'.Dead ∧ o'.writer.io = o.writer.io ∧ o'.taken = o.taken := by
  cases h with
  | rest h => exact ⟨⟨hd.torn, hd.idle⟩, rfl, rfl⟩
  | refuse i e hintact hlock => exact ⟨hd.setStage, rfl, rfl⟩
  | take i job nonce bytes hintact hlock hsend => simp [hd.torn] at hintact
  | oversized i job nonce e hintact hlock hsend => simp [hd.torn] at hintact
  | hand i n rest hlock => exact absurd hlock (hd.idle i rest)
  | finish i job hlock => exact absurd hlock (hd.idle i [])
  | tear i rest s hlock hs => exact absurd hlock (hd.idle i rest)
  | closing i hlock h => exact ⟨⟨rfl, by simp⟩, rfl, rfl⟩
  | unlock i shut s hlock hs => exact ⟨⟨hd.torn, by simp [Outgoing.setStage]⟩, rfl, rfl⟩

theorem Sound.signed (h : o.Sound) {e : SignedEnvelope} (he : e ∈ o.taken.map (·.2)) :
    ∃ k body nonce, o.frames[k]? = some body ∧ e = o.writer.link.envelope nonce k body := by
  obtain ⟨⟨body, e'⟩, htaken, rfl⟩ := List.mem_map.mp he
  obtain ⟨k, hk⟩ := List.mem_iff_getElem?.mp htaken
  obtain ⟨nonce, henv⟩ := h.numbered hk
  refine ⟨k, body, nonce, ?_, henv⟩
  rw [frames, List.getElem?_map, hk]
  rfl

theorem Sound.first_of_io (h : o.Sound) (hio : o.writer.io ≠ []) :
    ∃ body env more, o.taken.head? = some (body, env) ∧ Fits W.toEnvelopeWire env ∧
      o.writer.io <+: Delimited.bytes (W.envelopeJson env) ++ more := by
  have hwithin := h.within
  cases htaken : o.taken with
  | nil =>
    rw [htaken] at hwithin
    exact absurd (List.prefix_nil.mp hwithin) hio
  | cons x taken =>
    have hsplit : wire (W := W) o.taken =
        wireBytes W.toEnvelopeWire x.2 ++ wire (W := W) taken := by
      rw [htaken]
      rfl
    have hfits : Fits W.toEnvelopeWire x.2 := by
      by_contra hno
      by_cases hseq : o.writer.nextSeq = 0
      · -- it is the only frame, and too large
        have hlast := h.last
        rw [hseq, htaken, List.length_cons] at hlast
        have hnil : taken = [] := List.length_eq_zero_iff.mp (by omega)
        rw [hsplit, wireBytes_of_not_fits hno, hnil] at hwithin
        exact hio (List.prefix_nil.mp hwithin)
      · refine hno (h.fits x ?_)
        rw [htaken, ← Nat.succ_pred_eq_of_ne_zero hseq]
        exact List.mem_cons_self
    refine ⟨x.1, x.2, wire (W := W) taken, rfl, hfits, ?_⟩
    rw [hsplit, wireBytes_of_fits hfits] at hwithin
    exact hwithin

theorem Sound.first_whole (h : o.Sound) (hseq : 0 < o.writer.nextSeq) {body : Body}
    {env : SignedEnvelope} (hfirst : o.taken.head? = some (body, env)) :
    Fits W.toEnvelopeWire env ∧ Delimited.bytes (W.envelopeJson env) <+: o.writer.io := by
  obtain ⟨taken, htaken⟩ : ∃ taken, o.taken = (body, env) :: taken :=
    ⟨o.taken.tail, List.eq_cons_of_mem_head? hfirst⟩
  obtain ⟨n, hn⟩ : ∃ n, o.writer.nextSeq = n + 1 := ⟨_, (Nat.succ_pred_eq_of_pos hseq).symm⟩
  have hfits : Fits W.toEnvelopeWire env := by
    refine h.fits (body, env) ?_
    rw [htaken, hn]
    exact List.mem_cons_self
  refine ⟨hfits, List.IsPrefix.trans ?_ h.written⟩
  rw [htaken, hn, ← wireBytes_of_fits hfits]
  exact ⟨wire (W := W) (taken.take n), rfl⟩

theorem Sound.dead (h : o.Sound) {t : Task} (ht : t ∈ o.tasks) (habandoned : t.stage.Abandoned) :
    o.Dead := by
  cases h.condition with
  | ready hintact hlock hcount hclean => exact absurd habandoned (hclean t ht)
  | busy i rest hintact hlock hcount hio hfits hclean => exact absurd habandoned (hclean t ht)
  | dead h => exact h

theorem Sound.ready (h : o.Sound) (hintact : o.writer.intact = true) :
    o.lock = none ∧ o.taken.length = o.writer.nextSeq ∧ (∀ t ∈ o.tasks, ¬t.stage.Abandoned) ∧
      o.writer.io = wire (W := W) o.taken := by
  cases h.condition with
  | ready _ hlock hcount hclean =>
    have hwritten := h.written
    rw [← hcount, List.take_length] at hwritten
    exact ⟨hlock, hcount, hclean, h.within.eq_of_length_le hwritten.length_le⟩
  | busy i rest hno _ _ _ _ _ => simp [hno] at hintact
  | dead hd => simp [hd.torn] at hintact

/-- While a frame is written, what is left of it is what the stream lacks. -/
theorem Sound.writing (h : o.Sound) {i : ℕ} {rest : Bytes}
    (hlock : o.lock = some (i, .writing rest)) :
    o.writer.intact = false ∧ o.taken.length = o.writer.nextSeq + 1 ∧
      o.writer.io ++ rest = wire (W := W) o.taken ∧
      (∀ x ∈ o.taken, Fits W.toEnvelopeWire x.2) ∧ ∀ t ∈ o.tasks, ¬t.stage.Abandoned := by
  cases h.condition with
  | ready _ hno _ _ => simp [hno] at hlock
  | busy j rest' hintact hlock' hcount hio hfits hclean =>
    rw [hlock', Option.some.injEq, Prod.mk.injEq, Section.writing.injEq] at hlock
    rw [← hlock.2]
    exact ⟨hintact, hcount, hio, hfits, hclean⟩
  | dead hd => exact absurd hlock (hd.idle i rest)

theorem Sound.numbered_snoc (h : o.Sound) (hcount : o.taken.length = o.writer.nextSeq)
    {nonce : BitVec 192} {body : Body} {k : ℕ} {body' : Body} {env : SignedEnvelope}
    (hk : (o.taken ++ [(body, o.writer.link.envelope nonce o.writer.nextSeq body)])[k]? =
      some (body', env)) : ∃ nonce, env = o.writer.link.envelope nonce k body' := by
  rcases Nat.lt_trichotomy k o.taken.length with hlt | heq | hgt
  · rw [List.getElem?_append_left hlt] at hk
    exact h.numbered hk
  · subst heq
    rw [List.getElem?_concat_length, Option.some.injEq, Prod.mk.injEq] at hk
    obtain ⟨rfl, rfl⟩ := hk
    exact ⟨nonce, by rw [hcount]⟩
  · rw [List.getElem?_eq_none (by simp; omega)] at hk
    cases hk

/-- What the stream lacks when the writer has taken one more frame. -/
theorem wire_snoc {taken : List (Body × SignedEnvelope)} {io : Bytes}
    (hio : io = wire (W := W) taken) (body : Body) (env : SignedEnvelope) :
    io ++ wireBytes W.toEnvelopeWire env = wire (W := W) (taken ++ [(body, env)]) := by
  rw [wire_append, ← hio]
  simp [wire]

theorem Sound.snoc (hs : o.Sound) (hintact : o.writer.intact = true)
    (x : Body × SignedEnvelope) :
    (o.taken ++ [x]).length = o.writer.nextSeq + 1 ∧
      (∀ y ∈ (o.taken ++ [x]).take o.writer.nextSeq, Fits W.toEnvelopeWire y.2) ∧
      wire (W := W) ((o.taken ++ [x]).take o.writer.nextSeq) <+: o.writer.io := by
  obtain ⟨-, hcount, -, hio⟩ := hs.ready hintact
  have hfits := hs.fits
  rw [← hcount, List.take_length] at hfits
  rw [← hcount, List.take_left, hio]
  exact ⟨by simp, hfits, List.prefix_rfl⟩

theorem Sound.steps (hs : o.Sound) (h : o.Steps o') : o'.Sound := by
  cases h with
  | @rest tasks htasks =>
    have hclean : (∀ t ∈ o.tasks, ¬t.stage.Abandoned) → ∀ t ∈ tasks, ¬t.stage.Abandoned :=
      fun hall t ht => (htasks t ht).elim (hall t) fun hquiet => hquiet.1
    refine ⟨hs.numbered, ?_, hs.count, hs.last, hs.fits, hs.written, hs.within, fun hf => ?_⟩
    swap
    · exact hs.finishing (hf.of_tasks htasks)
    cases hs.condition with
    | ready hintact hlock hcount hall => exact .ready hintact hlock hcount (hclean hall)
    | busy i rest hintact hlock hcount hio hfits hall =>
      exact .busy i rest hintact hlock hcount hio hfits (hclean hall)
    | dead hd => exact .dead ⟨hd.torn, hd.idle⟩
  | refuse i e hintact hlock =>
    refine ⟨hs.numbered, .dead (.of_unlocked hintact hlock), hs.count, hs.last, hs.fits,
      hs.written, hs.within, fun hf => ?_⟩
    exact hs.finishing (hf.of_setStage (by simp))
  | take i job nonce bytes hintact hlock hsend =>
    obtain ⟨-, hcount, hclean, hio⟩ := hs.ready hintact
    obtain ⟨hlen, hfits, hwritten⟩ := hs.snoc hintact
      (job.body, o.writer.link.envelope nonce o.writer.nextSeq job.body)
    have hnew := wire_snoc hio job.body (o.writer.link.envelope nonce o.writer.nextSeq job.body)
    rw [wireBytes, hsend] at hnew
    refine ⟨hs.numbered_snoc hcount, .busy i bytes rfl rfl hlen hnew ?_ hclean,
      (Nat.le_succ _).trans hlen.ge, hlen.le, hfits, hwritten, ⟨bytes, hnew⟩, ?_⟩
    · intro x hx
      rcases List.mem_append.mp hx with hx | hx
      · refine hs.fits x ?_
        rwa [← hcount, List.take_length]
      · rw [List.mem_singleton.mp hx]
        exact (sendEnvelope_ok hsend).1
    · intro hf
      exact hs.finishing (hf.of_lock rfl (by simp) rfl)
  | oversized i job nonce e hintact hlock hsend =>
    obtain ⟨-, hcount, hclean, hio⟩ := hs.ready hintact
    obtain ⟨hlen, hfits, hwritten⟩ := hs.snoc hintact
      (job.body, o.writer.link.envelope nonce o.writer.nextSeq job.body)
    have hnew := wire_snoc hio job.body (o.writer.link.envelope nonce o.writer.nextSeq job.body)
    rw [wireBytes, hsend] at hnew
    refine ⟨hs.numbered_snoc hcount, .dead (.of_unlocked rfl hlock), (Nat.le_succ _).trans hlen.ge,
      hlen.le, hfits, hwritten, ⟨[], hnew⟩, fun hf => ?_⟩
    exact hs.finishing (hf.of_setStage (by simp))
  | hand i n rest hlock =>
    obtain ⟨hintact, hcount, hio, hfits, hclean⟩ := hs.writing hlock
    have hnew : o.writer.io ++ rest.take n ++ rest.drop n = wire (W := W) o.taken := by
      rw [List.append_assoc, List.take_append_drop, hio]
    refine ⟨hs.numbered, .busy i _ hintact rfl hcount hnew hfits hclean, hs.count, hs.last,
      hs.fits, ?_, ⟨_, hnew⟩, ?_⟩
    · exact hs.written.trans (List.prefix_append _ _)
    · intro hf
      exact hs.finishing (hf.of_lock rfl (by simp) rfl)
  | finish i job hlock =>
    obtain ⟨hintact, hcount, hio, hfits, hclean⟩ := hs.writing hlock
    rw [List.append_nil] at hio
    have hall : o.taken.take (o.writer.nextSeq + 1) = o.taken := by
      rw [← hcount, List.take_length]
    refine ⟨hs.numbered, .ready rfl rfl hcount ?_, hcount.ge, hcount.le.trans (Nat.le_succ _), ?_,
      ?_, hs.within, fun _ => Nat.succ_pos _⟩
    · intro t ht
      rcases mem_setStage ht with ht | ht
      · exact hclean t ht
      · rw [ht]
        exact job.next_abandoned
    · show ∀ x ∈ o.taken.take (o.writer.nextSeq + 1), _
      rw [hall]
      exact hfits
    · show wire (W := W) (o.taken.take (o.writer.nextSeq + 1)) <+: o.writer.io
      rw [hall, hio]
  | tear i rest s hlock hab =>
    obtain ⟨hintact, -⟩ := hs.writing hlock
    refine ⟨hs.numbered, .dead ⟨hintact, ?_⟩, hs.count, hs.last, hs.fits, hs.written, hs.within, ?_⟩
    · intro j rest hj
      cases hj
    · intro hf
      have hne : s ≠ .finishing := by
        rintro rfl
        exact hab
      exact hs.finishing ((hf.of_setStage hne).of_lock rfl (by simp) rfl)
  | closing i hlock h =>
    refine ⟨hs.numbered, .dead ⟨rfl, by simp⟩, hs.count, hs.last, hs.fits, hs.written,
      hs.within, ?_⟩
    intro _
    exact hs.finishing (.inl h)
  | unlock i shut s hlock hq =>
    refine ⟨hs.numbered, .dead ⟨?_, ?_⟩, hs.count, hs.last, hs.fits, hs.written, hs.within, ?_⟩
    · cases hs.condition with
      | ready _ hno _ _ => simp [hno] at hlock
      | busy j rest' _ hlock' _ _ _ _ => simp [hlock'] at hlock
      | dead hd => exact hd.torn
    · intro j rest hj
      cases hj
    · intro _
      exact hs.finishing (.inr (.inl ⟨i, hlock⟩))

theorem Sound.step (hs : o.Sound) (a : Act) : (o.step a).Sound := hs.steps (o.step_steps a)

end Outgoing

end Bus
