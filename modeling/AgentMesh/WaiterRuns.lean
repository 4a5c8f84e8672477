/-
Reply waiters under every interleaving.

The map of `Slots` decides to which registration a delivery goes; from there the
payload is sent and obtained, in steps of their own.

* `Flow.moves` — what a receiver gets was delivered to it, and once;
* `Told.moves` — who was the latest registration when it was delivered;
* `reply_waiters` — both, with the map, for every run.
-/
import AgentMesh.Runs
import AgentMesh.Waiters

open Mesh

namespace Bus

namespace Waiters

variable {w w' : Room} {log es : List Event}

/-! ### The payloads -/

def aboutTo (sending : List (ℕ × Bytes)) (r : ℕ) : List Bytes :=
  sending.filterMap fun x => if x.1 = r then some x.2 else none

/-- Everything that is on its way to a receiver, or there, was delivered to it,
and one payload at most. -/
structure Flow (w : Room) (log : List Event) : Prop where
  once : ∀ r, (deliveredTo log r).length ≤ 1
  way : ∀ r, (aboutTo w.sending r ++ w.inbox r ++ obtainedBy log r).Subperm (deliveredTo log r)

theorem Flow.new : Flow Room.new [] :=
  ⟨fun _ => Nat.zero_le _, fun _ => List.Subperm.refl _⟩

theorem Flow.silent (hf : Flow w log) {e : Event} (hto : ∀ r, e.payloadTo r = none)
    (hof : ∀ r, e.payloadOf r = none) : Flow w (log ++ [e]) := by
  refine ⟨?_, ?_⟩
  · intro r
    simpa [deliveredTo_snoc, hto] using hf.once r
  · intro r
    simpa [deliveredTo_snoc, obtainedBy_snoc, hto, hof] using hf.way r

theorem Flow.take (hs : Slots w log) (hf : Flow w log) {id : CorrelationId} {s : Slot}
    (found : w.waiters id = some s) (payload : Bytes) :
    Flow (w.take id s payload)
      (log ++ [.delivered s.sender id s.pending.expectedPeerFp payload]) := by
  obtain ⟨-, ⟨hnone, -⟩, -⟩ := (hs.slot id s).mp found
  refine ⟨?_, ?_⟩
  · intro r
    have hold := hf.once r
    by_cases hr : s.sender = r
    · subst hr
      simp [deliveredTo_snoc, hnone, Event.payloadTo]
    · simpa [deliveredTo_snoc, Event.payloadTo, hr] using hold
  · intro r
    have hold := hf.way r
    by_cases hr : s.sender = r
    · subst hr
      rw [hnone, List.subperm_nil, List.append_eq_nil_iff, List.append_eq_nil_iff] at hold
      obtain ⟨⟨habout, hinbox⟩, hobtained⟩ := hold
      have hafter : aboutTo (w.sending ++ [(s.sender, payload)]) s.sender = [payload] := by
        simpa [aboutTo] using habout
      simp [Room.take, hafter, hinbox, hobtained, hnone, deliveredTo_snoc, obtainedBy_snoc,
        Event.payloadTo, Event.payloadOf]
    · have hafter : aboutTo (w.sending ++ [(s.sender, payload)]) r = aboutTo w.sending r := by
        simp [aboutTo, hr]
      simpa [Room.take, hafter, deliveredTo_snoc, obtainedBy_snoc, Event.payloadTo,
        Event.payloadOf, hr] using hold

theorem aboutTo_eraseIdx {sending : List (ℕ × Bytes)} {k r : ℕ} {payload : Bytes}
    (h : sending[k]? = some (r, payload)) (r' : ℕ) :
    (aboutTo sending r').Perm
      ((if r = r' then [payload] else []) ++ aboutTo (sending.eraseIdx k) r') := by
  obtain ⟨hk, hget⟩ := List.getElem?_eq_some_iff.mp h
  have hperm := (List.getElem_cons_eraseIdx_perm hk).symm
  have hmapped := hperm.filterMap fun x : ℕ × Bytes => if x.1 = r' then some x.2 else none
  rw [hget] at hmapped
  refine hmapped.trans (List.Perm.of_eq ?_)
  by_cases hr : r = r' <;> simp [aboutTo, hr]

theorem Flow.send (hf : Flow w log) {k r : ℕ} {payload : Bytes}
    (about : w.sending[k]? = some (r, payload)) : Flow (w.send k r payload) log := by
  refine ⟨hf.once, fun r' => ?_⟩
  refine List.Subperm.trans ?_ (hf.way r')
  refine (List.subperm_append_right _).mpr ?_
  have hperm := aboutTo_eraseIdx about r'
  by_cases hr : r = r'
  · subst hr
    rw [if_pos rfl] at hperm
    by_cases hclosed : w.stage r = .closed
    · -- nobody is there to read it
      simp only [Room.send, hclosed, ↓reduceIte]
      refine (List.subperm_append_right _).mpr (List.Subperm.trans ?_ hperm.symm.subperm)
      exact (List.sublist_append_right _ _).subperm
    · simp only [Room.send, hclosed, ↓reduceIte, Function.update_self]
      refine List.Perm.subperm (List.Perm.trans ?_ (hperm.append_right _).symm)
      rw [List.append_assoc, ← List.append_assoc (aboutTo _ _)]
      exact List.perm_append_comm
  · have hinbox : (w.send k r payload).inbox r' = w.inbox r' := by
      have hne : r' ≠ r := fun h => hr h.symm
      simp only [Room.send]
      split
      · rfl
      · exact Function.update_of_ne hne _ _
    rw [hinbox]
    rw [if_neg hr, List.nil_append] at hperm
    exact (hperm.symm.append_right _).subperm

theorem Flow.poll (hf : Flow w log) {r : ℕ} {payload : Bytes} {rest : List Bytes}
    (sent : w.inbox r = payload :: rest) :
    Flow { w with inbox := Function.update w.inbox r rest } (log ++ [.obtained r payload]) := by
  refine ⟨?_, ?_⟩
  · intro r'
    simpa [deliveredTo_snoc, Event.payloadTo] using hf.once r'
  · intro r'
    have hold := hf.way r'
    by_cases hr : r = r'
    · subst hr
      rw [sent] at hold
      simp only [deliveredTo_snoc, obtainedBy_snoc, Event.payloadTo, Event.payloadOf, ↓reduceIte,
        Option.toList_none, Option.toList_some, List.append_nil, Function.update_self]
      -- the payload goes from the front of the inbox to the end of what was obtained
      refine List.Subperm.trans (List.Perm.subperm ?_) hold
      simp only [List.append_assoc, List.cons_append]
      refine List.Perm.append_left _ ?_
      rw [← List.append_assoc]
      exact List.perm_append_singleton payload (rest ++ obtainedBy log r)
    · have hne : r' ≠ r := fun h => hr h.symm
      simpa [deliveredTo_snoc, obtainedBy_snoc, Event.payloadTo, Event.payloadOf, hr,
        Function.update_of_ne hne] using hold

theorem Flow.close (hf : Flow w log) (r : ℕ) : Flow (w.close r) log := by
  refine ⟨hf.once, fun r' => List.Subperm.trans ?_ (hf.way r')⟩
  by_cases hr : r' = r
  · subst hr
    simp only [Room.close, Function.update_self, List.append_nil]
    exact ((List.sublist_append_left _ _).append_right _).subperm
  · simp only [Room.close, Function.update_of_ne hr]
    exact List.Subperm.refl _

theorem Flow.moves (hs : Slots w log) (hf : Flow w log) (h : Moves w w' es) :
    Flow w' (log ++ es) := by
  cases h with
  | idle => rwa [List.append_nil]
  | draw id peer =>
    rw [List.append_nil]
    exact ⟨hf.once, hf.way⟩
  | @insert r reg known drawn =>
    have hsame : Flow (w.insert r reg) log := ⟨hf.once, hf.way⟩
    exact hsame.silent (fun _ => rfl) (fun _ => rfl)
  | take found payload => exact hf.take hs found payload
  | send about =>
    rw [List.append_nil]
    exact hf.send about
  | poll sent => exact hf.poll sent
  | @cancel r reg known live =>
    have hsame : Flow (w.cancel r reg) log := ⟨hf.once, hf.way⟩
    exact hsame.silent (fun _ => rfl) (fun _ => rfl)
  | close cancelled =>
    rw [List.append_nil]
    exact hf.close _

/-! ### What came before what -/

/-- Each delivery was to the registration that was the latest of its id at that
moment, by the peer it expects; each receipt is of a payload delivered before. -/
structure Told (w : Room) (log : List Event) : Prop where
  delivered : ∀ before r id peer payload after,
    log = before ++ .delivered r id peer payload :: after →
      latest before id = some r ∧ ∃ reg, w.regs r = some reg ∧ reg.id = id ∧ reg.peer = peer
  obtained : ∀ before r payload after, log = before ++ .obtained r payload :: after →
    payload ∈ deliveredTo before r

theorem Told.new : Told Room.new [] := by
  refine ⟨?_, ?_⟩
  · intro before r id peer payload after h
    simp at h
  · intro before r payload after h
    simp at h

theorem Told.snoc (ht : Told w log)
    (regs : ∀ r reg, w.regs r = some reg → w'.regs r = some reg) {e : Event}
    (delivered : ∀ r id peer payload, e = .delivered r id peer payload →
      latest log id = some r ∧ ∃ reg, w.regs r = some reg ∧ reg.id = id ∧ reg.peer = peer)
    (obtained : ∀ r payload, e = .obtained r payload → payload ∈ deliveredTo log r) :
    Told w' (log ++ [e]) := by
  refine ⟨?_, ?_⟩
  · intro before r id peer payload after h
    have hold : latest before id = some r ∧
        ∃ reg, w.regs r = some reg ∧ reg.id = id ∧ reg.peer = peer := by
      rcases Steps.snoc_split.mp h with ⟨-, rfl, hx⟩ | ⟨after', -, hlog⟩
      · exact delivered r id peer payload hx.symm
      · exact ht.delivered before r id peer payload after' hlog
    obtain ⟨hlatest, reg, hreg, hid, hpeer⟩ := hold
    exact ⟨hlatest, reg, regs r reg hreg, hid, hpeer⟩
  · intro before r payload after h
    rcases Steps.snoc_split.mp h with ⟨-, rfl, hx⟩ | ⟨after', -, hlog⟩
    · exact obtained r payload hx.symm
    · exact ht.obtained before r payload after' hlog

theorem Told.quiet (ht : Told w log)
    (regs : ∀ r reg, w.regs r = some reg → w'.regs r = some reg) : Told w' log := by
  refine ⟨?_, ht.obtained⟩
  intro before r id peer payload after h
  obtain ⟨hlatest, reg, hreg, hid, hpeer⟩ := ht.delivered before r id peer payload after h
  exact ⟨hlatest, reg, regs r reg hreg, hid, hpeer⟩

theorem Told.moves (hw : Tokens w) (hs : Slots w log) (hf : Flow w log) (ht : Told w log)
    (h : Moves w w' es) : Told w' (log ++ es) := by
  have hregs : ∀ r reg, w.regs r = some reg → w'.regs r = some reg := fun r reg => h.regs hw
  cases h with
  | idle => rwa [List.append_nil]
  | draw id peer =>
    rw [List.append_nil]
    exact ht.quiet hregs
  | insert known drawn => exact ht.snoc hregs (by simp) (by simp)
  | @take id s found payload =>
    refine ht.snoc hregs ?_ (by simp)
    rintro r id' peer payload' heq
    cases heq
    obtain ⟨hlatest, -, reg, hreg, hid, hpend⟩ := (hs.slot id s).mp found
    refine ⟨hlatest, reg, hreg, hid, ?_⟩
    rw [hpend]
  | send about =>
    rw [List.append_nil]
    exact ht.quiet hregs
  | @poll r payload rest sent =>
    refine ht.snoc hregs (by simp) ?_
    rintro r' payload' heq
    cases heq
    refine (hf.way r).subset ?_
    simp [sent]
  | cancel known live => exact ht.snoc hregs (by simp) (by simp)
  | close cancelled =>
    rw [List.append_nil]
    exact ht.quiet hregs

/-! ### Every interleaving -/

structure Inv (w : Room) (log : List Event) : Prop where
  tokens : Tokens w
  slots : Slots w log
  flow : Flow w log
  told : Told w log

theorem Inv.step (hi : Inv w log) (few : w.count ≤ 2 ^ 64) (a : Act) :
    Inv (w.step a).1 (log ++ (w.step a).2) := by
  have hmoves := step_moves w a
  exact ⟨hi.tokens.moves hmoves, hi.slots.moves hi.tokens few hmoves,
    hi.flow.moves hi.slots hmoves, hi.told.moves hi.tokens hi.slots hi.flow hmoves⟩

theorem run_inv (acts : List Act) (few : (run acts).1.count ≤ 2 ^ 64) :
    Inv (run acts).1 (run acts).2 := by
  induction acts using List.reverseRecOn with
  | nil => exact ⟨.new, .new, .new, .new⟩
  | append_singleton acts a ih =>
    rw [run_snoc] at few ⊢
    have hgrows := (step_moves (run acts).1 a).count_le
    exact (ih (hgrows.trans few)).step (hgrows.trans few) a

def Act.isDraw : Act → Bool
  | .draw _ _ => true
  | _ => false

theorem step_count (w : Room) (a : Act) :
    (w.step a).1.count ≤ w.count + [a].countP Act.isDraw := by
  cases a with
  | draw id peer => exact le_rfl
  | _ =>
    simp only [Room.step]
    repeat' split
    all_goals exact le_rfl

theorem run_count (acts : List Act) : (run acts).1.count ≤ acts.countP Act.isDraw := by
  induction acts using List.reverseRecOn with
  | nil => exact le_rfl
  | append_singleton acts a ih =>
    rw [run_snoc, List.countP_append]
    exact (step_count _ a).trans (Nat.add_le_add_right ih _)

theorem Flow.obtainedBy_le (hf : Flow w log) (r : ℕ) : (obtainedBy log r).length ≤ 1 := by
  have hway := (hf.way r).length_le
  have honce := hf.once r
  rw [List.length_append] at hway
  omega

theorem mem_deliveredTo {log : List Event} {r : ℕ} {payload : Bytes} :
    payload ∈ deliveredTo log r ↔ ∃ id peer, .delivered r id peer payload ∈ log := by
  constructor
  · intro h
    obtain ⟨e, he, hpay⟩ := List.mem_filterMap.mp h
    cases e with
    | delivered r' id peer payload' =>
      obtain ⟨rfl, hsome⟩ := Option.ite_none_right_eq_some.mp hpay
      cases hsome
      exact ⟨id, peer, he⟩
    | inserted => cases hpay
    | obtained => cases hpay
    | dropped => cases hpay
  · rintro ⟨id, peer, h⟩
    exact List.mem_filterMap.mpr ⟨_, h, if_pos rfl⟩

theorem Told.obtained_from (ht : Told w log) (before : List Event) (r : ℕ) (payload : Bytes)
    (after : List Event) (h : log = before ++ .obtained r payload :: after) :
    ∃ earlier between reg, w.regs r = some reg ∧
      before = earlier ++ .delivered r reg.id reg.peer payload :: between ∧
      latest earlier reg.id = some r := by
  obtain ⟨id, peer, hmem⟩ := mem_deliveredTo.mp (ht.obtained before r payload after h)
  obtain ⟨earlier, between, rfl⟩ := List.append_of_mem hmem
  rw [List.append_assoc, List.cons_append] at h
  obtain ⟨hlatest, reg, hreg, rfl, rfl⟩ := ht.delivered _ _ _ _ _ _ h
  exact ⟨earlier, between, reg, hreg, rfl, hlatest⟩

theorem Slots.take_other (hs : Slots w log) (id : CorrelationId) (peer : Fingerprint)
    (payload : Bytes)
    (other : ∀ r reg, latest log id = some r → w.regs r = some reg → reg.peer ≠ peer) :
    w.step (.take id peer payload) = (w, []) := by
  cases hfound : w.waiters id with
  | none => simp [Room.step, hfound]
  | some s =>
    obtain ⟨hlatest, -, reg, hreg, -, hpend⟩ := (hs.slot id s).mp hfound
    have hne : s.pending.expectedPeerFp ≠ peer := by
      rw [hpend]
      exact other s.sender reg hlatest hreg
    simp [Room.step, hfound, hne]

theorem Inv.cancel_replaced (hi : Inv w log) (few : w.count ≤ 2 ^ 64) (r : ℕ) (reg : Registration)
    (known : w.regs r = some reg) (replaced : latest log reg.id ≠ some r) :
    (w.step (.cancel r)).1.waiters = w.waiters := by
  have hkeep : (w.cancel r reg).waiters = w.waiters := by
    funext id
    refine Option.ext fun s => ?_
    rw [Room.cancel_waiters hi.tokens few hi.slots known]
    refine ⟨And.left, fun hfound => ⟨hfound, ?_⟩⟩
    rintro rfl
    obtain ⟨hlatest, -, reg', hreg', hid, -⟩ := (hi.slots.slot id s).mp hfound
    rw [known] at hreg'
    cases hreg'
    exact replaced (hid ▸ hlatest)
  simp only [Room.step, known]
  split
  · exact hkeep
  · rfl

theorem Inv.isSome_waiters (hi : Inv w log) (id : CorrelationId) :
    (w.waiters id).isSome ↔
      ∃ r, latest log id = some r ∧ (∀ peer payload, .delivered r id peer payload ∉ log) ∧
        .dropped r ∉ log := by
  rw [Option.isSome_iff_exists]
  constructor
  · rintro ⟨s, hfound⟩
    obtain ⟨hlatest, ⟨hnone, hdropped⟩, -⟩ := (hi.slots.slot id s).mp hfound
    refine ⟨s.sender, hlatest, ?_, hdropped⟩
    intro peer payload hin
    have hmem := mem_deliveredTo.mpr ⟨id, peer, hin⟩
    rw [hnone] at hmem
    cases hmem
  · rintro ⟨r, hlatest, hnone, hdropped⟩
    obtain ⟨reg, hreg, rfl⟩ := hi.slots.names r id (mem_of_latest hlatest)
    refine ⟨⟨⟨reg.token, reg.peer⟩, r⟩, (hi.slots.slot _ _).mpr ?_⟩
    refine ⟨hlatest, ⟨?_, hdropped⟩, reg, hreg, rfl, rfl⟩
    refine List.eq_nil_iff_forall_not_mem.mpr fun payload hmem => ?_
    -- what is delivered to a registration is delivered under its own id
    obtain ⟨id', peer, hin⟩ := mem_deliveredTo.mp hmem
    obtain ⟨before, after, hlog⟩ := List.append_of_mem hin
    obtain ⟨-, reg', hreg', rfl, rfl⟩ := hi.told.delivered _ _ _ _ _ _ hlog
    rw [hreg] at hreg'
    cases hreg'
    exact hnone _ _ hin

/-- Fewer registrations than the counter has values, and every interleaving of
the steps of `register`, `deliver` and `drop`: a receiver obtains at most one
payload, and one that was delivered under its id by the peer it expects while it
was the latest registration of that id; a delivery by any other peer changes
nothing; dropping a receiver that was replaced leaves the map as it is; and the
map has an entry for an id exactly when the latest registration of it has been
neither delivered to nor dropped. -/
theorem reply_waiters (acts : List Act) (few : acts.countP Act.isDraw < 2 ^ 64) :
    (∀ r, (obtainedBy (run acts).2 r).length ≤ 1) ∧
    (∀ before r payload after, (run acts).2 = before ++ .obtained r payload :: after →
      ∃ earlier between reg, (run acts).1.regs r = some reg ∧
        before = earlier ++ .delivered r reg.id reg.peer payload :: between ∧
        latest earlier reg.id = some r) ∧
    (∀ id peer payload,
      (∀ r reg, latest (run acts).2 id = some r → (run acts).1.regs r = some reg →
        reg.peer ≠ peer) →
      (run acts).1.step (.take id peer payload) = ((run acts).1, [])) ∧
    (∀ r reg, (run acts).1.regs r = some reg → latest (run acts).2 reg.id ≠ some r →
      ((run acts).1.step (.cancel r)).1.waiters = (run acts).1.waiters) ∧
    (∀ id, ((run acts).1.waiters id).isSome ↔
      ∃ r, latest (run acts).2 id = some r ∧
        (∀ peer payload, .delivered r id peer payload ∉ (run acts).2) ∧
        .dropped r ∉ (run acts).2) := by
  have hcount : (run acts).1.count ≤ 2 ^ 64 := (run_count acts).trans few.le
  have hi := run_inv acts hcount
  refine ⟨?_, ?_, ?_, ?_, ?_⟩
  · exact hi.flow.obtainedBy_le
  · exact hi.told.obtained_from
  · exact hi.slots.take_other
  · exact hi.cancel_replaced hcount
  · exact hi.isSome_waiters

/-- An id is registered twice, for two peers; the first receiver is dropped after
it was replaced, the first peer answers in vain and the second is obtained. -/
theorem reply_waiters_replaced :
    (run [.draw ⟨0⟩ ⟨1⟩, .insert 0, .draw ⟨0⟩ ⟨2⟩, .insert 1, .cancel 0, .take ⟨0⟩ ⟨1⟩ [7],
        .take ⟨0⟩ ⟨2⟩ [8], .send 0, .poll 1]).2 =
      [.inserted 0 ⟨0⟩, .inserted 1 ⟨0⟩, .dropped 0, .delivered 1 ⟨0⟩ ⟨2⟩ [8], .obtained 1 [8]] ∧
    (obtainedBy (run [.draw ⟨0⟩ ⟨1⟩, .insert 0, .draw ⟨0⟩ ⟨2⟩, .insert 1, .cancel 0,
        .take ⟨0⟩ ⟨1⟩ [7], .take ⟨0⟩ ⟨2⟩ [8], .send 0, .poll 1]).2 1).length ≤ 1 :=
  ⟨by decide, (reply_waiters _ (by decide)).1 1⟩

end Waiters

end Bus
