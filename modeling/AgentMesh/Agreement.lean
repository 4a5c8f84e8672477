/-
Followers agree and never roll back.

A record names its predecessor, its index, its event and the certificate the
event was signed under.  So one record id at the head fixes the whole history
behind it: which events, in which order, and the state they lead to.  How the
events were grouped into frames and which signature bytes were used does not
matter.

* `State.Accepts.same` — two entries with one record, accepted in one state,
  carry the same event and lead to the same state;
* `Replays.agree_heads`, `Replays.agree_last` — equal heads, equal histories;
* `followers_agree` — for two followers, with the part about earlier records
  and the part about entries that never change.
-/
import AgentMesh.Handoff

open Std Mesh

namespace Flock

variable {P : Primitives} {g : MerkleNode Genesis}

/-- Two entries that differ in signature bytes only. -/
def Sealed.Same (x y : Sealed) : Prop := x.event = y.event ∧ x.record = y.record

/-- The signer is a function of the certificate, not of the signature bytes. -/
theorem Resolved.signer_eq {s : Sessions} {cert : CertChain} {sig sig' : Signature}
    {event : ContentId} {server : PubKey} {user : UserPublic} {epoch : ℕ} {a b : Signer}
    (ha : Resolved P s ⟨cert, sig⟩ event server user epoch a)
    (hb : Resolved P s ⟨cert, sig'⟩ event server user epoch b) : a = b := by
  cases ha with
  | server key signed =>
    cases hb with
    | server => rfl
    | device key' => exact absurd key key'
    | session _ key' => exact absurd key key'
  | device key issued registered signed =>
    cases hb with
    | server key' => exact absurd key' key
    | device => rfl
    | session _ _ issued' =>
      rw [issued] at issued'
      cases issued'
  | session x key issued known live recorded signed =>
    cases hb with
    | server key' => exact absurd key' key
    | device _ issued' =>
      rw [issued] at issued'
      cases issued'
    | session y _ _ known' =>
      rw [known] at known'
      cases known'
      rfl

theorem Admissible.conflict_eq {b : Board} {node : MerkleNode Event} {signer : Signer}
    {c c' : Option ConflictKind} (h : Admissible P b node signer c)
    (h' : Admissible P b node signer c') : c = c' := by
  have hc := admitEvent_recorded.mpr h
  rw [admitEvent_recorded.mpr h'] at hc
  exact (Option.some.inj hc).symm

/-- **One record, one step.** -/
theorem State.Accepts.same (hinj : P.IdsInjective) {st : State} {x y : Sealed}
    {cert cert' : CertChain} {signer signer' : Signer} {conflict conflict' : Option ConflictKind}
    (hx : st.Accepts P x cert signer conflict) (hy : st.Accepts P y cert' signer' conflict')
    (hid : P.recordId x.record = P.recordId y.record) :
    x.Same y ∧ st.after P x signer conflict = st.after P y signer' conflict' := by
  have hrec : x.record = y.record := hinj.record hid
  have hev : x.event = y.event := by
    refine hinj.event ?_
    rw [← hx.extend.event, ← hy.extend.event, hrec]
  have hcert : cert = cert' := by
    have h := hx.cited
    rw [hrec, hy.cited] at h
    cases h
    rfl
  subst hcert
  have hsigner : signer = signer' := by
    have hrx := resolve_ok hx.vetted.resolved
    have hry := resolve_ok hy.vetted.resolved
    rw [hrec, hev] at hrx
    exact hrx.signer_eq hry
  subst hsigner
  have hadm := hx.vetted.admissible
  rw [hev] at hadm
  have hconf := hadm.conflict_eq hy.vetted.admissible
  subst hconf
  exact ⟨⟨hev, hrec⟩, by rw [State.after, State.after, hev, hrec]⟩

/-- **Equal heads, equal histories**, for histories of one length. -/
theorem Replays.agree (hinj : P.IdsInjective) {xs ys : List Sealed} {st st' : State}
    (hx : Replays P g xs st) (hy : Replays P g ys st') (hlen : xs.length = ys.length)
    (hprev : st.chain.prev = st'.chain.prev) : List.Forall₂ Sealed.Same xs ys ∧ st = st' := by
  obtain ⟨s₀, h0, hrx⟩ := hx
  obtain ⟨s₀', h0', hry⟩ := hy
  rw [h0] at h0'
  cases h0'
  refine Steps.run_tip Sealed.Same (fun s => s.chain.prev) ?_ ?_ hlen hrx hry hprev
  · intro s t x y s' t' hs ht htip
    obtain ⟨cert, signer, conflict, hacc, rfl⟩ := State.replay_ok.mp hs
    obtain ⟨cert', signer', conflict', hacc', rfl⟩ := State.replay_ok.mp ht
    have hrec : x.record = y.record := hinj.record htip
    have hpar := hacc.extend.parents
    rw [hrec, hacc'.extend.parents] at hpar
    exact (Finset.singleton_injective hpar).symm
  · intro s x y s' t' hs ht htip
    obtain ⟨cert, signer, conflict, hacc, rfl⟩ := State.replay_ok.mp hs
    obtain ⟨cert', signer', conflict', hacc', rfl⟩ := State.replay_ok.mp ht
    exact hacc.same hinj hacc' htip

/-- Equal last records sit at equal positions, above equal histories. -/
theorem Replays.agree_last (hinj : P.IdsInjective) {p p' : List Sealed} {x y : Sealed}
    {st st' : State} (hx : Replays P g (p ++ [x]) st) (hy : Replays P g (p' ++ [y]) st')
    (hid : P.recordId x.record = P.recordId y.record) :
    List.Forall₂ Sealed.Same (p ++ [x]) (p' ++ [y]) ∧ st = st' := by
  obtain ⟨u, cert, signer, conflict, hu, hacc, rfl⟩ := Replays.snoc.mp hx
  obtain ⟨v, cert', signer', conflict', hv, hacc', rfl⟩ := Replays.snoc.mp hy
  have hrec : x.record = y.record := hinj.record hid
  have hindex := hacc.extend.index
  rw [hrec, hacc'.extend.index, hu.index, hv.index] at hindex
  exact hx.agree hinj hy (by simp; omega) hid

/-- Equal ids of the last records, if any, mean equal histories. -/
theorem Replays.agree_heads (hinj : P.IdsInjective) {xs ys : List Sealed} {st st' : State}
    (hx : Replays P g xs st) (hy : Replays P g ys st')
    (hid : xs.getLast?.map (fun x => P.recordId x.record) =
      ys.getLast?.map fun y => P.recordId y.record) :
    List.Forall₂ Sealed.Same xs ys ∧ st = st' := by
  rcases List.eq_nil_or_concat xs with rfl | ⟨p, x, rfl⟩ <;>
    rcases List.eq_nil_or_concat ys with rfl | ⟨p', y, rfl⟩
  · exact ⟨.nil, hx.unique hy⟩
  · simp at hid
  · simp at hid
  · simp only [List.concat_eq_append] at hx hy hid ⊢
    exact hx.agree_last hinj hy (by simpa using hid)

theorem Replays.upto {pre post : List Sealed} {x : Sealed} {st : State}
    (h : Replays P g (pre ++ x :: post) st) : ∃ u, Replays P g (pre ++ [x]) u := by
  rw [List.append_cons] at h
  obtain ⟨u, hu, -⟩ := h.of_append
  exact ⟨u, hu⟩

theorem map_event_of_same {xs ys : List Sealed} (h : List.Forall₂ Sealed.Same xs ys) :
    xs.map (·.event) = ys.map (·.event) := by
  induction h with
  | nil => rfl
  | cons hxy _ ih => rw [List.map_cons, List.map_cons, hxy.1, ih]

/-! ### Followers -/

theorem Follower.Reaches.head {frames : List (List Sealed)} {f : Follower}
    (h : Follower.Reaches P g frames f) : f.head = frames.flatten.getLast?.map Head.of := by
  obtain ⟨f₀, hnew, hrun⟩ := h
  obtain ⟨st, -, rfl⟩ := Follower.new_ok.mp hnew
  refine Steps.run_invariant (fun frames (f : Follower) =>
    f.head = frames.flatten.getLast?.map Head.of) rfl ?_ hrun
  intro frames f frame f' _ _ hf
  obtain ⟨⟨first, hfirst, -⟩, -, next, -, rfl⟩ := Follower.apply_ok.mp hf
  rw [List.flatten_append, List.flatten_singleton, List.getLast?_append]
  -- an accepted frame is not empty
  cases hl : frame.getLast? with
  | none =>
    rw [List.getLast?_eq_none_iff.mp hl] at hfirst
    cases hfirst
  | some last => rfl

/-- **Followers agree and never roll back.**  Equal record ids at the heads
mean the same events in the same order and the same state, for any grouping
and any signature bytes; equal ids at index `m` mean the same first `n ≤ m`
events; and an accepted frame changes no entry at or below the event count. -/
theorem followers_agree (hinj : P.IdsInjective) {frames frames' : List (List Sealed)}
    {f f' : Follower} (hF : Follower.Reaches P g frames f)
    (hG : Follower.Reaches P g frames' f') :
    (f.head.map (Head.id P) = f'.head.map (Head.id P) →
      frames.flatten.map (·.event) = frames'.flatten.map (·.event) ∧
        f.st.board = f'.st.board ∧ f.st.sessions = f'.st.sessions ∧
        f.st.chain.epoch = f'.st.chain.epoch ∧ f.admitted = f'.admitted) ∧
    (∀ n m p p' q q' x y, n ≤ f.admitted → n ≤ f'.admitted → n ≤ m →
      frames.flatten = p ++ x :: q → frames'.flatten = p' ++ y :: q' →
      x.record.payload.index = m → y.record.payload.index = m →
      P.recordId x.record = P.recordId y.record →
      (frames.flatten.take n).map (·.event) = (frames'.flatten.take n).map (·.event)) ∧
    (∀ frame next id e, f.apply P frame = .ok next → e.index ≤ f.admitted →
      (next.st.board.get id = some e ↔ f.st.board.get id = some e)) := by
  have hcount : ∀ {frames : List (List Sealed)} {f : Follower}, Follower.Reaches P g frames f →
      f.admitted = frames.flatten.length := by
    intro frames f h
    rw [Follower.admitted, h.replays.index, Nat.add_sub_cancel]
  refine ⟨fun hhead => ?_, ?_, ?_⟩
  · obtain ⟨hall, hst⟩ : List.Forall₂ Sealed.Same frames.flatten frames'.flatten ∧ f.st = f'.st :=
      hF.replays.agree_heads hinj hG.replays (by
        rw [hF.head, hG.head, Option.map_map, Option.map_map] at hhead
        exact hhead)
    rw [Follower.admitted, Follower.admitted, hst]
    exact ⟨map_event_of_same hall, rfl, rfl, rfl, rfl⟩
  · intro n m p p' q q' x y _ _ hnm hp hp' hm hm' hid
    have hrx := hF.replays
    have hry := hG.replays
    rw [hp] at hrx
    rw [hp'] at hry
    obtain ⟨u, hu⟩ := hrx.upto
    obtain ⟨v, hv⟩ := hry.upto
    have hpos : m = p.length + 1 := by
      obtain ⟨w, cert, signer, conflict, hw, hacc, -⟩ := hrx.split
      rw [← hm, hacc.extend.index, hw.index]
    obtain ⟨hall, -⟩ := hu.agree_last hinj hv hid
    have hlen := hall.length_eq
    simp only [List.length_append, List.length_singleton] at hlen
    -- the first `n` events lie in the part up to the shared record
    have htake : ∀ (r : List Sealed) (z : Sealed) (t : List Sealed), n ≤ r.length + 1 →
        (r ++ z :: t).take n = (r ++ [z]).take n := by
      intro r z t hn
      rw [List.append_cons, List.take_append_of_le_length (by simpa using hn)]
    rw [hp, hp', htake p x q (by omega), htake p' y q' (by omega), List.map_take, List.map_take,
      map_event_of_same hall]
  · intro frame next id e happ he
    obtain ⟨-, -, st, hst, rfl⟩ := Follower.apply_ok.mp happ
    rw [hcount hF] at he
    exact run_get hF.replays (State.replayFrame_run hst) he

set_option maxRecDepth 100000 in
/-- Two readers of the hand-over of the small flock, which group its first
events differently. -/
theorem followers_agree_regrouped :
    ∃ f f', Follower.Reaches Small.P Small.genesis Small.handover f ∧
      Follower.Reaches Small.P Small.genesis
        ([Small.invited, Small.started] :: Small.handover.drop 2) f' ∧
      f.st.board = f'.st.board ∧ f.st.sessions = f'.st.sessions ∧ f.admitted = f'.admitted := by
  obtain ⟨f, hf, hid⟩ := Small.handover_reached
  obtain ⟨f', hf', hid'⟩ : ∃ f, Follower.Reaches Small.P Small.genesis
      ([Small.invited, Small.started] :: Small.handover.drop 2) f ∧
      f.head.map (Head.id Small.P) = some (Small.rid 8) := by
    decide +kernel
  obtain ⟨-, hboard, hsessions, -, hcount⟩ :=
    (followers_agree Small.ids_injective hf hf').1 (hid.trans hid'.symm)
  exact ⟨f, f', hf, hf', hboard, hsessions, hcount⟩

end Flock
