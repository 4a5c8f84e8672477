/-
Resume points of the journal, and delivery after one.

A token names a record; `cursorFrom` looks for the frame that ends at the
token's index and compares record ids.  In a journal whose frames are not empty
and number their records contiguously, frames end at different indexes, so the
four outcomes tell exactly how the token stands to the journal.

A cursor then walks the journal while the writer publishes and may stop it:
`CursorRun` is the journal, one cursor and what its calls returned so far, and a
run is any interleaving of the three.  A call that finds nothing to return has
not returned: it looks again when it is woken.

* `ContiguousFrom.sorted` — frames end at increasing indexes;
* `cursorFrom_cases` — the four outcomes, each with what it says of the token;
* `CursorRun.run_delivers`, `CursorRun.Delivers.ended` — what the calls of any run returned,
  and what was returned before a call returned nothing;
* `resume_points` — these together.
-/
import AgentMesh.Journal
import AgentMesh.Ideal

open Std Mesh Framing Segments

namespace Flock

variable {P : Primitives}

/-! ### Contiguous journals -/

def Journal.records (frames : List Published) : List Sealed := frames.flatMap (·.1)

/-- No frame is empty, and the records are numbered from `first` on. -/
structure ContiguousFrom (first : ℕ) (frames : List Published) : Prop where
  nonempty : ∀ p ∈ frames, p.1 ≠ []
  indexes : (Journal.records frames).map (fun s => s.record.payload.index) =
    List.range' first (Journal.records frames).length

theorem ContiguousFrom.tail {first : ℕ} {p : Published} {frames : List Published}
    (h : ContiguousFrom first (p :: frames)) :
    lastIndex p.1 + 1 = first + p.1.length ∧ ContiguousFrom (first + p.1.length) frames := by
  obtain ⟨hne, hindexes⟩ := h
  have hsplit : p.1.map (fun s => s.record.payload.index) = List.range' first p.1.length ∧
      (Journal.records frames).map (fun s => s.record.payload.index) =
        List.range' (first + p.1.length) (Journal.records frames).length := by
    have hrecords : Journal.records (p :: frames) = p.1 ++ Journal.records frames := rfl
    rw [hrecords, List.map_append, List.length_append, ← List.range'_append_1] at hindexes
    exact List.append_inj hindexes (by simp)
  refine ⟨?_, fun q hq => hne q (List.mem_cons_of_mem p hq), hsplit.2⟩
  have hp := List.length_pos_of_ne_nil (hne p List.mem_cons_self)
  have hlast : lastIndex p.1 = ((p.1.map fun s => s.record.payload.index).getLast?).getD 0 := by
    rw [lastIndex, List.getLast?_map]
  rw [hlast, hsplit.1, List.getLast?_range']
  simp only [Nat.ne_of_gt hp, if_false, Option.getD_some]
  omega

/-- **Frames end at increasing indexes**, none before the first record. -/
theorem ContiguousFrom.sorted {frames : List Published} :
    ∀ {first : ℕ}, ContiguousFrom first frames →
      frames.Pairwise (fun p q => lastIndex p.1 < lastIndex q.1) ∧
        ∀ p ∈ frames, first ≤ lastIndex p.1 := by
  induction frames with
  | nil =>
    intro first _
    exact ⟨.nil, fun p hp => (nomatch hp)⟩
  | cons p frames ih =>
    intro first h
    obtain ⟨hlast, htail⟩ := h.tail
    obtain ⟨hsorted, hfirst⟩ := ih htail
    have hp := List.length_pos_of_ne_nil (h.nonempty p List.mem_cons_self)
    refine ⟨List.pairwise_cons.mpr ⟨fun q hq => ?_, hsorted⟩,
      List.forall_mem_cons.mpr ⟨by omega, fun q hq => ?_⟩⟩
    · have hq := hfirst q hq
      omega
    · have hq := hfirst q hq
      omega

/-- A journal as the server publishes it. -/
structure Contiguous (frames : List Published) : Prop where
  some_frame : frames ≠ []
  from_one : ContiguousFrom 1 frames

namespace Contiguous

variable {frames : List Published} {p q : Published}

theorem lastIndex_le_len (h : Contiguous frames) (hp : p ∈ frames) :
    lastIndex p.1 ≤ Journal.len frames := by
  obtain ⟨init, last, rfl⟩ : ∃ init last, frames = init ++ [last] :=
    ⟨_, _, (List.dropLast_append_getLast h.some_frame).symm⟩
  rw [Journal.len_snoc]
  obtain hp | hp := List.mem_append.mp hp
  · have hlt := (List.pairwise_append.mp h.from_one.sorted.1).2.2 p hp last (by simp)
    omega
  · rw [List.mem_singleton.mp hp]

theorem exists_len (h : Contiguous frames) : ∃ p ∈ frames, lastIndex p.1 = Journal.len frames := by
  obtain ⟨init, last, rfl⟩ : ∃ init last, frames = init ++ [last] :=
    ⟨_, _, (List.dropLast_append_getLast h.some_frame).symm⟩
  exact ⟨last, by simp, (Journal.len_snoc last).symm⟩

theorem eq_of_lastIndex (h : Contiguous frames) (hp : p ∈ frames) (hq : q ∈ frames)
    (heq : lastIndex p.1 = lastIndex q.1) : p = q := by
  have hnodup : (frames.map fun p => lastIndex p.1).Nodup :=
    List.pairwise_map.mpr (h.from_one.sorted.1.imp Nat.ne_of_lt)
  exact List.inj_on_of_nodup_map hnodup hp hq heq

theorem getLast (h : Contiguous frames) (hp : p ∈ frames) :
    ∃ s, p.1.getLast? = some s ∧ s.record.payload.index = lastIndex p.1 := by
  have hne := h.from_one.nonempty p hp
  refine ⟨p.1.getLast hne, List.getLast?_eq_some_getLast hne, ?_⟩
  rw [lastIndex, List.getLast?_eq_some_getLast hne]
  rfl

end Contiguous

/-! ### Where a token leads -/

theorem getElem?_partition {α : Type} (f : α → Bool) (l : List α) :
    l[(l.takeWhile f).length]? = l.find? fun x => !f x := by
  induction l with
  | nil => rfl
  | cons x l ih =>
    cases hx : f x with
    | false => simp [hx]
    | true => simpa [hx] using ih

namespace Journal

variable {frames : List Published} {h : Head}

/-- **The four outcomes**, each with how the token stands to the journal. -/
theorem cursorFrom_cases (hf : Contiguous frames) :
    (len frames < h.index ∧ cursorFrom P frames (some h) = .refused (.behind (len frames))) ∨
    ((h.index ≤ len frames ∧ ∀ p ∈ frames, lastIndex p.1 ≠ h.index) ∧
      cursorFrom P frames (some h) = .refused .notABoundary) ∨
    ∃ n p s, frames[n]? = some p ∧ p.1.getLast? = some s ∧ lastIndex p.1 = h.index ∧
      ((P.recordId s.record = h.id P ∧ cursorFrom P frames (some h) = .next (n + 1)) ∨
        (P.recordId s.record ≠ h.id P ∧ cursorFrom P frames (some h) = .refused .diverged)) := by
  simp only [cursorFrom]
  by_cases hlt : h.index > len frames
  · rw [if_pos hlt]
    exact .inl ⟨hlt, rfl⟩
  · right
    rw [if_neg hlt]
    cases hp : frames[(frames.takeWhile fun p => decide (lastIndex p.1 < h.index)).length]? with
    | none =>
      -- the last frame does not end before the token
      rw [getElem?_partition] at hp
      obtain ⟨last, hlast, hlen⟩ := hf.exists_len
      have hbefore := List.find?_eq_none.mp hp last hlast
      simp only [Bool.not_eq_true', decide_eq_false_iff_not, Nat.not_lt, Nat.not_le] at hbefore
      omega
    | some p =>
      have hfind := hp
      rw [getElem?_partition, List.find?_eq_some_iff_append] at hfind
      obtain ⟨hge, before, after, hsplit, hbefore⟩ := hfind
      simp only [Bool.not_eq_true', decide_eq_false_iff_not, Nat.not_lt] at hge
      have hmem : p ∈ frames := List.mem_of_getElem? hp
      obtain ⟨s, hs, -⟩ := hf.getLast hmem
      by_cases hidx : lastIndex p.1 = h.index
      · right
        refine ⟨_, p, s, hp, hs, hidx, ?_⟩
        simp only [hidx, ne_eq, not_true_eq_false, if_false, hs, Option.map_some,
          Option.some.injEq]
        by_cases hid : P.recordId s.record = h.id P
        · exact .inl ⟨hid, if_pos hid⟩
        · exact .inr ⟨hid, if_neg hid⟩
      · left
        simp only [ne_eq, hidx, not_false_eq_true, if_true, and_true]
        refine ⟨by omega, fun q hq heq => ?_⟩
        -- frames before this one end before the token, those after it later
        rw [hsplit] at hq
        obtain hq | hq := List.mem_append.mp hq
        · have hlt := hbefore q hq
          simp only [Bool.not_not, decide_eq_true_eq] at hlt
          omega
        · obtain rfl | hq := List.mem_cons.mp hq
          · exact hidx heq
          · have hsorted := hf.from_one.sorted.1
            rw [hsplit] at hsorted
            have hlt := (List.pairwise_cons.mp (List.pairwise_append.mp hsorted).2.1).1 q hq
            omega

variable (P h) in
theorem behind_iff (hf : Contiguous frames) :
    (∃ have_, cursorFrom P frames (some h) = .refused (.behind have_)) ↔ len frames < h.index := by
  rcases cursorFrom_cases hf with ⟨hA, hc⟩ | ⟨⟨hB, -⟩, hc⟩ | ⟨n, p, s, hp, -, hidx, hc⟩
  · rw [hc]
    exact ⟨fun _ => hA, fun _ => ⟨_, rfl⟩⟩
  · rw [hc]
    exact ⟨fun ⟨_, hx⟩ => (nomatch hx), fun hlt => absurd hlt (Nat.not_lt.mpr hB)⟩
  · have hle := hf.lastIndex_le_len (List.mem_of_getElem? hp)
    have hnot : ¬len frames < h.index := by omega
    rcases hc with ⟨-, hc⟩ | ⟨-, hc⟩ <;> rw [hc] <;>
      exact ⟨fun ⟨_, hx⟩ => (nomatch hx), fun hlt => absurd hlt hnot⟩

variable (P h) in
theorem notABoundary_iff (hf : Contiguous frames) :
    cursorFrom P frames (some h) = .refused .notABoundary ↔
      h.index ≤ len frames ∧ ∀ p ∈ frames, lastIndex p.1 ≠ h.index := by
  rcases cursorFrom_cases hf with ⟨hA, hc⟩ | ⟨hB, hc⟩ | ⟨n, p, s, hp, -, hidx, hc⟩
  · rw [hc]
    exact ⟨fun hx => (nomatch hx), fun hB => absurd hA (Nat.not_lt.mpr hB.1)⟩
  · rw [hc]
    exact ⟨fun _ => hB, fun _ => rfl⟩
  · have hnot : ¬(h.index ≤ len frames ∧ ∀ q ∈ frames, lastIndex q.1 ≠ h.index) :=
      fun hB => hB.2 p (List.mem_of_getElem? hp) hidx
    rcases hc with ⟨-, hc⟩ | ⟨-, hc⟩ <;> rw [hc] <;>
      exact ⟨fun hx => (nomatch hx), fun hB => absurd hB hnot⟩

variable (P h) in
theorem diverged_iff (hf : Contiguous frames) :
    cursorFrom P frames (some h) = .refused .diverged ↔ ∃ p ∈ frames, lastIndex p.1 = h.index ∧
      ∃ s, p.1.getLast? = some s ∧ P.recordId s.record ≠ h.id P := by
  rcases cursorFrom_cases hf with ⟨hA, hc⟩ | ⟨⟨-, hB⟩, hc⟩ | ⟨n, p, s, hp, hs, hidx, hc⟩
  · rw [hc]
    refine ⟨fun hx => (nomatch hx), ?_⟩
    rintro ⟨p, hp, hidx, -⟩
    have hle := hf.lastIndex_le_len hp
    omega
  · rw [hc]
    exact ⟨fun hx => (nomatch hx), fun ⟨p, hp, hidx, _⟩ => absurd hidx (hB p hp)⟩
  · have hmem := List.mem_of_getElem? hp
    rcases hc with ⟨hid, hc⟩ | ⟨hid, hc⟩
    · rw [hc]
      refine ⟨fun hx => (nomatch hx), ?_⟩
      rintro ⟨q, hq, hqidx, t, ht, hne⟩
      -- only one frame ends there
      obtain rfl := hf.eq_of_lastIndex hq hmem (hqidx.trans hidx.symm)
      cases ht.symm.trans hs
      exact absurd hid hne
    · rw [hc]
      exact ⟨fun _ => ⟨p, hmem, hidx, s, hs, hid⟩, fun _ => rfl⟩

theorem lastIndex_of_recordId (hinj : Function.Injective P.recordId) {p : Published} {s : Sealed}
    (hs : p.1.getLast? = some s) (hid : P.recordId s.record = h.id P) :
    lastIndex p.1 = h.index := by
  have hrecord : s.record = h.record := hinj hid
  rw [lastIndex, hs, Head.index, ← hrecord]
  rfl

variable (h) in
theorem next_iff (hinj : Function.Injective P.recordId) (hf : Contiguous frames) :
    (∃ start, cursorFrom P frames (some h) = .next start) ↔
      ∃ p ∈ frames, ∃ s, p.1.getLast? = some s ∧ P.recordId s.record = h.id P := by
  rcases cursorFrom_cases hf with ⟨hA, hc⟩ | ⟨⟨-, hB⟩, hc⟩ | ⟨n, p, s, hp, hs, hidx, hc⟩
  · rw [hc]
    refine ⟨fun ⟨_, hx⟩ => (nomatch hx), ?_⟩
    rintro ⟨p, hp, s, hs, hid⟩
    have hle := hf.lastIndex_le_len hp
    have hidx := lastIndex_of_recordId hinj hs hid
    omega
  · rw [hc]
    refine ⟨fun ⟨_, hx⟩ => (nomatch hx), ?_⟩
    rintro ⟨p, hp, s, hs, hid⟩
    exact absurd (lastIndex_of_recordId hinj hs hid) (hB p hp)
  · have hmem := List.mem_of_getElem? hp
    rcases hc with ⟨hid, hc⟩ | ⟨hne, hc⟩
    · rw [hc]
      exact ⟨fun _ => ⟨p, hmem, s, hs, hid⟩, fun _ => ⟨_, rfl⟩⟩
    · rw [hc]
      refine ⟨fun ⟨_, hx⟩ => (nomatch hx), ?_⟩
      rintro ⟨q, hq, t, ht, hid⟩
      have hqidx := lastIndex_of_recordId hinj ht hid
      obtain rfl := hf.eq_of_lastIndex hq hmem (hqidx.trans hidx.symm)
      cases ht.symm.trans hs
      exact absurd hid hne

end Journal

/-! ### Delivery -/

/-- The journal, one cursor, and what its calls returned so far. -/
structure CursorRun where
  frames : List Published
  stopped : Bool
  /-- The cursor's place. -/
  next : ℕ
  returned : List (Option Published)

inductive CursorAct where
  | publish (p : Published)
  | stop
  /-- A call of `next_frame` looks at the journal: it begins, or is woken. -/
  | next

namespace CursorRun

def step (w : CursorRun) : CursorAct → CursorRun
  | .publish p => { w with frames := w.frames ++ [p] }
  | .stop => { w with stopped := true }
  | .next =>
    match Journal.nextFrame w.frames w.stopped false w.next with
    | .frame p => { w with next := w.next + 1, returned := w.returned ++ [some p] }
    | .ended => { w with returned := w.returned ++ [none] }
    | .waits => w

def run (w : CursorRun) (acts : List CursorAct) : CursorRun := acts.foldl step w

def publishedBy : List CursorAct → List Published
  | [] => []
  | .publish p :: acts => p :: publishedBy acts
  | _ :: acts => publishedBy acts

theorem step_next_cases (w : CursorRun) :
    (∃ p, w.frames[w.next]? = some p ∧
      w.step .next = { w with next := w.next + 1, returned := w.returned ++ [some p] }) ∨
    (w.frames.length ≤ w.next ∧ w.stopped = true ∧
      w.step .next = { w with returned := w.returned ++ [none] }) ∨
    (w.frames.length ≤ w.next ∧ w.stopped = false ∧ w.step .next = w) := by
  simp only [step, Journal.nextFrame, Bool.false_eq_true, if_false]
  cases hp : w.frames[w.next]? with
  | some p => exact .inl ⟨p, rfl, rfl⟩
  | none =>
    have hle := List.getElem?_eq_none_iff.mp hp
    right
    cases hs : w.stopped with
    | true => exact .inl ⟨hle, rfl, rfl⟩
    | false => exact .inr ⟨hle, rfl, rfl⟩

/-- The calls returned the first `n` frames from place `start` on. -/
structure Delivers (start n : ℕ) (w : CursorRun) : Prop where
  place : w.next = start + n
  bound : start + n ≤ w.frames.length
  returned : w.returned.reduceOption = segment w.frames start n

theorem Delivers.step {start n : ℕ} {w : CursorRun} (h : w.Delivers start n) (a : CursorAct) :
    ∃ m, (w.step a).Delivers start m := by
  obtain ⟨hplace, hbound, hreturned⟩ := h
  cases a with
  | publish p =>
    refine ⟨n, hplace, ?_, ?_⟩
    · show start + n ≤ (w.frames ++ [p]).length
      rw [List.length_append]
      omega
    · show w.returned.reduceOption = segment (w.frames ++ [p]) start n
      rw [segment_grown (List.prefix_append _ _) hbound, hreturned]
  | stop => exact ⟨n, hplace, hbound, hreturned⟩
  | next =>
    rcases w.step_next_cases with ⟨p, hp, he⟩ | ⟨-, -, he⟩ | ⟨-, -, he⟩
    · rw [he]
      have hlt := (List.getElem?_eq_some_iff.mp hp).1
      rw [hplace] at hp
      refine ⟨n + 1, ?_, ?_, ?_⟩
      · show w.next + 1 = start + (n + 1)
        omega
      · show start + (n + 1) ≤ w.frames.length
        omega
      · show (w.returned ++ [some p]).reduceOption = segment w.frames start (n + 1)
        rw [List.reduceOption_append, hreturned, segment_succ hp]
        rfl
    · rw [he]
      refine ⟨n, hplace, hbound, ?_⟩
      show (w.returned ++ [none]).reduceOption = segment w.frames start n
      rw [List.reduceOption_append, hreturned]
      exact List.append_nil _
    · rw [he]
      exact ⟨n, hplace, hbound, hreturned⟩

/-- **What the calls of any run returned.** -/
theorem run_delivers {start : ℕ} (acts : List CursorAct) :
    ∀ {n : ℕ} {w : CursorRun}, w.Delivers start n → ∃ m, (w.run acts).Delivers start m := by
  induction acts with
  | nil => exact fun h => ⟨_, h⟩
  | cons a acts ih =>
    intro n w h
    obtain ⟨m, hm⟩ := h.step a
    exact ih hm

theorem run_frames {acts : List CursorAct} :
    ∀ {w : CursorRun}, (w.run acts).frames = w.frames ++ publishedBy acts := by
  induction acts with
  | nil =>
    intro w
    exact (List.append_nil _).symm
  | cons a acts ih =>
    intro w
    have hrun : (w.run (a :: acts)).frames = (w.step a).frames ++ publishedBy acts := ih
    rw [hrun]
    cases a with
    | publish p => simp [step, publishedBy]
    | stop => rfl
    | next =>
      rcases w.step_next_cases with ⟨p, -, he⟩ | ⟨-, -, he⟩ | ⟨-, -, he⟩ <;> rw [he] <;> rfl

/-- A call that returns nothing was made after everything was returned. -/
theorem Delivers.ended {start n : ℕ} {w : CursorRun} (h : w.Delivers start n)
    (hnone : (w.step .next).returned = w.returned ++ [none]) :
    w.stopped = true ∧ w.returned.reduceOption = w.frames.drop start := by
  rcases w.step_next_cases with ⟨p, -, he⟩ | ⟨hle, hstopped, -⟩ | ⟨-, -, he⟩
  · rw [he] at hnone
    simp at hnone
  · refine ⟨hstopped, ?_⟩
    have hplace := h.place
    have hbound := h.bound
    rw [h.returned]
    exact segment_to_end (by omega)
  · rw [he] at hnone
    simp at hnone

/-- Successive calls return the frames that are there, in order; then nothing if
the journal is stopped, and otherwise they wait. -/
theorem run_drain {k : ℕ} : ∀ (w : CursorRun), w.next ≤ w.frames.length →
    (w.run (List.replicate k .next)).returned =
      w.returned ++ ((w.frames.drop w.next).take k).map some ++
        List.replicate (if w.stopped then k - (w.frames.length - w.next) else 0) none := by
  induction k with
  | zero =>
    intro w _
    simp [run]
  | succ k ih =>
    intro w hle
    have hrun : (w.run (List.replicate (k + 1) .next)).returned =
        ((w.step .next).run (List.replicate k .next)).returned := rfl
    rw [hrun]
    rcases w.step_next_cases with ⟨p, hp, he⟩ | ⟨hend, hstopped, he⟩ | ⟨hend, hstopped, he⟩
    · obtain ⟨hlt, rfl⟩ := List.getElem?_eq_some_iff.mp hp
      rw [he, ih { w with next := w.next + 1, returned := w.returned ++ [some _] } hlt]
      have hcount : k - (w.frames.length - (w.next + 1)) = k + 1 - (w.frames.length - w.next) := by
        omega
      simp only [List.drop_eq_getElem_cons hlt, List.take_succ_cons, List.map_cons, hcount,
        List.append_assoc, List.cons_append, List.nil_append]
    · rw [he, ih { w with returned := w.returned ++ [none] } hle]
      have hdrop : w.frames.drop w.next = [] := List.drop_eq_nil_of_le hend
      have hcount : k + 1 - (w.frames.length - w.next) = k - (w.frames.length - w.next) + 1 := by
        omega
      simp [hdrop, hstopped, hcount, List.replicate_succ]
    · rw [he, ih w hle]
      have hdrop : w.frames.drop w.next = [] := List.drop_eq_nil_of_le hend
      simp [hdrop, hstopped]

end CursorRun

/-- **Resume points.**  In a journal of non-empty frames numbered contiguously
from one, the outcome of `cursorFrom` tells exactly how the token stands to it.
After a token was honoured, whatever is published, stopped and asked for in
whatever order, the calls of `next_frame` return the frames after the token's
in order, each once, later ones included; nothing is returned only once the
journal is stopped and everything was returned; and successive calls return
whatever is left before that. -/
theorem resume_points (hinj : Function.Injective P.recordId) {frames : List Published}
    (hframes : Contiguous frames) (h : Head) :
    ((∃ start, Journal.cursorFrom P frames (some h) = .next start) ↔
      ∃ p ∈ frames, ∃ s, p.1.getLast? = some s ∧ P.recordId s.record = h.id P) ∧
    ((∃ have_, Journal.cursorFrom P frames (some h) = .refused (.behind have_)) ↔
      Journal.len frames < h.index) ∧
    (Journal.cursorFrom P frames (some h) = .refused .notABoundary ↔
      h.index ≤ Journal.len frames ∧ ∀ p ∈ frames, lastIndex p.1 ≠ h.index) ∧
    (Journal.cursorFrom P frames (some h) = .refused .diverged ↔
      ∃ p ∈ frames, lastIndex p.1 = h.index ∧
        ∃ s, p.1.getLast? = some s ∧ P.recordId s.record ≠ h.id P) ∧
    ∀ start, Journal.cursorFrom P frames (some h) = .next start →
      (∃ n p s, start = n + 1 ∧ frames[n]? = some p ∧ p.1.getLast? = some s ∧
        P.recordId s.record = h.id P) ∧
      ∀ (stopped : Bool) (acts : List CursorAct),
        let w := (⟨frames, stopped, start, []⟩ : CursorRun).run acts
        w.frames = frames ++ CursorRun.publishedBy acts ∧
        (∃ n, w.next = start + n ∧ w.returned.reduceOption = (w.frames.drop start).take n) ∧
        ((w.step .next).returned = w.returned ++ [none] →
          w.stopped = true ∧ w.returned.reduceOption = w.frames.drop start) ∧
        ∀ k, (w.run (List.replicate k .next)).returned =
          w.returned ++ ((w.frames.drop w.next).take k).map some ++
            List.replicate (if w.stopped then k - (w.frames.length - w.next) else 0) none := by
  refine ⟨Journal.next_iff h hinj hframes, Journal.behind_iff P h hframes,
    Journal.notABoundary_iff P h hframes, Journal.diverged_iff P h hframes, ?_⟩
  intro start hstart
  have hresumes := Journal.cursorFrom_resumes hstart
  obtain ⟨n, p, s, rfl, hp, hs, -, hid⟩ := hresumes
  refine ⟨⟨n, p, s, rfl, hp, hs, hid⟩, fun stopped acts => ?_⟩
  have hlt := (List.getElem?_eq_some_iff.mp hp).1
  have hstart : CursorRun.Delivers (n + 1) 0 ⟨frames, stopped, n + 1, []⟩ := ⟨rfl, hlt, rfl⟩
  obtain ⟨m, hm⟩ := CursorRun.run_delivers acts hstart
  refine ⟨CursorRun.run_frames, ⟨m, hm.place, hm.returned⟩, hm.ended, fun k => ?_⟩
  exact CursorRun.run_drain _ (hm.place ▸ hm.bound)

/-- An invite and the start of a session, each in its own frame. -/
noncomputable def Small.twoFrames : List Published := [([Small.invited], ∅), ([Small.started], ∅)]

theorem Small.twoFrames_contiguous : Contiguous Small.twoFrames :=
  ⟨by simp [Small.twoFrames], by simp [Small.twoFrames], rfl⟩

/-- A reader that has the invite resumes after it. -/
theorem resume_points_invited :
    ∃ start, Journal.cursorFrom Small.P Small.twoFrames (some (.of Small.invited)) =
      .next start := by
  have hpoints := resume_points Small.ids_injective.record Small.twoFrames_contiguous
    (.of Small.invited)
  exact hpoints.1.mpr ⟨([Small.invited], ∅), by simp [Small.twoFrames], Small.invited, rfl, rfl⟩

end Flock
