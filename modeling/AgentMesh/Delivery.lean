/-
What a watcher gets.

A worker writes the frames of the journal one after another, whatever is
published meanwhile, and looks for the end of its session only at frames with
an epoch event.  That is enough once a stream is under way: a session loses its
place only at such a frame.

* `Watch.Follows` — what holds of the worker and the journal in every run;
* `stream_stops_with_session` — frames are written in order, without gap or
  repetition, and none after the one that ends the session's eligibility, as
  long as the resume point is not past that frame;
* `replay_reaches_end` — the history is replayed to its end exactly when no
  past frame reads as the end of the session.
-/
import AgentMesh.Stream

open Std Mesh Framing Segments

namespace Flock

variable {P : Primitives} {g : MerkleNode Genesis}

/-! ### Frames written -/

def sentFrames (sent : List Resp) : List (List Sealed) :=
  sent.filterMap fun
    | .frame f => some f
    | _ => none

theorem sentFrames_append (xs ys : List Resp) :
    sentFrames (xs ++ ys) = sentFrames xs ++ sentFrames ys := List.filterMap_append

@[simp] theorem sentFrames_frame (f : List Sealed) (rest : List Resp) :
    sentFrames (.frame f :: rest) = f :: sentFrames rest := rfl

theorem sentFrames_sent {r : Resp} (h : ∀ f, r ≠ .frame f) (w : Sock) :
    sentFrames (w.sent r) = [] := by
  cases r with
  | frame f => exact absurd rfl (h f)
  | caught | closed | behind | diverged => cases w <;> rfl

def Phase.next : Phase → Option ℕ
  | .placed next => some next
  | .measured next _ => some next
  | .dated next _ _ => some next
  | .looping l => some l.next
  | .ended => none

/-- The index from which a worker looks for the end of its session. -/
def Phase.fromIndex : Phase → Option ℕ
  | .dated _ _ i => some i
  | .looping l => some l.fromIndex
  | .placed _ | .measured _ _ | .ended => none

/-- The frame reads as the end of `session`, to a worker that looks from index
`i` on. -/
def ReadsAsEnd (session : String) (i : ℕ) (p : Published) : Prop :=
  bumps p.1 = true ∧ i ≤ lastIndex p.1 ∧ session ∉ p.2

instance (session : String) (i : ℕ) (p : Published) : Decidable (ReadsAsEnd session i p) :=
  inferInstanceAs (Decidable (_ ∧ _ ∧ _))

/-- What one access of the loop does with frames. -/
inductive Loop.Moves (l : Loop) (frames : List Published) (session : String) :
    Phase → List (List Sealed) → Prop where
  | stays {l' : Loop} (next : l'.next = l.next) (date : l'.fromIndex = l.fromIndex) :
      Moves l frames session (.looping l') []
  | ends : Moves l frames session .ended []
  /-- A frame is written, and the stream ends. -/
  | last {p : Published} (frame : frames[l.next]? = some p) :
      Moves l frames session .ended [p.1]
  /-- A frame is written, and it does not read as the end of the session. -/
  | goes {p : Published} {l' : Loop} (frame : frames[l.next]? = some p)
      (next : l'.next = l.next + 1) (date : l'.fromIndex = l.fromIndex)
      (kept : p.1 ≠ [] → ¬ReadsAsEnd session l.fromIndex p) :
      Moves l frames session (.looping l') [p.1]

theorem lastIndex_getD {f : List Sealed} (h : f ≠ []) (n : ℕ) :
    (f.getLast?.map fun s => s.record.payload.index).getD n = lastIndex f := by
  rw [lastIndex, List.getLast?_eq_some_getLast h]
  rfl

theorem Journal.nextFrame_frame {frames : List Published} {stopped cancelled : Bool} {n : ℕ}
    {p : Published} :
    nextFrame frames stopped cancelled n = .frame p ↔
      cancelled = false ∧ frames[n]? = some p := by
  rw [nextFrame]
  cases cancelled with
  | true => simp
  | false =>
    cases h : frames[n]? with
    | some q => simp
    | none => cases stopped <;> simp

theorem Loop.step_moves (l : Loop) (frames : List Published) (stopped cancelled : Bool)
    (session : String) (w w' : Sock) :
    l.Moves frames session (l.step frames stopped cancelled session w w').1
      (sentFrames (l.step frames stopped cancelled session w w').2) := by
  rw [Loop.step]
  split
  · rw [sentFrames_sent (by simp)]
    split
    · exact .stays rfl rfl
    · exact .ends
  · split
    · exact .stays rfl rfl
    · rw [sentFrames_sent (by simp)]
      exact .ends
    · rename_i f eligible hframe
      have hp := (Journal.nextFrame_frame.mp hframe).2
      simp only
      split
      · cases w with
        | lost => exact .ends
        | done | broke => exact .last hp
      · split
        · rw [sentFrames_frame, sentFrames_sent (by simp)]
          exact .last hp
        · rename_i hkept
          refine .goes hp rfl rfl fun hne hends => ?_
          rw [lastIndex_getD hne] at hkept
          exact hkept hends

theorem Worker.step_looping {k : Worker} {l : Loop} (h : k.phase = .looping l) (s : Server P)
    (stopped : Bool) (w w' : Sock) :
    k.step s stopped w w' =
      { k with
        phase := (l.step s.journal stopped k.cancelled k.session w w').1
        sent := k.sent ++ (l.step s.journal stopped k.cancelled k.session w w').2 } := by
  rw [Worker.step, h]

theorem Worker.step_sent (k : Worker) (s : Server P) (stopped : Bool) (w w' : Sock) :
    ∃ more, (k.step s stopped w w').sent = k.sent ++ more := by
  rw [Worker.step]
  split
  · exact ⟨[], (List.append_nil _).symm⟩
  · exact ⟨[], (List.append_nil _).symm⟩
  · exact ⟨[], (List.append_nil _).symm⟩
  · exact ⟨_, rfl⟩
  · exact ⟨[], (List.append_nil _).symm⟩

/-! ### Every run -/

/-- What holds of a stream for `session`, which started at index `i`, that was
placed at `start`. -/
structure Watch.Follows (g : MerkleNode Genesis) (session : String) (i start : ℕ) (x : Watch P) :
    Prop where
  journaled : Journaled P g x.server.journal x.server.st
  date : ∀ {s' : Server P}, x.server.Does s' → s'.sessionStartIndex session = some i
  owner : x.worker.session = session
  written : sentFrames x.worker.sent =
    segment x.server.frames start (sentFrames x.worker.sent).length
  within : start + (sentFrames x.worker.sent).length ≤ x.server.journal.length
  next : ∀ n, x.worker.phase.next = some n → n = start + (sentFrames x.worker.sent).length
  dated : ∀ n, x.worker.phase.fromIndex = some n → n = i
  /-- No frame it wrote and went on after reads as the end of the session. -/
  passed : ∀ j p, start ≤ j → x.server.journal[j]? = some p →
    j + (if x.worker.phase = .ended then 1 else 0) < start + (sentFrames x.worker.sent).length →
    ¬ReadsAsEnd session i p

section Follows

variable {session : String} {i start : ℕ} {x : Watch P}

theorem Server.frames_grow {s s' : Server P} (h : s.journal <+: s'.journal) :
    s.frames <+: s'.frames := h.map _

theorem Watch.Follows.grown (h : x.Follows g session i start) {s' : Server P}
    (hdoes : x.server.Does s') : Watch.Follows g session i start { x with server := s' } where
  journaled := hdoes.invariant (fun t => Journaled P g t.journal t.st)
    (fun he h => he.journaled h) h.journaled
  date := fun h' => h.date (hdoes.trans h')
  owner := h.owner
  written := by
    have hwithin : start + (sentFrames x.worker.sent).length ≤ x.server.frames.length := by
      rw [Server.frames, List.length_map]
      exact h.within
    rw [segment_grown (Server.frames_grow hdoes.journal_grows) hwithin]
    exact h.written
  within := h.within.trans hdoes.journal_grows.length_le
  next := h.next
  dated := h.dated
  passed := by
    intro j p hj hp hlt
    have hlen := h.within
    have hwritten : j < start + (sentFrames x.worker.sent).length :=
      Nat.lt_of_le_of_lt (by omega) hlt
    have hold := getElem?_within hdoes.journal_grows (by omega) hp
    exact h.passed j p hj hold hlt

theorem Watch.Follows.turned (h : x.Follows g session i start) {k : Worker}
    (hsession : k.session = x.worker.session) (hsent : k.sent = x.worker.sent)
    (hnext : ∀ n, k.phase.next = some n → x.worker.phase.next = some n)
    (hdate : ∀ n, k.phase.fromIndex = some n → n = i)
    (hlive : k.phase ≠ .ended → x.worker.phase ≠ .ended) :
    Watch.Follows g session i start { x with worker := k } where
  journaled := h.journaled
  date := h.date
  owner := hsession.trans h.owner
  written := by
    rw [hsent]
    exact h.written
  within := by
    rw [hsent]
    exact h.within
  next := by
    rw [hsent]
    exact fun n hn => h.next n (hnext n hn)
  dated := hdate
  passed := by
    rw [hsent]
    intro j p hj hp hlt
    refine h.passed j p hj hp ?_
    by_cases hended : k.phase = .ended
    · rw [if_pos hended] at hlt
      split <;> omega
    · rw [if_neg (hlive hended)]
      rwa [if_neg hended] at hlt

theorem Watch.Follows.looped (h : x.Follows g session i start) {l : Loop} {phase : Phase}
    {out : List Resp} (hphase : x.worker.phase = .looping l)
    (hmoves : l.Moves x.server.journal x.worker.session phase (sentFrames out)) :
    Watch.Follows g session i start
      { x with worker := { x.worker with phase := phase, sent := x.worker.sent ++ out } } := by
  rw [h.owner] at hmoves
  have hnext : l.next = start + (sentFrames x.worker.sent).length :=
    h.next l.next (by rw [hphase]; rfl)
  have hdate : l.fromIndex = i := h.dated l.fromIndex (by rw [hphase]; rfl)
  have hrunning : x.worker.phase ≠ .ended := by
    rw [hphase]
    intro h
    cases h
  -- writing the frame under the cursor
  have hwrites : ∀ {p : Published}, x.server.journal[l.next]? = some p →
      sentFrames (x.worker.sent ++ out) = sentFrames x.worker.sent ++ [p.1] →
      sentFrames (x.worker.sent ++ out) =
        segment x.server.frames start (sentFrames (x.worker.sent ++ out)).length ∧
      start + (sentFrames (x.worker.sent ++ out)).length ≤ x.server.journal.length := by
    intro p hp hout
    have hframe : x.server.frames[start + (sentFrames x.worker.sent).length]? = some p.1 := by
      rw [← hnext, Server.frames, List.getElem?_map, hp]
      rfl
    have hlt := (List.getElem?_eq_some_iff.mp hp).1
    rw [hout, List.length_append]
    constructor
    · show _ = segment _ _ (_ + 1)
      rw [segment_succ hframe, ← h.written]
    · show start + (_ + 1) ≤ _
      omega
  have happend : sentFrames (x.worker.sent ++ out) = sentFrames x.worker.sent ++ sentFrames out :=
    sentFrames_append _ _
  generalize hsent : x.worker.sent ++ out = sent at hwrites happend ⊢
  generalize sentFrames out = fs at hmoves happend
  cases hmoves with
  | stays hsame hdate' =>
    rw [List.append_nil] at happend
    refine ⟨h.journaled, h.date, h.owner, ?_, ?_, ?_, ?_, ?_⟩ <;> simp only [happend]
    · exact h.written
    · exact h.within
    · rintro n ⟨⟩
      rw [hsame, hnext]
    · rintro n ⟨⟩
      rw [hdate', hdate]
    · intro j p hj hp hlt
      exact h.passed j p hj hp (by rw [if_neg hrunning]; simpa using hlt)
  | ends =>
    rw [List.append_nil] at happend
    refine ⟨h.journaled, h.date, h.owner, ?_, ?_, ?_, ?_, ?_⟩ <;> simp only [happend]
    · exact h.written
    · exact h.within
    · rintro n ⟨⟩
    · rintro n ⟨⟩
    · intro j p hj hp hlt
      refine h.passed j p hj hp ?_
      rw [if_neg hrunning]
      rw [if_pos trivial] at hlt
      omega
  | last hp =>
    obtain ⟨hsegment, hwithin⟩ := hwrites hp happend
    refine ⟨h.journaled, h.date, h.owner, hsegment, hwithin, ?_, ?_, ?_⟩
    · rintro n ⟨⟩
    · rintro n ⟨⟩
    · intro j q hj hq hlt
      refine h.passed j q hj hq ?_
      simp only [happend, List.length_append, List.length_singleton, if_true] at hlt
      rw [if_neg hrunning]
      omega
  | @goes p l' hp hsucc hdate' hkept =>
    obtain ⟨hsegment, hwithin⟩ := hwrites hp happend
    refine ⟨h.journaled, h.date, h.owner, hsegment, hwithin, ?_, ?_, ?_⟩
    · rintro n ⟨⟩
      simp only [happend, List.length_append, List.length_singleton]
      omega
    · rintro n ⟨⟩
      rw [hdate', hdate]
    · intro j q hj hq hlt
      simp only [happend, List.length_append, List.length_singleton, reduceCtorEq, if_false] at hlt
      by_cases hlast : j = l.next
      · -- the frame just written
        rw [hlast, hp] at hq
        cases hq
        exact hdate ▸ hkept (h.journaled.nonempty hp)
      · refine h.passed j q hj hq ?_
        rw [if_neg hrunning]
        omega

/-- **Every act keeps it.** -/
theorem Watch.Follows.step (h : x.Follows g session i start) (a : Act) :
    (x.step a).Follows g session i start := by
  cases a with
  | call c io => exact h.grown (x.server.call_outcome c io).does
  | stop => exact ⟨h.journaled, h.date, h.owner, h.written, h.within, h.next, h.dated, h.passed⟩
  | cancel => exact h.turned rfl rfl (fun _ hn => hn) h.dated fun hn => hn
  | work w w' =>
    rw [Watch.step, Worker.step]
    cases hphase : x.worker.phase with
    | placed next =>
      have hrunning : x.worker.phase ≠ .ended := by
        rw [hphase]
        nofun
      refine h.turned rfl rfl ?_ ?_ fun _ => hrunning <;> intro n hn
      · simp only at hn
        rw [hphase]
        split at hn
        · exact hn
        · cases hn
      · simp only at hn
        split at hn <;> cases hn
    | measured next replayEnd =>
      refine h.turned rfl rfl ?_ ?_ fun _ => by rw [hphase]; nofun
      · intro n hn
        rw [hphase]
        exact hn
      · rintro n ⟨⟩
        rw [h.owner, h.date .refl]
        rfl
    | dated next replayEnd fromIndex =>
      refine h.turned rfl rfl ?_ ?_ fun _ => by rw [hphase]; nofun
      · intro n hn
        rw [hphase]
        exact hn
      · rintro n ⟨⟩
        exact h.dated fromIndex (by rw [hphase]; rfl)
    | looping l =>
      exact h.looped hphase (l.step_moves _ x.stopped x.worker.cancelled _ w w')
    | ended => exact h

theorem Watch.Follows.run (h : x.Follows g session i start) (acts : List Act) :
    (x.run acts).Follows g session i start :=
  Watch.run_invariant (fun x => x.Follows g session i start) (fun h => h.step _) h acts

end Follows

theorem Watch.run_does (x : Watch P) (acts : List Act) : x.server.Does (x.run acts).server := by
  refine Watch.run_invariant (fun y => x.server.Does y.server) ?_ .refl acts
  intro y a hy
  cases a with
  | call c io => exact hy.trans (y.server.call_outcome c io).does
  | stop | cancel | work => exact hy

/-! ### A stream under way -/

theorem stream_placed {frames : List Published} {session : String} {from_ : Option Head}
    {start : ℕ} (h : Journal.cursorFrom P frames from_ = .next start) (w : Sock) :
    stream P frames session from_ w = ⟨session, .placed start, false, []⟩ := by
  rw [stream, h]

theorem Watch.follows_opened {s : Server P} (h : Journaled P g s.journal s.st) {session : String}
    (hsession : session ∈ s.st.eligible) (calls : List (Call × Io)) {from_ : Option Head}
    {start : ℕ} (hcursor : Journal.cursorFrom P (s.serve calls).journal from_ = .next start)
    (stopped : Bool) :
    ∃ i ≤ Journal.len s.journal, Watch.Follows g session i start
      ⟨s.serve calls, stopped, stream P (s.serve calls).journal session from_ .done⟩ := by
  obtain ⟨i, hi, hdate⟩ := Server.startIndex_kept h hsession
  refine ⟨i, hi, ?_⟩
  rw [stream_placed hcursor]
  refine ⟨Server.serve_journaled h calls, fun hdoes => hdate ((s.serve_does calls).trans hdoes),
    rfl, rfl, (Journal.cursorFrom_resumes hcursor).le_length, ?_, nofun, ?_⟩
  · rintro n ⟨⟩
    rfl
  · intro j p hj hp hlt
    have hlt' : j + 0 < start + 0 := hlt
    omega

theorem Loop.step_done {l : Loop} {frames : List Published} {p : Published}
    (hp : frames[l.next]? = some p) (hne : p.1 ≠ []) (stopped : Bool) (session : String) :
    l.step frames stopped false session .done .done =
      if l.caught = false ∧ l.replayEnd ≤ l.at_ then
        (.looping { l with caught := true }, [.caught l.at_])
      else if ReadsAsEnd session l.fromIndex p then
        (.ended, [.frame p.1, .closed "your session ended or its member left the roster"])
      else (.looping { l with next := l.next + 1, at_ := lastIndex p.1 }, [.frame p.1]) := by
  have hframe : Journal.nextFrame frames stopped false l.next = .frame p :=
    Journal.nextFrame_frame.mpr ⟨rfl, hp⟩
  rw [Loop.step, hframe]
  simp only [lastIndex_getD hne]
  rfl

section Loss

variable {session : String} {i start k : ℕ} {x : Watch P} {p : Published}

/-- **A worker does not go past the frame that ends its session.** -/
theorem Watch.Follows.stops (h : x.Follows g session i start) (hp : x.server.journal[k]? = some p)
    (hends : ReadsAsEnd session i p) (hk : start ≤ k) :
    start + (sentFrames x.worker.sent).length ≤ k + 1 ∧
      (x.worker.phase ≠ .ended → start + (sentFrames x.worker.sent).length ≤ k) := by
  have hpassed : ¬k + (if x.worker.phase = .ended then 1 else 0) <
      start + (sentFrames x.worker.sent).length :=
    fun hlt => h.passed k p hk hp hlt hends
  constructor
  · split at hpassed <;> omega
  · intro hrunning
    rw [if_neg hrunning] at hpassed
    omega

/-- How many accesses a worker needs at most to write the frame at `k`. -/
def Phase.rank (k : ℕ) : Phase → ℕ
  | .placed next => 2 * (k - next) + 5
  | .measured next _ => 2 * (k - next) + 4
  | .dated next _ _ => 2 * (k - next) + 3
  | .looping l => 2 * (k - l.next) + (if l.caught then 1 else 2)
  | .ended => 0

/-- An access of a worker that is before place `k` while the peer reads: it
comes closer, or it closes because its session is over. -/
theorem Watch.Follows.comes_closer (h : x.Follows g session i start)
    (hrunning : x.worker.phase ≠ .ended) (hpeer : x.worker.cancelled = false)
    (hbefore : start + (sentFrames x.worker.sent).length ≤ k)
    (hp : x.server.journal[k]? = some p) (hends : ReadsAsEnd session i p) :
    ((x.step (.work .done .done)).worker.phase ≠ .ended ∧
      (x.step (.work .done .done)).worker.phase.rank k < x.worker.phase.rank k) ∨
    ((x.step (.work .done .done)).worker.phase = .ended ∧ ∃ q,
      x.server.journal[start + (sentFrames x.worker.sent).length]? = some q ∧ session ∉ q.2 ∧
        sentFrames (x.step (.work .done .done)).worker.sent =
          sentFrames x.worker.sent ++ [q.1]) := by
  rw [Watch.step, Worker.step]
  cases hphase : x.worker.phase with
  | placed next =>
    refine .inl ⟨by simp, ?_⟩
    show 2 * (k - next) + 4 < 2 * (k - next) + 5
    omega
  | measured next replayEnd =>
    refine .inl ⟨by simp, ?_⟩
    show 2 * (k - next) + 3 < 2 * (k - next) + 4
    omega
  | dated next replayEnd fromIndex =>
    refine .inl ⟨by simp, ?_⟩
    show 2 * (k - next) + 2 < 2 * (k - next) + 3
    omega
  | looping l =>
    have hnext : l.next = start + (sentFrames x.worker.sent).length :=
      h.next l.next (by rw [hphase]; rfl)
    have hdate : l.fromIndex = i := h.dated l.fromIndex (by rw [hphase]; rfl)
    obtain ⟨q, hq⟩ : ∃ q, x.server.journal[l.next]? = some q :=
      ⟨_, List.getElem?_eq_getElem (by have := (List.getElem?_eq_some_iff.mp hp).1; omega)⟩
    simp only [hpeer, Loop.step_done hq (h.journaled.nonempty hq)]
    by_cases hcaught : l.caught = false ∧ l.replayEnd ≤ l.at_
    · rw [if_pos hcaught]
      refine .inl ⟨by simp, ?_⟩
      simp [Phase.rank, hcaught.1]
    · rw [if_neg hcaught]
      by_cases hover : ReadsAsEnd x.worker.session l.fromIndex q
      · rw [if_pos hover]
        refine .inr ⟨rfl, q, hnext ▸ hq, h.owner ▸ hover.2.2, ?_⟩
        rw [sentFrames_append]
        rfl
      · rw [if_neg hover]
        -- at `k` the frame would have ended the stream
        have hlt : l.next ≠ k := by
          intro heq
          rw [heq, hp] at hq
          cases hq
          rw [hdate, h.owner] at hover
          exact hover hends
        refine .inl ⟨by simp, ?_⟩
        have hcloser : k - (l.next + 1) < k - l.next := by omega
        simp only [Phase.rank]
        split <;> omega
  | ended => exact absurd hphase hrunning

/-- **With the peer reading, the worker reaches the frame that ends its session
or closes before it.** -/
theorem Watch.Follows.finishes (h : x.Follows g session i start)
    (hrunning : x.worker.phase ≠ .ended) (hpeer : x.worker.cancelled = false)
    (hp : x.server.journal[k]? = some p) (hends : ReadsAsEnd session i p) (hk : start ≤ k) :
    ∃ m j q, (x.run (List.replicate m (.work .done .done))).worker.phase = .ended ∧
      x.server.journal[j]? = some q ∧ session ∉ q.2 ∧ j ≤ k ∧
      start + (sentFrames (x.run (List.replicate m (.work .done .done))).worker.sent).length =
        j + 1 := by
  -- by induction on how far the worker still has to go
  induction hd : x.worker.phase.rank k using Nat.strong_induction_on generalizing x with
  | _ d ih =>
    have hbefore := (h.stops hp hends hk).2 hrunning
    rcases h.comes_closer hrunning hpeer hbefore hp hends with
      ⟨hrunning', hrank⟩ | ⟨hended, q, hq, hqlost, hsent⟩
    · have hserver : (x.step (.work .done .done)).server = x.server := rfl
      have hpeer' : (x.step (.work .done .done)).worker.cancelled = false := by
        rw [← hpeer, Watch.step, Worker.step]
        cases x.worker.phase <;> rfl
      obtain ⟨m, j, q, hend, hq⟩ := ih _ (hd ▸ hrank) (h.step _) hrunning' hpeer'
        (by rw [hserver]; exact hp) rfl
      exact ⟨m + 1, j, q, hend, hq⟩
    · refine ⟨1, _, q, hended, hq, hqlost, hbefore, ?_⟩
      show start + (sentFrames (x.step (.work .done .done)).worker.sent).length = _
      rw [hsent, List.length_append]
      rfl

end Loss

/-! ### The small flock, watched

A session of `h` is enrolled.  It is ended and another member is invited; or
the roster drops `h` and lists it again, and the session is renewed. -/

namespace Small

noncomputable def endedLater : Sealed :=
  entry 2 1 (event .sessionEnd "k" (some (eid 1)) [("session", eid 1)] 3
    (.sessionEnd "kk" .closed)) (rid 1) 3 0 (cid 0)

noncomputable def bumpedEnd : Sealed :=
  entry 3 1 (event .epoch "k" (some (eid 2)) [] 4 (.epoch 1)) (rid 2) 4 1 (cid 0)

noncomputable def invitedLate : Sealed :=
  entry 4 1 (event .invite "k" (some (eid 3)) [] 5 (.invite "w" ⟨utf8 "kkkkkk"⟩))
    (rid 3) 5 1 (cid 0)

noncomputable def droppedLater : Sealed :=
  entry 5 1 (event .roster "k" (some (eid 1)) [("replaces", gid)] 3
    (.roster [helper, operator] [])) (rid 1) 3 0 (cid 0)

noncomputable def bumpedLater : Sealed :=
  entry 6 1 (event .epoch "k" (some (eid 5)) [] 4 (.epoch 1)) (rid 5) 4 1 (cid 0)

noncomputable def restored : Sealed :=
  entry 7 1 (event .roster "k" (some (eid 6)) [("replaces", eid 5)] 5
    (.roster [shepherd, helper, operator] [])) (rid 6) 5 1 (cid 0)

noncomputable def renewedLater : Sealed :=
  entry 8 1 (event .renewal "k" (some (eid 7)) [("session", eid 1)] 6
    (.renewal "kk" 1 (sessionCert 2 "h" 1))) (rid 7) 6 1 (cid 0)

noncomputable def watchedSealed : List Sealed :=
  [invited, started, endedLater, bumpedEnd, invitedLate, droppedLater, bumpedLater, restored,
    renewedLater]

noncomputable def watched : Tables :=
  { tables with
    events := watchedSealed.map (·.event)
    records := watchedSealed.map (·.record)
    frames := [⟨[invited]⟩, ⟨[started]⟩, ⟨[endedLater, bumpedEnd]⟩, ⟨[invitedLate]⟩,
      ⟨[droppedLater, bumpedLater]⟩, ⟨[restored]⟩, ⟨[renewedLater]⟩] }

noncomputable def watchedKey : AgentKey watched.primitives.toCrypto := ⟨1, serverCert, rfl⟩

/-- The session proves its key, with its certificate for `epoch`. -/
noncomputable def streamProof (epoch : ℕ) : Assertion :=
  ⟨sessionCert 2 "h" epoch, mark 2 (message ⟨[6]⟩)⟩

def enrolled : List (Call × Io) := begun ++ [finish 11 (drawing 0)]

def endsSession : Call × Io := (.endSession "kk" .closed, drawing 0)

def invitesHelper : Call × Io := (.invite "w", drawing 6)

/-- The member is dropped and listed again, and its session renewed. -/
noncomputable def lapsed : List (Call × Io) :=
  enrolled ++ [(.replaceRoster [helper, operator], drawing 0),
    (.replaceRoster [shepherd, helper, operator], drawing 0),
    (.renewBegin (sessionCert 2 "h" 0), drawing 12),
    (.renewFinish (challenge 12) (mark 2 (challenge 12).signingBytes), drawing 0)]

/-- The worker takes `n` accesses, with its peer reading. -/
def works (n : ℕ) : List Act := List.replicate n (.work .done .done)

end Small

/-- **A stream stops with its session.**  Between its authorization and its
cursor, and at any time after that, the server may do anything.  The frames
written are those of the journal from the resume point on, in order, without
gap or repetition.  Let the frame at `k` be the first published after the
authorization after which the session is not eligible, and the resume point not
past it: then no frame after it is written; and a worker that still runs, with
a peer that reads, goes on until it has written that frame, unless a frame
from before the authorization makes it close earlier. -/
theorem stream_stops_with_session {key : AgentKey P.toCrypto} {genesis : SignedGenesis}
    {logFile refusalFile : File} {s : Server P}
    (hopen : Server.open_ key genesis logFile refusalFile = .ok s)
    (before between : List (Call × Io)) {proof : Assertion} {challenge : ContentId}
    {session : String} (hauth : (s.serve before).authorizeStream proof challenge = .ok session)
    {from_ : Option Head} {start : ℕ}
    (hcursor : Journal.cursorFrom P ((s.serve before).serve between).journal from_ = .next start)
    (stopped : Bool) (acts : List Act) :
    let server := (s.serve before).serve between
    let x := (Watch.mk server stopped (stream P server.journal session from_ .done)).run acts
    let n := (sentFrames x.worker.sent).length
    Journal.Resumes P x.server.journal from_ start ∧
      start + n ≤ x.server.frames.length ∧
      sentFrames x.worker.sent = segment x.server.frames start n ∧
      ∀ k p, FirstLoss session (s.serve before).journal.length x.server.journal k p → start ≤ k →
        start + n ≤ k + 1 ∧
        (x.worker.phase ≠ .ended → x.worker.cancelled = false → ∃ m j q,
          (x.run (List.replicate m (.work .done .done))).worker.phase = .ended ∧
          start + (sentFrames (x.run (List.replicate m (.work .done .done))).worker.sent).length =
            j + 1 ∧
          x.server.journal[j]? = some q ∧ session ∉ q.2 ∧
          (j = k ∨ j < (s.serve before).journal.length)) := by
  intro server x n
  have hjournaled := Server.serve_journaled (Server.open_journaled hopen) before
  have hsession := Server.authorizeStream_eligible hauth
  obtain ⟨i, hi, hopened⟩ := Watch.follows_opened hjournaled hsession between hcursor stopped
  have hfollows := hopened.run acts
  have hdoes := Watch.run_does
    ⟨server, stopped, stream P server.journal session from_ .done⟩ acts
  have hgrown : (s.serve before).journal <+: x.server.journal :=
    (Server.serve_does _ between).journal_grows.trans hdoes.journal_grows
  refine ⟨(Journal.cursorFrom_resumes hcursor).grown hdoes.journal_grows, ?_, hfollows.written, ?_⟩
  · rw [Server.frames, List.length_map]
    exact hfollows.within
  · intro k p hloss hk
    have hb := hjournaled.loss hfollows.journaled hgrown hsession hloss
    have hpast := hfollows.journaled.len_lt hgrown hloss.frame hloss.after
    have hends : ReadsAsEnd session i p := ⟨hb, by omega, hloss.lost⟩
    refine ⟨(hfollows.stops hloss.frame hends hk).1, fun hrunning hpeer => ?_⟩
    obtain ⟨m, j, q, hended, hq, hqlost, hjk, hcount⟩ :=
      hfollows.finishes hrunning hpeer hloss.frame hends hk
    refine ⟨m, j, q, hended, hcount, hq, hqlost, ?_⟩
    -- in between the session was eligible after every frame
    by_contra hbetween
    exact hqlost (hloss.first j q (by omega) (by omega) hq)

set_option maxRecDepth 100000 in
theorem stream_stops_with_session_ended :
    ∃ s, Server.open_ Small.watchedKey Small.signedGenesis ⟨[], []⟩ ⟨[], []⟩ = .ok s ∧
      (s.serve Small.enrolled).authorizeStream (Small.streamProof 0) ⟨[6]⟩ = .ok "kk" ∧
      let server := s.serve Small.enrolled
      let x := (Watch.mk server false
        (stream Small.watched.primitives server.journal "kk" none .done)).run
          (Small.works 4 ++ [.call Small.endsSession.1 Small.endsSession.2,
            .call Small.invitesHelper.1 Small.invitesHelper.2] ++ Small.works 4)
      x.server.frames.length = 4 ∧
      sentFrames x.worker.sent =
        [[Small.invited], [Small.started], [Small.endedLater, Small.bumpedEnd]] ∧
      ∃ p, FirstLoss "kk" server.journal.length x.server.journal 2 p ∧
        0 + (sentFrames x.worker.sent).length ≤ 2 + 1 := by
  obtain ⟨s, hopen, hauth, hold, hframes, hsent, hlost⟩ :
      ∃ s, Server.open_ Small.watchedKey Small.signedGenesis ⟨[], []⟩ ⟨[], []⟩ = .ok s ∧
        (s.serve Small.enrolled).authorizeStream (Small.streamProof 0) ⟨[6]⟩ = .ok "kk" ∧
        (s.serve Small.enrolled).journal.length = 2 ∧
        let server := s.serve Small.enrolled
        let x := (Watch.mk server false
          (stream Small.watched.primitives server.journal "kk" none .done)).run
            (Small.works 4 ++ [.call Small.endsSession.1 Small.endsSession.2,
              .call Small.invitesHelper.1 Small.invitesHelper.2] ++ Small.works 4)
        x.server.frames.length = 4 ∧
        sentFrames x.worker.sent =
          [[Small.invited], [Small.started], [Small.endedLater, Small.bumpedEnd]] ∧
        ∃ p ∈ x.server.journal[2]?, "kk" ∉ p.2 := by
    decide +kernel
  obtain ⟨p, hp, hlost⟩ := hlost
  have hloss := (⟨hp, by rw [hold], hlost, fun i q hi hlt => by omega⟩ :
    FirstLoss "kk" (s.serve Small.enrolled).journal.length _ 2 p)
  have hcursor : Journal.cursorFrom Small.watched.primitives
      ((s.serve Small.enrolled).serve []).journal none = .next 0 := rfl
  obtain ⟨-, -, -, hstops⟩ := stream_stops_with_session hopen Small.enrolled [] hauth hcursor false
    (Small.works 4 ++ [.call Small.endsSession.1 Small.endsSession.2,
      .call Small.invitesHelper.1 Small.invitesHelper.2] ++ Small.works 4)
  exact ⟨s, hopen, hauth, hframes, hsent, p, hloss, (hstops 2 p hloss (Nat.zero_le _)).1⟩

set_option maxRecDepth 100000 in
/-- A token that names the record of the very frame that ends the session is
honoured after the session was authorized, and then the stream goes on. -/
theorem stream_outlives_session :
    ∃ s, Server.open_ Small.watchedKey Small.signedGenesis ⟨[], []⟩ ⟨[], []⟩ = .ok s ∧
      (s.serve Small.enrolled).authorizeStream (Small.streamProof 0) ⟨[6]⟩ = .ok "kk" ∧
      let server := (s.serve Small.enrolled).serve [Small.endsSession]
      let from_ := some (Head.of Small.bumpedEnd)
      let x := (Watch.mk server false
        (stream Small.watched.primitives server.journal "kk" from_ .done)).run
          (.call Small.invitesHelper.1 Small.invitesHelper.2 :: Small.works 4)
      Journal.cursorFrom Small.watched.primitives server.journal from_ = .next 3 ∧
      (∃ p, FirstLoss "kk" (s.serve Small.enrolled).journal.length x.server.journal 2 p) ∧
      x.server.frames[3]? = some [Small.invitedLate] ∧
      sentFrames x.worker.sent = [[Small.invitedLate]] := by
  obtain ⟨s, hopen, hauth, hold, hcursor, ⟨p, hp, hlost⟩, hframe, hsent⟩ :
      ∃ s, Server.open_ Small.watchedKey Small.signedGenesis ⟨[], []⟩ ⟨[], []⟩ = .ok s ∧
        (s.serve Small.enrolled).authorizeStream (Small.streamProof 0) ⟨[6]⟩ = .ok "kk" ∧
        (s.serve Small.enrolled).journal.length = 2 ∧
        let server := (s.serve Small.enrolled).serve [Small.endsSession]
        let from_ := some (Head.of Small.bumpedEnd)
        let x := (Watch.mk server false
          (stream Small.watched.primitives server.journal "kk" from_ .done)).run
            (.call Small.invitesHelper.1 Small.invitesHelper.2 :: Small.works 4)
        Journal.cursorFrom Small.watched.primitives server.journal from_ = .next 3 ∧
        (∃ p ∈ x.server.journal[2]?, "kk" ∉ p.2) ∧
        x.server.frames[3]? = some [Small.invitedLate] ∧
        sentFrames x.worker.sent = [[Small.invitedLate]] := by
    decide +kernel
  exact ⟨s, hopen, hauth, hcursor,
    ⟨p, hp, by rw [hold], hlost, fun i q hi hlt => by omega⟩, hframe, hsent⟩

/-! ### Replay -/

/-- The peer still reads after this act. -/
def Act.reads : Act → Bool
  | .call _ _ | .stop => true
  | .cancel => false
  | .work w w' => decide (w = .done ∧ w' = .done)

/-- The act is the worker's. -/
def Act.works : Act → Bool
  | .work _ _ => true
  | .call _ _ | .stop | .cancel => false

/-- A worker on its way through the history `hist`, with the accesses it still
needs. -/
inductive Worker.Replays (hist : List Published) (session : String) (i start : ℕ) (k : Worker) :
    ℕ → Prop where
  | measured (phase : k.phase = .measured start (Journal.len hist)) (sent : k.sent = []) :
      Replays hist session i start k (hist.length - start + 3)
  | dated (phase : k.phase = .dated start (Journal.len hist) i) (sent : k.sent = []) :
      Replays hist session i start k (hist.length - start + 2)
  | looping (n : ℕ) (within : start + n ≤ hist.length)
      (phase : k.phase = .looping ⟨start + n, Journal.len hist, i, false,
        Journal.delivered hist (start + n)⟩)
      (sent : k.sent = (segment (hist.map (·.1)) start n).map .frame)
      (passed : ∀ j p, start ≤ j → j < start + n → hist[j]? = some p → ¬ReadsAsEnd session i p) :
      Replays hist session i start k (hist.length - (start + n) + 1)
  | caught (rest : List Resp)
      (sent : k.sent = ((hist.map (·.1)).drop start).map .frame ++
        .caught (Journal.len hist) :: rest)
      (passed : ∀ j p, start ≤ j → hist[j]? = some p → ¬ReadsAsEnd session i p) :
      Replays hist session i start k 0
  | closed (n : ℕ) (p : Published) (phase : k.phase = .ended)
      (frame : hist[start + n]? = some p) (ends : ReadsAsEnd session i p)
      (sent : k.sent = (segment (hist.map (·.1)) start (n + 1)).map .frame ++
        [.closed "your session ended or its member left the roster"]) :
      Replays hist session i start k 0

section Replay

variable {hist : List Published} {session : String} {i start : ℕ} {x : Watch P} {d : ℕ}

/-- The way of a worker through the history, with the peer reading. -/
structure Watch.Reading (g : MerkleNode Genesis) (hist : List Published) (session : String)
    (i start : ℕ) (x : Watch P) : Prop where
  follows : x.Follows g session i start
  grown : hist <+: x.server.journal
  past : ∃ st, Journaled P g hist st
  place : start ≤ hist.length
  peer : x.worker.cancelled = false

theorem Watch.Reading.step (h : x.Reading g hist session i start) {a : Act}
    (hreads : a.reads = true) : (x.step a).Reading g hist session i start := by
  refine ⟨h.follows.step a, ?_, h.past, h.place, ?_⟩
  · cases a with
    | call c io => exact h.grown.trans (x.server.call_outcome c io).does.journal_grows
    | stop | cancel | work => exact h.grown
  · cases a with
    | call | stop => exact h.peer
    | cancel => cases hreads
    | work w w' =>
      rw [← h.peer, Watch.step, Worker.step]
      cases x.worker.phase <;> rfl

theorem Watch.Reading.loops (h : x.Reading g hist session i start) {n : ℕ}
    (hn : start + n ≤ hist.length)
    (hphase : x.worker.phase = .looping ⟨start + n, Journal.len hist, i, false,
      Journal.delivered hist (start + n)⟩)
    (hsent : x.worker.sent = (segment (hist.map (·.1)) start n).map .frame)
    (hpassed : ∀ j p, start ≤ j → j < start + n → hist[j]? = some p → ¬ReadsAsEnd session i p) :
    ∃ d ≤ hist.length - (start + n),
      (x.step (.work .done .done)).worker.Replays hist session i start d := by
  obtain ⟨st, hhist⟩ := h.past
  have hcaught := hhist.len_le_delivered hn
  rw [show (x.step (.work .done .done)).worker = _ from
    Worker.step_looping hphase x.server x.stopped .done .done, h.peer, h.follows.owner]
  by_cases hend : start + n = hist.length
  · -- everything is delivered
    have hlen : start + n = (hist.map (·.1)).length := by rw [hend, List.length_map]
    have hat : Journal.delivered hist (start + n) = Journal.len hist := by
      rw [hend, Journal.delivered_length]
    rw [Loop.step, if_pos ⟨rfl, hcaught.mpr hend⟩]
    refine ⟨0, by omega, .caught [] ?_ ?_⟩
    · simp only [hsent, segment_to_end hlen, hat]
      rfl
    · intro j p hj hp
      exact hpassed j p hj (by rw [hend]; exact (List.getElem?_eq_some_iff.mp hp).1) hp
  · obtain ⟨p, hp⟩ : ∃ p, hist[start + n]? = some p := ⟨_, List.getElem?_eq_getElem (by omega)⟩
    have hframe : (hist.map (·.1))[start + n]? = some p.1 := by
      rw [List.getElem?_map, hp]
      rfl
    rw [Loop.step_done (getElem?_grown h.grown hp) (hhist.nonempty hp),
      if_neg fun hc => hend (hcaught.mp hc.2)]
    by_cases hreads : ReadsAsEnd session i p
    · rw [if_pos hreads]
      refine ⟨0, by omega, .closed n p rfl hp hreads ?_⟩
      simp only [hsent, segment_succ hframe, List.map_append, List.append_assoc]
      rfl
    · rw [if_neg hreads]
      refine ⟨_, ?_, .looping (n + 1) (by omega) ?_ ?_ ?_⟩
      · omega
      · rw [← Nat.add_assoc, Journal.delivered_succ hp]
      · simp only [hsent, segment_succ hframe, List.map_append]
        rfl
      · intro j q hj hlt hq
        by_cases hlast : j = start + n
        · rw [hlast, hp] at hq
          cases hq
          exact hreads
        · exact hpassed j q hj (by omega) hq

theorem Watch.Reading.works (h : x.Reading g hist session i start)
    (hr : x.worker.Replays hist session i start d) :
    ∃ d' ≤ d - 1, (x.step (.work .done .done)).worker.Replays hist session i start d' := by
  cases hr with
  | measured hphase hsent =>
    refine ⟨hist.length - start + 2, by omega, .dated ?_ ?_⟩
    · rw [Watch.step, Worker.step, hphase]
      simp only [h.follows.owner, h.follows.date .refl, Option.getD_some]
    · rw [Watch.step, Worker.step, hphase]
      exact hsent
  | dated hphase hsent =>
    refine ⟨_, ?_, .looping 0 h.place ?_ ?_ ?_⟩
    · omega
    · rw [Watch.step, Worker.step, hphase]
      simp only [Nat.add_zero, Journal.delivered_grown h.grown h.place]
    · rw [Watch.step, Worker.step, hphase]
      exact hsent
    · intro j p hj hlt
      omega
  | looping n hn hphase hsent hpassed => exact h.loops hn hphase hsent hpassed
  | caught rest hsent hpassed =>
    obtain ⟨more, hmore⟩ := x.worker.step_sent x.server x.stopped .done .done
    refine ⟨0, by omega, .caught (rest ++ more) ?_ hpassed⟩
    rw [show (x.step (.work .done .done)).worker.sent = _ from hmore, hsent, List.append_assoc]
    rfl
  | closed n p hphase hframe hends hsent =>
    refine ⟨0, by omega, ?_⟩
    rw [Watch.step, Worker.step, hphase]
    exact .closed n p hphase hframe hends hsent

/-- **The worker gets through the history**, whatever else happens, if it gets
enough accesses and the peer reads. -/
theorem Watch.Reading.run (h : x.Reading g hist session i start)
    (hr : x.worker.Replays hist session i start d) {acts : List Act}
    (hreads : ∀ a ∈ acts, a.reads = true) :
    ∃ d' ≤ d - acts.countP Act.works,
      (x.run acts).worker.Replays hist session i start d' := by
  induction acts generalizing x d with
  | nil => exact ⟨d, by simp, hr⟩
  | cons a acts ih =>
    have ha := hreads a List.mem_cons_self
    have hrest : ∀ b ∈ acts, b.reads = true := fun b hb => hreads b (List.mem_cons_of_mem _ hb)
    rw [Watch.run_cons, List.countP_cons]
    cases a with
    | call | stop => exact ih (h.step ha) hr hrest
    | cancel => cases ha
    | work w w' =>
      obtain ⟨rfl, rfl⟩ : w = .done ∧ w' = .done := by simpa [Act.reads] using ha
      obtain ⟨d', hd', hr'⟩ := h.works hr
      obtain ⟨d'', hd'', hr''⟩ := ih (h.step ha) hr' hrest
      refine ⟨d'', ?_, hr''⟩
      rw [show Act.works (.work .done .done) = true from rfl, if_pos rfl]
      omega

end Replay

/-- **When the history is replayed to its end.**  A session is authorized, and
eligible after every frame published from then on; its peer reads, and its
worker gets enough accesses among whatever else happens.  Then it gets every
frame up to the journal's length at opening, and right after that the notice
that it caught up at that index, exactly when no frame from before the
authorization, past the resume point, reads as the end of the session. -/
theorem replay_reaches_end {key : AgentKey P.toCrypto} {genesis : SignedGenesis}
    {logFile refusalFile : File} {s : Server P}
    (hopen : Server.open_ key genesis logFile refusalFile = .ok s)
    (before between opening : List (Call × Io)) {proof : Assertion} {challenge : ContentId}
    {session : String} (hauth : (s.serve before).authorizeStream proof challenge = .ok session)
    {from_ : Option Head} {start : ℕ}
    (hcursor : Journal.cursorFrom P ((s.serve before).serve between).journal from_ = .next start)
    (stopped : Bool) {acts : List Act} (hreads : ∀ a ∈ acts, a.reads = true)
    (hworks : (((s.serve before).serve between).serve opening).journal.length - start + 3 ≤
      acts.countP Act.works)
    (helig : ∀ j p, (s.serve before).journal.length ≤ j →
      ((Watch.mk (((s.serve before).serve between).serve opening) stopped
        (stream P ((s.serve before).serve between).journal session from_ .done)).run
          (.work .done .done :: acts)).server.journal[j]? = some p → session ∈ p.2) :
    let server := ((s.serve before).serve between).serve opening
    let x := (Watch.mk server stopped
      (stream P ((s.serve before).serve between).journal session from_ .done)).run
        (.work .done .done :: acts)
    (∃ rest, x.worker.sent = (server.frames.drop start).map .frame ++
      .caught (Journal.len server.journal) :: rest) ↔
    ∀ j p, start ≤ j → (s.serve before).journal[j]? = some p →
      ¬ReadsAsEnd session (((s.serve before).sessionStartIndex session).getD 0) p := by
  intro server x
  have hjournaled := Server.serve_journaled (Server.open_journaled hopen) before
  have hsession := Server.authorizeStream_eligible hauth
  obtain ⟨i, hi, hopened⟩ := Watch.follows_opened hjournaled hsession between hcursor stopped
  have hdate : (s.serve before).sessionStartIndex session = some i := by
    obtain ⟨i', -, hkept⟩ := Server.startIndex_kept hjournaled hsession
    have hlater := hopened.date .refl
    rw [hkept (Server.serve_does _ between)] at hlater
    rw [hkept .refl, hlater]
  have hfollows := (hopened.grown (Server.serve_does _ opening)).step (.work .done .done)
  have hgrown : (s.serve before).journal <+: server.journal :=
    (Server.serve_does _ between).journal_grows.trans (Server.serve_does _ opening).journal_grows
  -- the worker after its first access
  have hreading : Watch.Reading genesis.node server.journal session i start
      ((Watch.mk server stopped (stream P ((s.serve before).serve between).journal session from_
        .done)).step (.work .done .done)) := by
    refine ⟨hfollows, List.prefix_refl _, ⟨_, hfollows.journaled⟩, ?_, ?_⟩
    · exact (Journal.cursorFrom_resumes hcursor).le_length.trans
        (Server.serve_does _ opening).journal_grows.length_le
    · rw [stream_placed hcursor]
      rfl
  have hmeasured : ((Watch.mk server stopped (stream P ((s.serve before).serve between).journal
      session from_ .done)).step (.work .done .done)).worker.Replays server.journal session i start
        (server.journal.length - start + 3) := by
    rw [stream_placed hcursor]
    exact .measured rfl rfl
  obtain ⟨d, hd, hr⟩ := hreading.run hmeasured hreads
  have hneeds : server.journal.length - start + 3 ≤ acts.countP Act.works := hworks
  have hzero : d = 0 := by omega
  rw [hdate, Option.getD_some]
  subst hzero
  -- it has caught up or closed on the way
  cases hr with
  | caught rest hsent hpassed =>
    refine ⟨fun _ j p hj hp => hpassed j p hj (getElem?_grown hgrown hp), fun _ => ⟨rest, ?_⟩⟩
    exact hsent
  | closed n p hphase hframe hends hsent =>
    constructor
    · rintro ⟨rest, hall⟩
      have hmem : Resp.caught (Journal.len server.journal) ∈ x.worker.sent := by
        rw [hall]
        simp
      rw [show x.worker.sent = _ from hsent] at hmem
      simp at hmem
    · intro hnone
      exfalso
      have hrun := Watch.run_does ((Watch.mk server stopped (stream P
        ((s.serve before).serve between).journal session from_ .done))) (.work .done .done :: acts)
      by_cases hold : start + n < (s.serve before).journal.length
      · exact hnone _ p (Nat.le_add_right _ _) (getElem?_within hgrown hold hframe) hends
      · exact hends.2.2 (helig _ p (by omega) (getElem?_grown hrun.journal_grows hframe))

set_option maxRecDepth 100000 in
theorem replay_reaches_end_enrolled :
    ∃ s, Server.open_ Small.watchedKey Small.signedGenesis ⟨[], []⟩ ⟨[], []⟩ = .ok s ∧
      (s.serve Small.enrolled).authorizeStream (Small.streamProof 0) ⟨[6]⟩ = .ok "kk" ∧
      let server := s.serve Small.enrolled
      let x := (Watch.mk server false
        (stream Small.watched.primitives server.journal "kk" none .done)).run
          (.work .done .done :: Small.works 5)
      ∃ rest, x.worker.sent = [.frame [Small.invited], .frame [Small.started]] ++
        .caught 2 :: rest := by
  obtain ⟨s, hopen, hauth, hframes, hlen, hquiet, hlength⟩ :
      ∃ s, Server.open_ Small.watchedKey Small.signedGenesis ⟨[], []⟩ ⟨[], []⟩ = .ok s ∧
        (s.serve Small.enrolled).authorizeStream (Small.streamProof 0) ⟨[6]⟩ = .ok "kk" ∧
        (s.serve Small.enrolled).frames = [[Small.invited], [Small.started]] ∧
        Journal.len (s.serve Small.enrolled).journal = 2 ∧
        (∀ p ∈ (s.serve Small.enrolled).journal, bumps p.1 = false) ∧
        (s.serve Small.enrolled).journal.length = 2 := by
    decide +kernel
  have hcursor : Journal.cursorFrom Small.watched.primitives
      ((s.serve Small.enrolled).serve []).journal none = .next 0 := rfl
  have hreads : ∀ a ∈ Small.works 5, a.reads = true := by decide
  have hreplay := replay_reaches_end hopen Small.enrolled [] [] hauth hcursor false hreads
    (show (s.serve Small.enrolled).journal.length - 0 + 3 ≤ 5 by rw [hlength]) ?_
  · obtain ⟨rest, hsent⟩ := hreplay.mpr fun j p _ hp hends => by
      have hnone := hquiet p (List.mem_of_getElem? hp)
      rw [hends.1] at hnone
      cases hnone
    refine ⟨s, hopen, hauth, rest, hsent.trans ?_⟩
    show (((s.serve Small.enrolled).frames.drop 0).map Resp.frame ++
      .caught (Journal.len (s.serve Small.enrolled).journal) :: rest) = _
    rw [hframes, hlen]
    rfl
  · -- nothing is published meanwhile
    intro j p hj hp
    have hp' : (s.serve Small.enrolled).journal[j]? = some p := hp
    rw [List.getElem?_eq_none hj] at hp'
    cases hp'

set_option maxRecDepth 100000 in
/-- A session is authorized now, and was never ended, but its member was off the
roster for a while: replay closes at the frame that dropped it. -/
theorem replay_cut_short :
    ∃ s, Server.open_ Small.watchedKey Small.signedGenesis ⟨[], []⟩ ⟨[], []⟩ = .ok s ∧
      (s.serve Small.lapsed).authorizeStream (Small.streamProof 1) ⟨[6]⟩ = .ok "kk" ∧
      (s.serve Small.lapsed).journal.length = 5 ∧
      let server := s.serve Small.lapsed
      let x := (Watch.mk server false
        (stream Small.watched.primitives server.journal "kk" none .done)).run
          (.work .done .done :: Small.works 8)
      x.server.journal.length = 5 ∧
      x.worker.sent = [.frame [Small.invited], .frame [Small.started],
        .frame [Small.droppedLater, Small.bumpedLater],
        .closed "your session ended or its member left the roster"] := by
  decide +kernel

end Flock
