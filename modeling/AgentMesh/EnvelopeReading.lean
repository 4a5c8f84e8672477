/-
Envelopes read poll by poll.

A call of `EnvelopeReader::next` is polled until it returns; where it waits for
the stream it may be dropped, and the next call starts from the buffer.  A
`Reading` is the reader with the chunks its stream has still to give and whether
a call is at its await.  Each `Turn` is one pass of the loop or the drop of the
call, so a list of turns is any way of polling, dropping and calling again.

* `EnvelopeReader.look`, `EnvelopeReader.absorb` — a pass up to the await, and
  from it: together `EnvelopeReader.next` (`next_of_look`, `next_of_await`);
* `Takes`, `step_takes` — everything a turn can do;
* `Progress.takes` — the envelopes of the stream are returned or still to come;
* `envelopes_read` — this for every run.
-/
import AgentMesh.EnvelopeStream
import AgentMesh.GenerationScopes

open Mesh

namespace Transport

/-! ### A pass of the loop -/

abbrev NextResult := Except TransportError (Option SignedEnvelope)

/-- The refusal of an announced length. -/
def tooLarge (len : ℕ) : NextResult :=
  .error (.badEnvelope
    s!"incoming envelope {len} bytes exceeds MAX_ENVELOPE_BYTES={maxEnvelopeBytes}")

/-- The end of the stream. -/
def endOf (buf : Bytes) : NextResult := if buf = [] then .ok none else .error .peerClosed

variable (W : EnvelopeWire)

namespace EnvelopeReader

/-- A pass up to its await, which it reaches if nothing is returned. -/
def look (r : EnvelopeReader) (live : Except TransportError Unit) :
    EnvelopeReader × Option NextResult :=
  match Delimited.front maxEnvelopeBytes r.buf with
  | .oversized len => (r, some (tooLarge len))
  | .whole body rest => (⟨rest⟩, some ((decodeEnvelope W body live).map some))
  | .short => (r, none)

/-- A pass from its await, with what the stream gave. -/
def absorb (r : EnvelopeReader) : Except String Bytes → EnvelopeReader × Option NextResult
  | .error e => (r, some (.error (.iroh ("read: " ++ e))))
  | .ok [] => (r, some (endOf r.buf))
  | .ok (b :: bytes) => (⟨r.buf ++ b :: bytes⟩, none)

variable {W} {r r' : EnvelopeReader} {live : Except TransportError Unit}

/-- The two parts are the pass. -/
theorem next_of_look {x : NextResult} (h : r.look W live = (r', some x))
    (read : Except String Bytes) : r.next W live read = (r', some x) := by
  rw [look] at h
  unfold next
  cases hfront : Delimited.front maxEnvelopeBytes r.buf with
  | oversized len =>
    rw [hfront] at h
    exact h
  | whole body rest =>
    rw [hfront] at h
    exact h
  | short =>
    rw [hfront] at h
    cases h

theorem next_of_await (h : r.look W live = (r', none)) (read : Except String Bytes) :
    r' = r ∧ r.next W live read = r.absorb read := by
  rw [look] at h
  unfold next
  cases hfront : Delimited.front maxEnvelopeBytes r.buf with
  | oversized len =>
    rw [hfront] at h
    cases h
  | whole body rest =>
    rw [hfront] at h
    cases h
  | short =>
    rw [hfront] at h
    cases h
    refine ⟨rfl, ?_⟩
    cases read with
    | error e => rfl
    | ok bytes => cases bytes <;> rfl

end EnvelopeReader

/-! ### Polling and dropping -/

inductive Effect where
  /-- Room is made for the rest of an envelope. -/
  | reserve (additional : ℕ)
  /-- A read of the stream. -/
  | read (bytes : Bytes)
  /-- The call returns. -/
  | returned (result : NextResult)
  deriving DecidableEq

def Effect.result : Effect → Option NextResult
  | .returned x => some x
  | _ => none

def results (es : List Effect) : List NextResult := es.filterMap Effect.result

/-- The room a pass reserves before it reads. -/
def EnvelopeReader.room (r : EnvelopeReader) : List Effect :=
  if 4 ≤ r.buf.length then
    [.reserve (4 + Framing.ofBe32 (r.buf.take 4) - r.buf.length)]
  else []

/-- A reader on a stream; at the end of its chunks the stream ends. -/
structure Reading where
  reader : EnvelopeReader
  /-- A call is at its await. -/
  awaiting : Bool
  chunks : List Bytes
  deriving DecidableEq

inductive Turn where
  /-- One pass of the call, which is made if none is under way; `ready` if the
  stream answers the read, should the pass come to it. -/
  | poll (ready : Bool)
  /-- The call is dropped. -/
  | drop
  deriving DecidableEq

namespace Reading

/-- `EnvelopeReader::new` on a stream. -/
def new (chunks : List Bytes) : Reading := ⟨⟨[]⟩, false, chunks⟩

/-- The stream answers the read: with its next chunk, or with nothing at its end. -/
def receive (s : Reading) : Reading × List Effect :=
  let bytes := s.chunks.headD []
  let x := s.reader.absorb (.ok bytes)
  (⟨x.1, false, s.chunks.tail⟩, .read bytes :: (x.2.map .returned).toList)

/-- The await: the call stays there until the stream answers. -/
def await (s : Reading) (ready : Bool) : Reading × List Effect :=
  if ready then s.receive else ({ s with awaiting := true }, [])

def step (live : Except TransportError Unit) (s : Reading) : Turn → Reading × List Effect
  | .drop => ({ s with awaiting := false }, [])
  | .poll ready =>
    if s.awaiting then s.await ready
    else
      match s.reader.look W live with
      | (r, some x) => ({ s with reader := r }, [.returned x])
      | (r, none) => ((await { s with reader := r } ready).1,
          r.room ++ (await { s with reader := r } ready).2)

/-- The turns one after another, with their effects. -/
def run (live : Except TransportError Unit) (s : Reading) : List Turn → Reading × List Effect
  | [] => (s, [])
  | t :: ts =>
    ((run live (s.step W live t).1 ts).1,
      (s.step W live t).2 ++ (run live (s.step W live t).1 ts).2)

end Reading

/-! ### Everything a turn can do -/

variable {W} {live : Except TransportError Unit}

/-- A call at its await has no whole envelope in its buffer, and the stream's
chunks are not empty. -/
structure Reading.Wf (s : Reading) : Prop where
  short : s.awaiting = true → Delimited.front maxEnvelopeBytes s.reader.buf = .short
  chunks : ∀ c ∈ s.chunks, c ≠ []

/-- What becomes of a reading in a turn, and what is returned. -/
inductive Takes (W : EnvelopeWire) (live : Except TransportError Unit) (s : Reading) :
    Turn → Reading → List NextResult → Prop where
  /-- The call waits, or is dropped. -/
  | idle {t : Turn} {awaiting : Bool} (turn : t ≠ .poll true)
      (short : awaiting = true → Delimited.front maxEnvelopeBytes s.reader.buf = .short) :
      Takes W live s t { s with awaiting := awaiting } []
  /-- A chunk is added to the buffer. -/
  | fed {t : Turn} {bytes : Bytes} {chunks : List Bytes}
      (short : Delimited.front maxEnvelopeBytes s.reader.buf = .short)
      (coming : s.chunks = bytes :: chunks) :
      Takes W live s t ⟨⟨s.reader.buf ++ bytes⟩, false, chunks⟩ []
  /-- The stream has ended. -/
  | ended {t : Turn} (short : Delimited.front maxEnvelopeBytes s.reader.buf = .short)
      (none : s.chunks = []) : Takes W live s t ⟨s.reader, false, []⟩ [endOf s.reader.buf]
  /-- A whole envelope is taken from the buffer. -/
  | gave {t : Turn} {body rest : Bytes}
      (whole : Delimited.front maxEnvelopeBytes s.reader.buf = .whole body rest) :
      Takes W live s t { s with reader := ⟨rest⟩ } [(decodeEnvelope W body live).map some]
  /-- The announced length is refused. -/
  | refused {t : Turn} {len : ℕ}
      (oversized : Delimited.front maxEnvelopeBytes s.reader.buf = .oversized len) :
      Takes W live s t s [tooLarge len]

@[simp] theorem results_append (es es' : List Effect) :
    results (es ++ es') = results es ++ results es' :=
  List.filterMap_append

@[simp] theorem results_room (r : EnvelopeReader) : results r.room = [] := by
  rw [EnvelopeReader.room]
  split <;> rfl

theorem Takes.of_await {s : Reading} {t : Turn} {ready : Bool} (ht : t = .poll ready)
    (hs : s.Wf) (hshort : Delimited.front maxEnvelopeBytes s.reader.buf = .short) :
    Takes W live s t (s.await ready).1 (results (s.await ready).2) := by
  cases ready with
  | false =>
    refine .idle ?_ (fun _ => hshort)
    rw [ht]
    simp
  | true =>
    cases hchunks : s.chunks with
    | nil =>
      have hrec : s.receive = (⟨s.reader, false, []⟩,
          [.read [], .returned (endOf s.reader.buf)]) := by
        simp [Reading.receive, hchunks, EnvelopeReader.absorb]
      show Takes W live s t s.receive.1 (results s.receive.2)
      rw [hrec]
      exact .ended hshort hchunks
    | cons bytes chunks =>
      obtain ⟨b, rest, rfl⟩ := List.exists_cons_of_ne_nil (hs.chunks bytes (by simp [hchunks]))
      have hrec : s.receive = (⟨⟨s.reader.buf ++ b :: rest⟩, false, chunks⟩,
          [.read (b :: rest)]) := by
        simp [Reading.receive, hchunks, EnvelopeReader.absorb]
      show Takes W live s t s.receive.1 (results s.receive.2)
      rw [hrec]
      exact .fed hshort hchunks

theorem step_takes {s : Reading} (hs : s.Wf) (t : Turn) :
    Takes W live s t (s.step W live t).1 (results (s.step W live t).2) := by
  cases t with
  | drop => exact .idle (by simp) (by simp)
  | poll ready =>
    by_cases hawaiting : s.awaiting = true
    · have hstep : s.step W live (.poll ready) = s.await ready := by
        rw [Reading.step, if_pos hawaiting]
      rw [hstep]
      exact .of_await rfl hs (hs.short hawaiting)
    · cases hfront : Delimited.front maxEnvelopeBytes s.reader.buf with
      | oversized len =>
        have hstep : s.step W live (.poll ready) = (s, [.returned (tooLarge len)]) := by
          rw [Reading.step, if_neg hawaiting, EnvelopeReader.look, hfront]
        rw [hstep]
        exact .refused hfront
      | whole body rest =>
        have hstep : s.step W live (.poll ready) = ({ s with reader := ⟨rest⟩ },
            [.returned ((decodeEnvelope W body live).map some)]) := by
          rw [Reading.step, if_neg hawaiting, EnvelopeReader.look, hfront]
        rw [hstep]
        exact .gave hfront
      | short =>
        have hstep : s.step W live (.poll ready) =
            ((s.await ready).1, s.reader.room ++ (s.await ready).2) := by
          rw [Reading.step, if_neg hawaiting, EnvelopeReader.look, hfront]
        rw [hstep, results_append, results_room, List.nil_append]
        exact .of_await rfl hs hfront

theorem Reading.Wf.takes {s s' : Reading} {t : Turn} {out : List NextResult} (hs : s.Wf)
    (h : Takes W live s t s' out) : s'.Wf := by
  cases h with
  | idle turn short => exact ⟨short, hs.chunks⟩
  | fed short coming =>
    refine ⟨by simp, ?_⟩
    intro c hc
    exact hs.chunks c (by simp [coming, hc])
  | ended short none => exact ⟨by simp, by simp⟩
  | gave whole =>
    refine ⟨?_, hs.chunks⟩
    intro hawaiting
    rw [hs.short hawaiting] at whole
    cases whole
  | refused oversized => exact hs

/-! ### What is still to come -/

def frames (W : EnvelopeWire) (envs : List SignedEnvelope) : Bytes := envs.flatMap (wireBytes W)

/-- An envelope that reads back from its JSON, is within the limit and
verifies. -/
structure Sound (W : EnvelopeWire) (env : SignedEnvelope) : Prop where
  json : W.envelopeOfJson (W.envelopeJson env) = .ok env
  fits : Fits W env
  verifies : env.verify W.toWire = .ok ()

/-- After the envelopes the stream gives nothing but `final`, however far it has
been read. -/
def Ends (rest : Bytes) (final : NextResult) : Prop :=
  ∀ (buf : Bytes) (chunks : List Bytes), buf ++ chunks.flatten = rest →
    (Delimited.front maxEnvelopeBytes buf = .short ∧ (chunks = [] → endOf buf = final)) ∨
      ∃ len, Delimited.front maxEnvelopeBytes buf = .oversized len ∧ tooLarge len = final

theorem ends_part {body part : Bytes} (hbody : body.length ≤ maxEnvelopeBytes)
    (hpart : part <+: Delimited.bytes body) (hlen : part.length < (Delimited.bytes body).length) :
    Ends part (endOf part) := by
  intro buf chunks h
  have hbuf : buf <+: part := ⟨chunks.flatten, h⟩
  refine .inl ⟨?_, ?_⟩
  · exact Delimited.front_part (by decide) hbody (hbuf.trans hpart)
      (lt_of_le_of_lt hbuf.length_le hlen)
  · rintro rfl
    rw [List.flatten_nil, List.append_nil] at h
    rw [h]

theorem ends_oversized {len : ℕ} (hlen : maxEnvelopeBytes < len) (h32 : len < 2 ^ 32)
    (tail : Bytes) : Ends (Framing.be32 len ++ tail) (tooLarge len) := by
  intro buf chunks h
  by_cases hheader : 4 ≤ buf.length
  · exact .inr ⟨len, Delimited.front_oversized hlen h32 ⟨chunks.flatten, h⟩ hheader, rfl⟩
  · refine .inl ⟨?_, ?_⟩
    · rw [Delimited.front, if_pos (by omega)]
    · rintro rfl
      -- the stream has four bytes, and the buffer would be all of it
      have hlength := congrArg List.length h
      rw [List.flatten_nil, List.append_nil, List.length_append, Framing.length_be32] at hlength
      omega

/-- Some of the envelopes have been returned, the others are in the buffer and
the chunks; `final` is returned only after all of them. -/
structure Progress (W : EnvelopeWire) (envs : List SignedEnvelope) (rest : Bytes)
    (final : NextResult) (s : Reading) (out : List NextResult) : Prop where
  wf : s.Wf
  parts : ∃ past todo k, envs = past ++ todo ∧
    out = past.map (fun env => .ok (some env)) ++ List.replicate k final ∧
    (k ≠ 0 → todo = []) ∧
    s.reader.buf ++ s.chunks.flatten = frames W todo ++ rest

theorem Progress.new {envs : List SignedEnvelope} {rest : Bytes} {final : NextResult}
    {chunks : List Bytes} (hchunks : ∀ c ∈ chunks, c ≠ [])
    (hflat : chunks.flatten = frames W envs ++ rest) :
    Progress W envs rest final (.new chunks) [] :=
  ⟨⟨by simp [Reading.new], hchunks⟩, [], envs, 0, rfl, rfl, by simp, hflat⟩

variable {envs : List SignedEnvelope} {rest : Bytes} {final : NextResult} {s s' : Reading}
  {t : Turn} {out new : List NextResult}

theorem Progress.moved (hp : Progress W envs rest final s out) (hwf : s'.Wf)
    (hbytes : s'.reader.buf ++ s'.chunks.flatten = s.reader.buf ++ s.chunks.flatten) :
    Progress W envs rest final s' out := by
  obtain ⟨past, todo, k, henvs, hout, hk, hflat⟩ := hp.parts
  exact ⟨hwf, past, todo, k, henvs, hout, hk, hbytes.trans hflat⟩

theorem frames_cons {env : SignedEnvelope} (henv : Sound W env) (todo : List SignedEnvelope) :
    frames W (env :: todo) = Delimited.bytes (W.envelopeJson env) ++ frames W todo := by
  rw [frames, List.flatMap_cons, wireBytes_of_fits henv.fits]
  rfl

/-- With envelopes to come there is a whole one in the buffer, or it is short of
one and the stream has more. -/
theorem front_of_todo {env : SignedEnvelope} (henv : Sound W env) {todo : List SignedEnvelope}
    (hflat : s.reader.buf ++ s.chunks.flatten = frames W (env :: todo) ++ rest) :
    (Delimited.front maxEnvelopeBytes s.reader.buf = .short ∧ s.chunks ≠ []) ∨
      ∃ buf, Delimited.front maxEnvelopeBytes s.reader.buf = .whole (W.envelopeJson env) buf ∧
        buf ++ s.chunks.flatten = frames W todo ++ rest := by
  rw [frames_cons henv, List.append_assoc] at hflat
  rcases Delimited.front_append (by decide) henv.fits hflat with ⟨hshort, hmore⟩ | hwhole
  · refine .inl ⟨hshort, ?_⟩
    intro hnone
    exact hmore (by rw [hnone, List.flatten_nil])
  · exact .inr hwhole

theorem Progress.takes (hsound : ∀ env ∈ envs, Sound W env) (hends : Ends rest final)
    (hp : Progress W envs rest final s out) (h : Takes W (.ok ()) s t s' new) :
    Progress W envs rest final s' (out ++ new) := by
  have hwf := hp.wf.takes h
  obtain ⟨past, todo, k, henvs, hout, hk, hflat⟩ := hp.parts
  cases h with
  | idle turn short =>
    rw [List.append_nil]
    exact hp.moved hwf rfl
  | fed short coming =>
    rw [List.append_nil]
    refine hp.moved hwf ?_
    rw [coming, List.flatten_cons, List.append_assoc]
  | ended short none =>
    cases todo with
    | nil =>
      -- the end of the stream, after all envelopes
      rcases hends _ _ hflat with ⟨-, hfinal⟩ | ⟨len, hover, -⟩
      · refine ⟨hwf, past, [], k + 1, henvs, ?_, fun _ => rfl, ?_⟩
        · rw [hout, hfinal none, List.replicate_succ', List.append_assoc]
        · rw [← hflat, none]
      · rw [short] at hover
        cases hover
    | cons env todo =>
      have henv := hsound env (by simp [henvs])
      rcases front_of_todo henv hflat with ⟨-, hmore⟩ | ⟨buf, hwhole, -⟩
      · exact absurd none hmore
      · rw [short] at hwhole
        cases hwhole
  | @gave body buf whole =>
    cases todo with
    | nil =>
      rcases hends _ _ hflat with ⟨hshort, -⟩ | ⟨len, hover, -⟩
      · rw [whole] at hshort
        cases hshort
      · rw [whole] at hover
        cases hover
    | cons env todo =>
      have henv := hsound env (by simp [henvs])
      rcases front_of_todo henv hflat with ⟨hshort, -⟩ | ⟨buf', hwhole, hbytes⟩
      · rw [whole] at hshort
        cases hshort
      · rw [whole] at hwhole
        cases hwhole
        have hdecode : decodeEnvelope W (W.envelopeJson env) (.ok ()) = .ok env :=
          decodeEnvelope_ok.mpr ⟨henv.json, henv.verifies, rfl⟩
        -- nothing final was returned before
        obtain rfl : k = 0 := by
          by_contra hne
          cases hk hne
        refine ⟨hwf, past ++ [env], todo, 0, ?_, ?_, by simp, hbytes⟩
        · rw [henvs, List.append_assoc, List.singleton_append]
        · rw [hout, hdecode]
          simp [Except.map]
  | @refused len oversized =>
    cases todo with
    | nil =>
      rcases hends _ _ hflat with ⟨hshort, -⟩ | ⟨len', hover, hfinal⟩
      · rw [oversized] at hshort
        cases hshort
      · rw [oversized] at hover
        cases hover
        refine ⟨hwf, past, [], k + 1, henvs, ?_, fun _ => rfl, hflat⟩
        rw [hout, hfinal, List.replicate_succ', List.append_assoc]
    | cons env todo =>
      have henv := hsound env (by simp [henvs])
      rcases front_of_todo henv hflat with ⟨hshort, -⟩ | ⟨buf, hwhole, -⟩
      · rw [oversized] at hshort
        cases hshort
      · rw [oversized] at hwhole
        cases hwhole

/-! ### Every run -/

theorem run_progress (hsound : ∀ env ∈ envs, Sound W env) (hends : Ends rest final)
    (hp : Progress W envs rest final s out) (turns : List Turn) :
    Progress W envs rest final (s.run W (.ok ()) turns).1
      (out ++ results (s.run W (.ok ()) turns).2) := by
  induction turns generalizing s out with
  | nil => simpa [Reading.run, results] using hp
  | cons t turns ih =>
    have hstep := ih (hp.takes hsound hends (step_takes hp.wf t))
    rw [List.append_assoc, ← results_append] at hstep
    exact hstep

/-- The passes at which the stream was ready. -/
def passes (turns : List Turn) : ℕ := turns.countP (· = .poll true)

/-- Such a pass returns or takes a chunk. -/
theorem Takes.passes_le (h : Takes W live s t s' new) :
    passes [t] + s'.chunks.length ≤ new.length + s.chunks.length := by
  have hone : passes [t] ≤ 1 := List.countP_le_length
  cases h with
  | idle turn short =>
    have hzero : passes [t] = 0 := by simp [passes, turn]
    rw [hzero]
    simp
  | fed short coming =>
    rw [coming, List.length_cons, List.length_nil, Nat.zero_add, Nat.add_comm]
    exact Nat.add_le_add_left hone _
  | ended short none =>
    rw [none, List.length_singleton]
    exact Nat.add_le_add_right hone 0
  | gave whole => exact Nat.add_le_add_right hone _
  | refused oversized => exact Nat.add_le_add_right hone _

theorem run_passes (hs : s.Wf) (turns : List Turn) :
    passes turns + (s.run W live turns).1.chunks.length ≤
      (results (s.run W live turns).2).length + s.chunks.length := by
  induction turns generalizing s with
  | nil => simp [passes, Reading.run]
  | cons t turns ih =>
    have htakes : Takes W live s t (s.step W live t).1 (results (s.step W live t).2) :=
      step_takes hs t
    have hone := htakes.passes_le
    have hrest := ih (hs.takes htakes)
    have hcount : passes (t :: turns) = passes [t] + passes turns := by
      rw [passes, ← List.singleton_append, List.countP_append]
      rfl
    simp only [Reading.run, results_append, List.length_append]
    omega

/-- **Every envelope in its order, once, and then the end.** -/
theorem run_results (hsound : ∀ env ∈ envs, Sound W env) (hends : Ends rest final)
    {chunks : List Bytes} (hchunks : ∀ c ∈ chunks, c ≠ [])
    (hflat : chunks.flatten = frames W envs ++ rest) (turns : List Turn) :
    (∃ k, results ((Reading.new chunks).run W (.ok ()) turns).2 <+:
      envs.map (fun env => .ok (some env)) ++ List.replicate k final) ∧
    (envs.length + chunks.length < passes turns →
      envs.length < (results ((Reading.new chunks).run W (.ok ()) turns).2).length) := by
  have hnew : Progress W envs rest final (.new chunks) [] := .new hchunks hflat
  refine ⟨?_, ?_⟩
  · obtain ⟨past, todo, k, rfl, hout, hk, -⟩ := (run_progress hsound hends hnew turns).parts
    rw [List.nil_append] at hout
    refine ⟨k, ?_⟩
    rw [hout]
    by_cases hzero : k = 0
    · subst hzero
      rw [List.map_append]
      simp
    · rw [hk hzero, List.append_nil]
  · intro hmany
    have hpasses : passes turns + ((Reading.new chunks).run W (.ok ()) turns).1.chunks.length ≤
        (results ((Reading.new chunks).run W (.ok ()) turns).2).length + chunks.length :=
      run_passes hnew.wf turns
    omega

/-- From an announced length above the limit, every pass returns its refusal,
and nothing is read or reserved. -/
theorem run_refused (hs : s.Wf) {len : ℕ}
    (oversized : Delimited.front maxEnvelopeBytes s.reader.buf = .oversized len)
    (turns : List Turn) :
    s.run W live turns =
      (s, List.replicate (turns.countP (· ≠ .drop)) (.returned (tooLarge len))) := by
  have hawaiting : s.awaiting = false := by
    by_contra hne
    rw [hs.short (by simpa using hne)] at oversized
    cases oversized
  induction turns with
  | nil => rfl
  | cons t turns ih =>
    cases t with
    | drop =>
      have hstep : s.step W live .drop = (s, []) := by
        rw [Reading.step, ← hawaiting]
      simp [Reading.run, hstep, ih]
    | poll ready =>
      have hstep : s.step W live (.poll ready) = (s, [.returned (tooLarge len)]) := by
        rw [Reading.step, if_neg (by simp [hawaiting]), EnvelopeReader.look, oversized]
      simp [Reading.run, hstep, ih, List.replicate_succ]

theorem run_wf (hs : s.Wf) (turns : List Turn) : (s.run W live turns).1.Wf := by
  induction turns generalizing s with
  | nil => exact hs
  | cons t turns ih =>
    have htakes : Takes W live s t (s.step W live t).1 (results (s.step W live t).2) :=
      step_takes hs t
    exact ih (hs.takes htakes)

/-- Envelopes on a stream that is cut into chunks in any way, and `next` polled,
dropped and called again in any way, while the peer is accepted.  If a proper
part of one more message follows, or nothing, the results are the envelopes in
their order, each once, and then the end: `None` if nothing follows, and
`PeerClosed` otherwise; as many passes as there are chunks and envelopes, and one
more, come to it.  If a length above the limit follows, its refusal takes the
place of the end.  And once such a length is at the front of the buffer, every
further pass returns its refusal, with nothing read and no room reserved. -/
theorem envelopes_read (envs : List SignedEnvelope) (hsound : ∀ env ∈ envs, Sound W env)
    (chunks : List Bytes) (hchunks : ∀ c ∈ chunks, c ≠ []) (turns : List Turn) :
    (∀ body part, body.length ≤ maxEnvelopeBytes → part <+: Delimited.bytes body →
      part ≠ Delimited.bytes body → chunks.flatten = envs.flatMap (wireBytes W) ++ part →
      (∃ k, results ((Reading.new chunks).run W (.ok ()) turns).2 <+:
        envs.map (fun env => .ok (some env)) ++
          List.replicate k (if part = [] then .ok none else .error .peerClosed)) ∧
      (envs.length + chunks.length < passes turns →
        envs.length < (results ((Reading.new chunks).run W (.ok ()) turns).2).length)) ∧
    (∀ len tail, maxEnvelopeBytes < len → len < 2 ^ 32 →
      chunks.flatten = envs.flatMap (wireBytes W) ++ (Framing.be32 len ++ tail) →
      (∃ k, results ((Reading.new chunks).run W (.ok ()) turns).2 <+:
        envs.map (fun env => .ok (some env)) ++ List.replicate k (tooLarge len)) ∧
      (envs.length + chunks.length < passes turns →
        envs.length < (results ((Reading.new chunks).run W (.ok ()) turns).2).length)) ∧
    (∀ len, Delimited.front maxEnvelopeBytes
        ((Reading.new chunks).run W (.ok ()) turns).1.reader.buf = .oversized len →
      ∀ more, ((Reading.new chunks).run W (.ok ()) turns).1.run W (.ok ()) more =
        (((Reading.new chunks).run W (.ok ()) turns).1,
          List.replicate (more.countP (· ≠ .drop)) (.returned (tooLarge len)))) := by
  refine ⟨?_, ?_, ?_⟩
  · intro body part hbody hpart hproper hflat
    have hlen : part.length < (Delimited.bytes body).length := by
      refine lt_of_le_of_ne hpart.length_le fun heq => hproper ?_
      exact hpart.eq_of_length heq
    exact run_results hsound (ends_part hbody hpart hlen) hchunks hflat turns
  · intro len tail hlen h32 hflat
    exact run_results hsound (ends_oversized hlen h32 tail) hchunks hflat turns
  · intro len hover more
    have hwf : (Reading.new chunks).Wf := ⟨by simp [Reading.new], hchunks⟩
    exact run_refused (run_wf hwf turns) hover more

/-- Agent 2's greeting in two chunks, cut inside its length; the call is dropped
after the first. -/
def Scoped.cut : List Turn :=
  [.poll true, .poll false, .drop, .poll true, .poll true, .poll true]

noncomputable def Scoped.pieces : List Bytes :=
  [(wireBytes Scoped.envelopeWire (Scoped.greeting 2 .all)).take 3,
    (wireBytes Scoped.envelopeWire (Scoped.greeting 2 .all)).drop 3]

set_option maxRecDepth 100000 in
theorem envelopes_read_dropped :
    (∃ k, results ((Reading.new Scoped.pieces).run Scoped.envelopeWire (.ok ()) Scoped.cut).2 <+:
      [.ok (some (Scoped.greeting 2 .all))] ++ List.replicate k (.ok none)) ∧
    1 < (results
      ((Reading.new Scoped.pieces).run Scoped.envelopeWire (.ok ()) Scoped.cut).2).length := by
  have hsound : Sound Scoped.envelopeWire (Scoped.greeting 2 .all) :=
    ⟨Scoped.tableWire_json _ _, by decide +kernel, by decide +kernel⟩
  have hchunks : ∀ c ∈ Scoped.pieces, c ≠ [] := by decide +kernel
  have hread := envelopes_read (W := Scoped.envelopeWire) [Scoped.greeting 2 .all]
    (by simpa using hsound) Scoped.pieces hchunks Scoped.cut
  have hend := hread.1 [] [] (Nat.zero_le _) List.nil_prefix (by decide)
    (by simp [Scoped.pieces])
  exact ⟨hend.1, hend.2 (by decide)⟩

end Transport
