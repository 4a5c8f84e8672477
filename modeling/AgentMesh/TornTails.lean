/-
Parsing a log that was cut anywhere.

The bytes of a log are the encodings of its values, one after another, and a
crash can leave the first `n` of them for any `n`.  `Log.parse` finds the values
that are whole, says where they end, and tells a cut inside a frame from one at
a boundary; appending after the cut is removed continues the log as if nothing
had been there.  Conversely bytes that parse at all are, up to the end it
returns, the encodings of the values it returns.

* `Log.open_eq` — opening a file is parsing its contents;
* `torn_tail_parsing` — the cut at every byte, the append after it, and what
  arbitrary bytes that parse are.
-/
import AgentMesh.Log

open Std Mesh Framing

namespace Flock

variable {α : Type} {c : Codec α}

namespace Log

/-- Parse every whole frame: the values with their offsets, where they end, and
where an incomplete final frame begins. -/
def parse (c : Codec α) (bytes : Bytes) : Except ServerError (List (ℕ × α) × ℕ × Option ℕ) :=
  match Framing.parse c 0 bytes with
  | .ok p => .ok (p.frames, p.end_, p.cut)
  | .error (offset, why) => .error (.corrupt offset why)

theorem parse_ok {bytes : Bytes} {frames : List (ℕ × α)} {end_ : ℕ} {cut : Option ℕ} :
    parse c bytes = .ok (frames, end_, cut) ↔
      Framing.parse c 0 bytes = .ok ⟨frames, end_, cut⟩ := by
  rw [parse]
  cases Framing.parse c 0 bytes with
  | error e => simp
  | ok p =>
    obtain ⟨frames', end', cut'⟩ := p
    simp

theorem open_eq {file : File} {frames : List (ℕ × α)} {end_ : ℕ} {cut : Option ℕ}
    (h : parse c file.contents = .ok (frames, end_, cut)) :
    Log.open_ c file = .ok (⟨file, end_, cut⟩, frames) := by
  rw [open_, parse_ok.mp h]

end Log

theorem encode_ok {v : α} {bs : Bytes} : encode c v = .ok bs ↔ Fits c v ∧ bs = bytes c v := by
  rw [encode]
  by_cases hv : Fits c v
  · rw [if_pos hv, Except.ok.injEq]
    exact ⟨fun h => ⟨hv, h.symm⟩, fun h => h.2.symm⟩
  · rw [if_neg hv]
    constructor
    · intro h
      cases h
    · intro h
      exact absurd h.1 hv

/-- What parses, in terms of the values: their frames, and a tail that no frame
is whole in. -/
theorem Log.parse_values (hc : c.Exact) {bytes : Bytes} {frames : List (ℕ × α)} {end_ : ℕ}
    {cut : Option ℕ} (h : Log.parse c bytes = .ok (frames, end_, cut)) :
    ∃ tail, bytes = bytesAll c (frames.map (·.2)) ++ tail ∧
      (∀ v ∈ frames.map (·.2), Fits c v) ∧ frames = placed c 0 (frames.map (·.2)) ∧
      end_ = (bytesAll c (frames.map (·.2))).length ∧
      cut = if tail = [] then none else some end_ := by
  obtain ⟨vs, tail, hvs, hbytes, hframes, hend, hcut⟩ := parse_sound c hc (Log.parse_ok.mp h)
  have hmap : frames.map (·.2) = vs := by
    rw [show frames = placed c 0 vs from hframes, placed_map_snd]
  rw [hmap]
  rw [Nat.zero_add] at hend
  exact ⟨tail, hbytes, hvs, hframes, hend, hcut⟩

theorem Log.parse_whole (hc : c.Exact) {vs : List α} (hvs : ∀ v ∈ vs, Fits c v) :
    Log.parse c (bytesAll c vs) = .ok (placed c 0 vs, (bytesAll c vs).length, none) := by
  have hnothing : TornTail c [] := .inl rfl
  obtain ⟨frames, hparse, hmap⟩ := parse_bytesAll c hc.lawful hnothing 0 hvs
  rw [List.append_nil, Nat.zero_add, if_pos rfl] at hparse
  have h := Log.parse_ok.mpr hparse
  obtain ⟨-, -, -, hframes, -, -⟩ := Log.parse_values hc h
  rw [h, hframes, hmap]

theorem Log.commitRecovery_clean {file : File} {ws : List α} {tail : Bytes} {cut : Option ℕ}
    (hcontents : file.contents = bytesAll c ws ++ tail) (hws : ∀ v ∈ ws, Fits c v)
    (hcut : cut = if tail = [] then none else some (bytesAll c ws).length) :
    (Log.commitRecovery ⟨file, (bytesAll c ws).length, cut⟩).Clean c ws := by
  by_cases ht : tail = []
  · rw [if_pos ht] at hcut
    subst hcut
    refine ⟨?_, rfl, hws⟩
    rw [Log.commitRecovery, File.sync, hcontents, ht, List.append_nil]
  · rw [if_neg ht] at hcut
    subst hcut
    refine ⟨?_, rfl, hws⟩
    simp only [Log.commitRecovery, File.truncate, hcontents, List.take_left]

theorem Log.append_clean {l : Log} {ws : List α} {w : α} {bs : Bytes} (h : l.Clean c ws)
    (hbs : encode c w = .ok bs) :
    ∃ l', l.append c w none = (l', .ok ()) ∧ l'.file.contents = bytesAll c ws ++ bs := by
  refine ⟨{ l with file := (l.file.writeAt l.end_ bs).sync, end_ := l.end_ + bs.length }, ?_, ?_⟩
  · rw [Log.append, hbs]
  · rw [h.file, h.end_, File.writeAt_end]
    exact File.contents_synced _

/-- **Torn-tail parsing.**  Of the first `n` bytes of a log, `parse` returns
exactly the values whose whole encoding is there, each with its offset, the end
of the last of them, and a cut, at that end, exactly when `n` is no frame
boundary; after recovery an append continues at that end, and the result parses
to the retained values and the new one.  Bytes that parse at all are, up to the
end that is returned, the encodings of the values that are returned. -/
theorem torn_tail_parsing (hc : c.Exact) {vs : List α} (hvs : ∀ v ∈ vs, ∃ bs, encode c v = .ok bs)
    {n : ℕ} (hn : n ≤ (bytesAll c vs).length) :
    (∃ frames end_ cut, Log.parse c ((bytesAll c vs).take n) = .ok (frames, end_, cut) ∧
      frames = (placed c 0 vs).filter (fun p => decide (p.1 + (bytes c p.2).length ≤ n)) ∧
      end_ = (frames.getLast?.map fun p => p.1 + (bytes c p.2).length).getD 0 ∧
      (cut = none ∨ cut = some end_) ∧
      (cut = none ↔ ∃ k, n = (bytesAll c (vs.take k)).length) ∧
      ∀ w bs, encode c w = .ok bs →
        Log.parse c (((bytesAll c vs).take n).take end_ ++ bs) =
          .ok (frames ++ [(end_, w)], end_ + bs.length, none) ∧
        ∀ file : File, file.contents = (bytesAll c vs).take n →
          ∃ l l', Log.open_ c file = .ok (l, frames) ∧
            l.commitRecovery.append c w none = (l', .ok ()) ∧
            l'.file.contents = ((bytesAll c vs).take n).take end_ ++ bs) ∧
    ∀ bytes frames end_ cut, Log.parse c bytes = .ok (frames, end_, cut) →
      bytes.take end_ = bytesAll c (frames.map (·.2)) ∧
      ∀ v ∈ frames.map (·.2), ∃ bs, encode c v = .ok bs := by
  have hfits : ∀ v ∈ vs, Fits c v := by
    intro v hv
    obtain ⟨bs, hbs⟩ := hvs v hv
    exact (encode_ok.mp hbs).1
  refine ⟨?_, ?_⟩
  · have hparse := @parse_take α c hc.lawful vs 0 n hfits hn
    rw [Nat.zero_add] at hparse
    have hlog := Log.parse_ok.mpr hparse
    obtain ⟨tail, hbytes, hws, -, -, hcut⟩ := Log.parse_values hc hlog
    rw [placed_map_snd] at hbytes hws
    refine ⟨_, _, _, hlog, ?_, ?_, ?_, ?_, ?_⟩
    · have h := @placed_whole α c vs 0 n
      rwa [Nat.zero_add] at h
    · have h := placed_end c (whole c n vs) 0
      rw [Nat.zero_add] at h
      exact h.symm
    · split
      · exact .inl rfl
      · exact .inr rfl
    · rw [← length_whole_eq_iff]
      split <;> simp_all
    · intro w bs hbs
      have hw := (encode_ok.mp hbs).1
      have hbs' := (encode_ok.mp hbs).2
      have hkept : ((bytesAll c vs).take n).take (bytesAll c (whole c n vs)).length =
          bytesAll c (whole c n vs) := by
        rw [hbytes, List.take_left]
      refine ⟨?_, fun file hfile => ?_⟩
      · have hall : ∀ v ∈ whole c n vs ++ [w], Fits c v := by
          intro v hv
          obtain hv | hv := List.mem_append.mp hv
          · exact hws v hv
          · exact List.mem_singleton.mp hv ▸ hw
        have h := Log.parse_whole hc hall
        rw [bytesAll_snoc, placed_append, Nat.zero_add, List.length_append, ← hbs'] at h
        rw [hkept]
        exact h
      · have hclean := Log.commitRecovery_clean (hfile.trans hbytes) hws hcut
        obtain ⟨l', happend, hcontents⟩ := Log.append_clean hclean hbs
        refine ⟨_, l', Log.open_eq (hfile ▸ hlog), happend, ?_⟩
        rw [hcontents, hkept]
  · intro bytes frames end_ cut h
    obtain ⟨tail, hbytes, hws, -, hend, -⟩ := Log.parse_values hc h
    refine ⟨by rw [hbytes, hend, List.take_left], fun v hv => ?_⟩
    exact ⟨_, encode_ok.mpr ⟨hws v hv, rfl⟩⟩

/-- Byte strings as they are, under a constant header check. -/
def Small.raw : Codec Bytes := ⟨fun bs => bs, some, fun _ => "empty", fun _ => 0⟩

theorem Small.raw_exact : Small.raw.Exact := by
  intro bs v
  exact Option.some.injEq bs v ▸ Iff.rfl

set_option maxRecDepth 100000 in
/-- Two frames, the first one empty, cut inside the second one's header. -/
theorem torn_tail_parsing_header :
    ∃ end_ cut, Log.parse Small.raw ((bytesAll Small.raw [[], [7]]).take 11) =
      .ok ([(0, [])], end_, cut) := by
  have hvs : ∀ v ∈ ([[], [7]] : List Bytes), ∃ bs, encode Small.raw v = .ok bs := by
    intro v hv
    refine ⟨_, encode_ok.mpr ⟨?_, rfl⟩⟩
    obtain rfl | hv := List.mem_cons.mp hv
    · decide
    · obtain rfl := List.mem_singleton.mp hv
      decide
  have hn : 11 ≤ (bytesAll Small.raw [[], [7]]).length := by decide
  obtain ⟨⟨frames, end_, cut, h, hframes, -⟩, -⟩ := torn_tail_parsing Small.raw_exact hvs hn
  refine ⟨end_, cut, h.trans ?_⟩
  rw [hframes]
  rfl

end Flock
