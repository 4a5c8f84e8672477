/-
Length-prefixed frames with a header check, and a torn-tail parser.

A general library over any codec: a frame is the payload's length in four
bytes, a check value of that length in four bytes, and the payload.  The
parser reads whole frames until the bytes end, tells a frame that was cut
short from one that is damaged, and says where the whole frames end.

* `next_bytes`, `next_torn` — one frame read back, and a proper part of one;
* `parse_bytesAll` — a sequence of frames followed by a proper part of another
  one parses to exactly the sequence;
* `parse_take` — the first bytes of a sequence parse to the frames that are
  whole in them;
* `parse_sound` — whatever parses is a sequence of frames up to its end, if
  the decoder accepts nothing but encodings.
-/
import AgentMesh.Content

namespace Framing

variable {α : Type}

/-- How values become payloads and back, and the check value of a length
field. -/
structure Codec (α : Type) where
  encode : α → Bytes
  decode : Bytes → Option α
  /-- What is said of bytes that do not decode. -/
  fault : Bytes → String
  check : Bytes → BitVec 32

/-- Decoding inverts encoding. -/
def Codec.Lawful (c : Codec α) : Prop := ∀ v, c.decode (c.encode v) = some v

/-! ### Four-byte numbers, most significant byte first -/

def be32 (n : ℕ) : Bytes :=
  [UInt8.ofNat (n / 2 ^ 24), UInt8.ofNat (n / 2 ^ 16), UInt8.ofNat (n / 2 ^ 8), UInt8.ofNat n]

def ofBe32 (b : Bytes) : ℕ := b.foldl (fun acc x => acc * 256 + x.toNat) 0

@[simp] theorem length_be32 (n : ℕ) : (be32 n).length = 4 := rfl

theorem ofBe32_be32 {n : ℕ} (h : n < 2 ^ 32) : ofBe32 (be32 n) = n := by
  simp only [ofBe32, be32, List.foldl_cons, List.foldl_nil, UInt8.toNat_ofNat']
  omega

/-! ### One frame -/

variable (c : Codec α)

/-- Bytes before the payload. -/
def headerLen : ℕ := 8

def bytes (v : α) : Bytes :=
  be32 (c.encode v).length ++ be32 (c.check (be32 (c.encode v).length)).toNat ++ c.encode v

/-- The payload's length has a four-byte form. -/
def Fits (v : α) : Prop := (c.encode v).length < 2 ^ 32

instance (v : α) : Decidable (Fits c v) := inferInstanceAs (Decidable (_ < _))

inductive Next (α : Type) where
  /-- Nothing left. -/
  | end_
  /-- An incomplete final frame: the header or payload is cut short. -/
  | torn
  /-- A whole frame and its length in bytes. -/
  | frame (v : α) (len : ℕ)

def next (rest : Bytes) : Except String (Next α) :=
  if rest = [] then .ok .end_
  else if rest.length < headerLen then .ok .torn
  else if (rest.drop 4).take 4 ≠ be32 (c.check (rest.take 4)).toNat then
    .error "frame header check failed"
  else if rest.length < headerLen + ofBe32 (rest.take 4) then .ok .torn
  else
    match c.decode ((rest.drop headerLen).take (ofBe32 (rest.take 4))) with
    | some v => .ok (.frame v (headerLen + ofBe32 (rest.take 4)))
    | none =>
      .error ("frame payload: " ++ c.fault ((rest.drop headerLen).take (ofBe32 (rest.take 4))))

theorem next_frame_le {rest : Bytes} {v : α} {n : ℕ} (h : next c rest = .ok (.frame v n)) :
    0 < n ∧ n ≤ rest.length := by
  rw [next] at h
  split_ifs at h with h1 h2 h3 h4
  · cases h
  · cases h
  · cases h
  · split at h
    · cases h
      exact ⟨by rw [headerLen]; omega, by omega⟩
    · cases h

/-- The whole frames with their offsets, where they end, and where an
incomplete final frame begins. -/
structure Parsed (α : Type) where
  frames : List (ℕ × α)
  end_ : ℕ
  cut : Option ℕ

/-- Parse every whole frame of `rest`, which starts at offset `at_`. -/
def parse (at_ : ℕ) (rest : Bytes) : Except (ℕ × String) (Parsed α) :=
  match _h : next c rest with
  | .ok .end_ => .ok ⟨[], at_, none⟩
  | .ok .torn => .ok ⟨[], at_, some at_⟩
  | .ok (.frame v n) =>
    (parse (at_ + n) (rest.drop n)).map fun p => { p with frames := (at_, v) :: p.frames }
  | .error why => .error (at_, why)
termination_by rest.length
decreasing_by
  have hn := next_frame_le c _h
  rw [List.length_drop]
  omega

section Parse

variable {c} {at_ n : ℕ} {rest : Bytes} {v : α}

theorem parse_end (h : next c rest = .ok .end_) : parse c at_ rest = .ok ⟨[], at_, none⟩ := by
  rw [parse]
  split <;> rename_i h' <;> rw [h] at h' <;> cases h'

theorem parse_torn (h : next c rest = .ok .torn) : parse c at_ rest = .ok ⟨[], at_, some at_⟩ := by
  rw [parse]
  split <;> rename_i h' <;> rw [h] at h' <;> cases h'

theorem parse_frame (h : next c rest = .ok (.frame v n)) :
    parse c at_ rest =
      (parse c (at_ + n) (rest.drop n)).map fun p => { p with frames := (at_, v) :: p.frames } := by
  rw [parse]
  split <;> rename_i h' <;> rw [h] at h' <;> cases h'
  rfl

end Parse

/-! ### Reading back -/

theorem length_bytes (v : α) : (bytes c v).length = headerLen + (c.encode v).length := by
  simp only [bytes, headerLen, List.length_append, length_be32]

theorem header_fields (n k : ℕ) (t : Bytes) :
    (be32 n ++ be32 k ++ t).take 4 = be32 n ∧
      ((be32 n ++ be32 k ++ t).drop 4).take 4 = be32 k ∧
      (be32 n ++ be32 k ++ t).drop headerLen = t := ⟨rfl, rfl, rfl⟩

/-- **A whole frame reads back.** -/
theorem next_bytes (hc : c.Lawful) {v : α} (hv : Fits c v) (tail : Bytes) :
    next c (bytes c v ++ tail) = .ok (.frame v (bytes c v).length) := by
  obtain ⟨h4, h8, hdrop⟩ := header_fields (c.encode v).length
    (c.check (be32 (c.encode v).length)).toNat (c.encode v ++ tail)
  rw [← List.append_assoc, ← bytes] at h4 h8 hdrop
  have hlen : (bytes c v ++ tail).length = headerLen + (c.encode v).length + tail.length := by
    rw [List.length_append, length_bytes]
  have hne : bytes c v ++ tail ≠ [] := by
    intro h
    rw [h, headerLen] at hlen
    simp at hlen
    omega
  rw [next, if_neg hne, if_neg (by omega), h4, if_neg (by rw [h8]; simp), ofBe32_be32 hv,
    if_neg (by omega), hdrop, List.take_left, hc v, length_bytes]

/-- **A proper part of a frame is torn**, wherever it was cut. -/
theorem next_torn {v : α} (hv : Fits c v) {p t : Bytes} (hp : p ++ t = bytes c v) (h0 : p ≠ [])
    (ht : t ≠ []) : next c p = .ok .torn := by
  have hlen : p.length + t.length = headerLen + (c.encode v).length := by
    rw [← length_bytes, ← hp, List.length_append]
  have htlen := List.length_pos_iff.mpr ht
  rw [next, if_neg h0]
  by_cases hshort : p.length < headerLen
  · rw [if_pos hshort]
  · -- the header is whole, so it is the frame's header
    have hhead : ∃ q, p = be32 (c.encode v).length ++
        be32 (c.check (be32 (c.encode v).length)).toNat ++ q := by
      rcases List.append_eq_append_iff.mp hp with ⟨q, hq, -⟩ | ⟨q, hq, -⟩
      · have h := congrArg List.length hq
        simp only [List.length_append, length_be32] at h
        rw [headerLen] at hshort
        have hq0 : q = [] := List.length_eq_zero_iff.mp (by omega)
        exact ⟨[], by rw [hq, hq0, List.append_nil, List.append_nil]⟩
      · exact ⟨q, hq⟩
    obtain ⟨q, rfl⟩ := hhead
    obtain ⟨h4, h8, -⟩ := header_fields (c.encode v).length
      (c.check (be32 (c.encode v).length)).toNat q
    rw [if_neg hshort, h4, if_neg (by rw [h8]; simp), ofBe32_be32 hv, if_pos (by omega)]

/-! ### A sequence of frames -/

/-- The frames of several values, one after another. -/
def bytesAll (vs : List α) : Bytes := (vs.map (bytes c)).flatten

@[simp] theorem bytesAll_nil : bytesAll c ([] : List α) = [] := rfl

@[simp] theorem bytesAll_cons (v : α) (vs : List α) :
    bytesAll c (v :: vs) = bytes c v ++ bytesAll c vs := rfl

theorem bytesAll_snoc (vs : List α) (v : α) :
    bytesAll c (vs ++ [v]) = bytesAll c vs ++ bytes c v := by
  simp [bytesAll]

/-- The bytes are empty or a proper part of some frame. -/
def TornTail (tail : Bytes) : Prop :=
  tail = [] ∨ ∃ v t, Fits c v ∧ t ≠ [] ∧ tail ++ t = bytes c v

/-- **A log reads back**: the whole frames, where they end, and whether a torn
tail follows. -/
theorem parse_bytesAll (hc : c.Lawful) {tail : Bytes} (ht : TornTail c tail) :
    ∀ {vs : List α} (at_ : ℕ), (∀ v ∈ vs, Fits c v) →
      ∃ frames, parse c at_ (bytesAll c vs ++ tail) =
          .ok ⟨frames, at_ + (bytesAll c vs).length,
            if tail = [] then none else some (at_ + (bytesAll c vs).length)⟩ ∧
        frames.map (·.2) = vs := by
  intro vs
  induction vs with
  | nil =>
    intro at_ _
    refine ⟨[], ?_, rfl⟩
    rw [bytesAll_nil, List.nil_append]
    by_cases h0 : tail = []
    · rw [if_pos h0, h0]
      exact parse_end rfl
    · obtain ⟨v, t, hv, ht, htail⟩ := ht.resolve_left h0
      rw [if_neg h0]
      exact parse_torn (next_torn c hv htail h0 ht)
  | cons v vs ih =>
    intro at_ hfits
    have hnext : next c (bytesAll c (v :: vs) ++ tail) = .ok (.frame v (bytes c v).length) := by
      rw [bytesAll_cons, List.append_assoc]
      exact next_bytes c hc (hfits v (by simp)) _
    obtain ⟨frames, hparse, hvs⟩ := ih (at_ + (bytes c v).length)
      (fun w hw => hfits w (List.mem_cons_of_mem _ hw))
    refine ⟨(at_, v) :: frames, ?_, by rw [List.map_cons, hvs]⟩
    rw [parse_frame hnext, bytesAll_cons, List.append_assoc, List.drop_left, hparse,
      List.length_append, ← Nat.add_assoc]
    rfl

/-! ### The first bytes of a sequence -/

def placed (at_ : ℕ) : List α → List (ℕ × α)
  | [] => []
  | v :: vs => (at_, v) :: placed (at_ + (bytes c v).length) vs

/-- The values whose frames are whole in the first `n` bytes. -/
def whole (n : ℕ) : List α → List α
  | [] => []
  | v :: vs =>
    if (bytes c v).length ≤ n then v :: whole (n - (bytes c v).length) vs else []

theorem placed_map_snd {vs : List α} : ∀ {at_ : ℕ}, (placed c at_ vs).map (·.2) = vs := by
  induction vs with
  | nil =>
    intro at_
    rfl
  | cons v vs ih =>
    intro at_
    rw [placed, List.map_cons, ih]

theorem placed_append {ws : List α} {vs : List α} :
    ∀ {at_ : ℕ}, placed c at_ (vs ++ ws) =
      placed c at_ vs ++ placed c (at_ + (bytesAll c vs).length) ws := by
  induction vs with
  | nil =>
    intro at_
    rfl
  | cons v vs ih =>
    intro at_
    rw [List.cons_append, placed, placed, ih, bytesAll_cons, List.length_append, Nat.add_assoc]
    rfl

theorem placed_end (vs : List α) (at_ : ℕ) :
    ((placed c at_ vs).getLast?.map fun p => p.1 + (bytes c p.2).length).getD at_ =
      at_ + (bytesAll c vs).length := by
  induction vs using List.reverseRecOn with
  | nil => rfl
  | append_singleton vs v _ =>
    rw [placed_append, placed, placed, List.getLast?_append, bytesAll_snoc, List.length_append,
      ← Nat.add_assoc]
    rfl

theorem le_of_mem_placed {vs : List α} {p : ℕ × α} :
    ∀ {at_ : ℕ}, p ∈ placed c at_ vs → at_ ≤ p.1 := by
  induction vs with
  | nil =>
    intro at_ h
    cases h
  | cons v vs ih =>
    intro at_ h
    obtain rfl | h := List.mem_cons.mp h
    · exact le_rfl
    · have hle := ih h
      omega

theorem placed_whole {vs : List α} :
    ∀ {at_ n : ℕ}, placed c at_ (whole c n vs) =
      (placed c at_ vs).filter fun p => decide (p.1 + (bytes c p.2).length ≤ at_ + n) := by
  induction vs with
  | nil =>
    intro at_ n
    rfl
  | cons v vs ih =>
    intro at_ n
    rw [whole, placed, List.filter_cons]
    by_cases hn : (bytes c v).length ≤ n
    · have hsum : at_ + (bytes c v).length + (n - (bytes c v).length) = at_ + n := by omega
      rw [if_pos hn, placed, ih, hsum, if_pos (by simpa using hn)]
    · -- the frame is not whole, and those after it end later still
      rw [if_neg hn, placed, if_neg (by simpa using hn)]
      symm
      refine List.filter_eq_nil_iff.mpr fun p hp => ?_
      have hle := le_of_mem_placed c hp
      simp only [decide_eq_true_eq]
      omega

theorem length_bytesAll_cons_eq_iff {v : α} {vs : List α} {n : ℕ} (hn : (bytes c v).length ≤ n) :
    (bytesAll c (v :: vs)).length = n ↔ (bytesAll c vs).length = n - (bytes c v).length := by
  rw [bytesAll_cons, List.length_append]
  omega

/-- The whole frames fill the first `n` bytes exactly at a frame boundary. -/
theorem length_whole_eq_iff {vs : List α} :
    ∀ {n : ℕ}, (bytesAll c (whole c n vs)).length = n ↔
      ∃ k, n = (bytesAll c (vs.take k)).length := by
  induction vs with
  | nil =>
    intro n
    simp [whole, eq_comm]
  | cons v vs ih =>
    intro n
    rw [whole]
    split
    · rename_i hn
      rw [length_bytesAll_cons_eq_iff c hn, ih]
      constructor
      · rintro ⟨k, hk⟩
        refine ⟨k + 1, ?_⟩
        rw [List.take_succ_cons, bytesAll_cons, List.length_append]
        omega
      · rintro ⟨k, hk⟩
        have hpos : 0 < (bytes c v).length := by
          rw [length_bytes, headerLen]
          omega
        cases k with
        | zero =>
          rw [List.take_zero, bytesAll_nil, List.length_nil] at hk
          omega
        | succ k =>
          rw [List.take_succ_cons, bytesAll_cons, List.length_append] at hk
          exact ⟨k, by omega⟩
    · rename_i hn
      constructor
      · intro h
        exact ⟨0, h.symm⟩
      · rintro ⟨k, hk⟩
        cases k with
        | zero => exact hk.symm
        | succ k =>
          rw [List.take_succ_cons, bytesAll_cons, List.length_append] at hk
          omega

/-- **The first bytes of a sequence** parse to the whole frames in them, and
what is left over is a torn tail. -/
theorem parse_take (hc : c.Lawful) {vs : List α} :
    ∀ {at_ n : ℕ}, (∀ v ∈ vs, Fits c v) → n ≤ (bytesAll c vs).length →
      parse c at_ ((bytesAll c vs).take n) =
        .ok ⟨placed c at_ (whole c n vs), at_ + (bytesAll c (whole c n vs)).length,
          if (bytesAll c (whole c n vs)).length = n then none
          else some (at_ + (bytesAll c (whole c n vs)).length)⟩ := by
  induction vs with
  | nil =>
    intro at_ n _ hn
    obtain rfl : n = 0 := Nat.le_zero.mp hn
    exact parse_end rfl
  | cons v vs ih =>
    intro at_ n hfits hle
    rw [bytesAll_cons, List.length_append] at hle
    obtain ⟨hv, hvs⟩ := List.forall_mem_cons.mp hfits
    rw [bytesAll_cons, List.take_append, whole]
    by_cases hn : (bytes c v).length ≤ n
    · rw [if_pos hn, List.take_of_length_le hn,
        parse_frame (next_bytes c hc hv _), List.drop_left, ih hvs (by omega)]
      simp only [length_bytesAll_cons_eq_iff c hn]
      rw [bytesAll_cons, List.length_append, ← Nat.add_assoc]
      rfl
    · -- the cut is inside the first frame
      have hrest : n - (bytes c v).length = 0 := by omega
      rw [if_neg hn, hrest, List.take_zero, List.append_nil]
      by_cases h0 : n = 0
      · subst h0
        exact parse_end rfl
      · have htorn : next c ((bytes c v).take n) = .ok .torn := by
          refine next_torn c hv (List.take_append_drop n _) ?_ ?_
          · rw [ne_eq, List.take_eq_nil_iff, not_or]
            refine ⟨h0, fun hnil => hn ?_⟩
            rw [hnil]
            exact Nat.zero_le n
          · rw [ne_eq, List.drop_eq_nil_iff]
            exact hn
        rw [parse_torn htorn, bytesAll_nil, List.length_nil, if_neg (fun h => h0 h.symm)]
        rfl

/-! ### Whatever parses -/

/-- The decoder accepts exactly the encodings of values. -/
def Codec.Exact (c : Codec α) : Prop :=
  ∀ {bs : Bytes} {v : α}, c.decode bs = some v ↔ bs = c.encode v

theorem Codec.Exact.lawful {c : Codec α} (h : c.Exact) : c.Lawful := fun _ => h.mpr rfl

theorem be32_ofBe32 {b : Bytes} (h : b.length = 4) : be32 (ofBe32 b) = b ∧ ofBe32 b < 2 ^ 32 := by
  obtain ⟨w, x, y, z, rfl⟩ : ∃ w x y z, b = [w, x, y, z] := by
    match b, h with
    | [w, x, y, z], _ => exact ⟨w, x, y, z, rfl⟩
  have hw := w.toNat_lt
  have hx := x.toNat_lt
  have hy := y.toNat_lt
  have hz := z.toNat_lt
  have hval : ofBe32 [w, x, y, z] =
      ((w.toNat * 256 + x.toNat) * 256 + y.toNat) * 256 + z.toNat := by
    simp [ofBe32]
  have hbyte : ∀ (n : ℕ) (u : UInt8), n % 256 = u.toNat → UInt8.ofNat n = u := by
    intro n u hnu
    rw [← UInt8.toNat_inj, UInt8.toNat_ofNat']
    exact hnu
  rw [hval]
  refine ⟨?_, by omega⟩
  rw [be32, hbyte _ w (by omega), hbyte _ x (by omega), hbyte _ y (by omega), hbyte _ z (by omega)]

/-- **A frame that reads is the frame of its value.** -/
theorem next_sound (hc : c.Exact) {rest : Bytes} {v : α} {n : ℕ}
    (h : next c rest = .ok (.frame v n)) :
    Fits c v ∧ n = (bytes c v).length ∧ rest = bytes c v ++ rest.drop n := by
  rw [next] at h
  split_ifs at h with h0 hshort hcheck hlen
  · cases h
  · cases h
  · cases h
  · cases hdecode : c.decode ((rest.drop headerLen).take (ofBe32 (rest.take 4))) with
    | none =>
      rw [hdecode] at h
      cases h
    | some w =>
      rw [hdecode] at h
      cases h
      have h8 : 8 ≤ rest.length := not_lt.mp hshort
      have hlen4 : (rest.take 4).length = 4 := by
        rw [List.length_take]
        omega
      obtain ⟨hbe, hlt⟩ := be32_ofBe32 hlen4
      have hpayload := hc.mp hdecode
      have hplen : (c.encode v).length = ofBe32 (rest.take 4) := by
        rw [← hpayload, List.length_take, List.length_drop]
        omega
      have hfield := not_not.mp hcheck
      refine ⟨lt_of_eq_of_lt hplen hlt, by rw [length_bytes, hplen], ?_⟩
      -- the three parts of the frame, and what is left
      have hbytes : bytes c v = rest.take 4 ++ (rest.drop 4).take 4 ++
          (rest.drop headerLen).take (ofBe32 (rest.take 4)) := by
        rw [bytes, hplen, hbe, ← hfield, hpayload]
      have hback : (rest.drop headerLen).take (ofBe32 (rest.take 4)) ++
          rest.drop (headerLen + ofBe32 (rest.take 4)) = rest.drop headerLen := by
        rw [← List.drop_drop, List.take_append_drop]
      have hmid : (rest.drop 4).take 4 ++ rest.drop headerLen = rest.drop 4 := by
        rw [headerLen, ← List.drop_drop (i := 4) (j := 4), List.take_append_drop]
      rw [hbytes, List.append_assoc, List.append_assoc, hback, hmid, List.take_append_drop]

theorem nil_of_next_end {rest : Bytes} (h : next c rest = .ok .end_) : rest = [] := by
  rw [next] at h
  split_ifs at h with h0 h1 h2 h3
  · exact h0
  · cases h
  · cases h
  · split at h <;> cases h

theorem ne_nil_of_next_torn {rest : Bytes} (h : next c rest = .ok .torn) : rest ≠ [] := by
  rintro rfl
  cases h

/-- **Whatever parses is a sequence of frames up to its end.** -/
theorem parse_sound (hc : c.Exact) {at_ : ℕ} {rest : Bytes} {p : Parsed α}
    (h : parse c at_ rest = .ok p) :
    ∃ vs tail, (∀ v ∈ vs, Fits c v) ∧ rest = bytesAll c vs ++ tail ∧ p.frames = placed c at_ vs ∧
      p.end_ = at_ + (bytesAll c vs).length ∧
      p.cut = if tail = [] then none else some p.end_ := by
  induction at_, rest using parse.induct c generalizing p with
  | case1 at_ rest hnext =>
    rw [parse_end hnext] at h
    cases h
    exact ⟨[], [], fun v hv => (nomatch hv), nil_of_next_end c hnext, rfl, rfl, rfl⟩
  | case2 at_ rest hnext =>
    rw [parse_torn hnext] at h
    cases h
    refine ⟨[], rest, fun v hv => (nomatch hv), rfl, rfl, rfl, ?_⟩
    rw [if_neg (ne_nil_of_next_torn c hnext)]
  | case3 at_ rest v n hnext ih =>
    obtain ⟨hv, rfl, hrest⟩ := next_sound c hc hnext
    rw [parse_frame hnext] at h
    cases hp : parse c (at_ + (bytes c v).length) (rest.drop (bytes c v).length) with
    | error e =>
      rw [hp] at h
      cases h
    | ok q =>
      rw [hp] at h
      cases h
      obtain ⟨vs, tail, hvs, hdrop, hframes, hend, hcut⟩ := ih hp
      refine ⟨v :: vs, tail, List.forall_mem_cons.mpr ⟨hv, hvs⟩, ?_, ?_, ?_, hcut⟩
      · rw [hrest, hdrop, bytesAll_cons, List.append_assoc]
      · simp only [hframes, placed]
      · simp only [hend, bytesAll_cons, List.length_append, Nat.add_assoc]
  | case4 at_ rest why hnext =>
    rw [parse] at h
    split at h <;> rename_i h' <;> rw [hnext] at h' <;> cases h'
    cases h

end Framing
