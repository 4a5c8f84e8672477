/-
Sequences that survive restarts.

A receiver takes a sequence only above all it has seen from that key, so a bus
that restarts must not number from 1 again.  It reserves sequences in blocks, in
a file: the block is written to a staging file, synced, renamed into place and
the directory synced before the first sequence of it is issued.  A host runs one
bus after another under one key; any step of a reservation may fail, with or
without its effect, the process may die in it, and power may be lost.

* `reserveUnix_done` — a reservation that returns is durable;
* `Host.Sound` — what is reserved for good is above everything issued;
* `sequences_survive_restarts` — the sequences of all incarnations increase.
-/
import AgentMesh.Decimal
import AgentMesh.Replace
import AgentMesh.Sending

open Mesh

namespace Bus

/-! ### The file -/

/-- White space in UTF-8. -/
def whiteSpace : List Bytes :=
  [[9], [10], [11], [12], [13], [32], [0xc2, 0x85], [0xc2, 0xa0], [0xe1, 0x9a, 0x80]] ++
    (List.range 11).map (fun i => [0xe2, 0x80, UInt8.ofNat (0x80 + i)]) ++
    [[0xe2, 0x80, 0xa8], [0xe2, 0x80, 0xa9], [0xe2, 0x80, 0xaf], [0xe2, 0x81, 0x9f],
      [0xe3, 0x80, 0x80]]

/-- Drop up to `n` of the given spaces at the front. -/
def dropSpaces (spaces : List Bytes) : ℕ → Bytes → Bytes
  | 0, b => b
  | n + 1, b =>
    match spaces.find? (·.isPrefixOf b) with
    | some space => dropSpaces spaces n (b.drop space.length)
    | none => b

/-- `str::trim`; the back is trimmed as the front of what is read backwards. -/
def trim (b : Bytes) : Bytes :=
  let front := dropSpaces whiteSpace b.length b
  (dropSpaces (whiteSpace.map List.reverse) front.length front.reverse).reverse

/-- Read digits behind a number already read, as long as it fits 64 bits. -/
def digitsU64 : ℕ → Bytes → Except String ℕ
  | acc, [] => .ok acc
  | acc, c :: cs =>
    if Decimal.isDigit c then
      if acc * 10 + (c.toNat - 48) < 2 ^ 64 then digitsU64 (acc * 10 + (c.toNat - 48)) cs
      else .error "number too large to fit in target type"
    else .error "invalid digit found in string"

/-- `str::parse`: a sign may precede the digits. -/
def parseU64 : Bytes → Except String ℕ
  | [] => .error "cannot parse integer from empty string"
  | 43 :: d :: ds => digitsU64 0 (d :: ds)
  | text => digitsU64 0 text

structure ReservePlan where
  create : Fate
  write : Fate
  /-- What a write that did not return leaves. -/
  junk : Option (Bytes × Bool)
  sync : Fate
  rename : Fate
  syncDir : Fate
  /-- The error of the step that fails. -/
  why : String

/-- Stage, sync, rename, sync the directory.  The staging file has a name of its
own, and one that is left behind is never read. -/
def reserveUnix (d : Dir Bytes) (through : ℕ) (p : ReservePlan) : Dir Bytes × Ended :=
  Dir.andThen p.create d fun d =>
  Dir.andThen p.write (d.write (Decimal.encode through) p.write p.junk) fun d =>
  Dir.andThen p.sync (d.syncTmp p.sync) fun d =>
  Dir.andThen p.rename (d.rename p.rename) fun d =>
  Dir.andThen p.syncDir (d.syncDir p.syncDir) fun d => (d, .done)

/-- The highest sequence reserved so far; `fault` is why the file cannot be
read, if it cannot. -/
def FileSequenceReservations.reserved (path : String) (d : Dir Bytes) (fault : Option String) :
    Except BusError ℕ :=
  match fault, d.file with
  | some e, _ => .error (.sequenceReservation (path ++ ": " ++ e))
  | none, none => .ok 0
  | none, some (text, _) =>
    (parseU64 (trim text)).mapError fun e => .sequenceReservation (path ++ ": " ++ e)

/-- Sequences from above everything reserved. -/
def Sequencer.reserving (path : String) (d : Dir Bytes) (fault : Option String) :
    Except BusError Sequencer := do
  let last ← FileSequenceReservations.reserved path d fault
  return ⟨last, last⟩

/-! ### A host -/

/-- A host with the reservations of one key. -/
structure Host where
  dir : Dir Bytes
  /-- The sequencer of the bus that runs, if one does. -/
  bus : Option Sequencer
  /-- Every sequence issued, by whatever bus. -/
  issued : List ℕ

namespace Host

def new : Host := ⟨⟨none, none, []⟩, none, []⟩

/-- The block that a bus reserves next. -/
def through (s : Sequencer) : ℕ := min (s.reserved + Sequencer.reservationBlock) (2 ^ 64 - 1)

/-- What a call of `next` on this sequencer leaves. -/
def issue (h : Host) (s : Sequencer) (reserve : Option (Except BusError Unit)) :
    Host × Option (Except BusError ℕ) :=
  match s.next reserve with
  | (s, .ok seq) => (⟨h.dir, some s, h.issued ++ [seq]⟩, some (.ok seq))
  | (s, .error e) => (⟨h.dir, some s, h.issued⟩, some (.error e))

/-- A call of `next` on the bus that runs; no result if the process dies in it. -/
def next (path : String) (h : Host) (p : ReservePlan) : Host × Option (Except BusError ℕ) :=
  match h.bus with
  | none => (h, none)
  | some s =>
    if s.last + 1 < 2 ^ 64 ∧ s.reserved < s.last + 1 then
      match reserveUnix h.dir (through s) p with
      | (d, .done) => issue { h with dir := d } s (some (.ok ()))
      | (d, .failed) =>
        issue { h with dir := d } s (some (.error (.sequenceReservation (path ++ ": " ++ p.why))))
      | (d, .died) => ({ h with dir := d, bus := none }, none)
    else h.issue s none

inductive Act where
  /-- A bus binds, if none runs. -/
  | bind (fault : Option String)
  | next (p : ReservePlan)
  /-- The bus ends, in order or by a crash of its process. -/
  | stop
  | powerLoss (pick : ℕ) (junk : Bytes) (tmp : Option (Bytes × Bool))

def step (path : String) (h : Host) : Act → Host
  | .bind fault =>
    match h.bus, Sequencer.reserving path h.dir fault with
    | none, .ok s => { h with bus := some s }
    | _, _ => h
  | .next p => (h.next path p).1
  | .stop => { h with bus := none }
  | .powerLoss pick junk tmp => { h with dir := h.dir.powerLoss pick junk tmp, bus := none }

def run (path : String) (acts : List Act) : Host := acts.foldl (step path) new

end Host

/-! ### What is reserved -/

theorem dropSpaces_digits {spaces : List Bytes}
    (hspaces : ∀ space ∈ spaces, space.head?.any (fun c => !Decimal.isDigit c) = true) {b : Bytes}
    (h : ∀ c ∈ b, Decimal.isDigit c = true) (n : ℕ) : dropSpaces spaces n b = b := by
  cases n with
  | zero => rfl
  | succ n =>
    have hnone : spaces.find? (·.isPrefixOf b) = none := by
      refine List.find?_eq_none.mpr fun space hspace hfront => ?_
      obtain ⟨c, hc, hother⟩ := (Option.any_eq_true _ _).mp (hspaces space hspace)
      have hmem := (List.isPrefixOf_iff_prefix.mp hfront).subset (List.mem_of_mem_head? hc)
      rw [h c hmem] at hother
      cases hother
    rw [dropSpaces, hnone]

theorem trim_digits {b : Bytes} (h : ∀ c ∈ b, Decimal.isDigit c = true) : trim b = b := by
  have hreverse : ∀ c ∈ b.reverse, Decimal.isDigit c = true :=
    fun c hc => h c (List.mem_reverse.mp hc)
  rw [trim, dropSpaces_digits (by decide) h, dropSpaces_digits (by decide) hreverse,
    List.reverse_reverse]

theorem digitsU64_of_valueFrom {b : Bytes} {acc n : ℕ} (h : Decimal.valueFrom acc b = some n)
    (hn : n < 2 ^ 64) : acc ≤ n ∧ digitsU64 acc b = .ok n := by
  induction b generalizing acc with
  | nil =>
    cases h
    exact ⟨le_rfl, rfl⟩
  | cons c b ih =>
    rw [Decimal.valueFrom] at h
    split at h
    · rename_i hc
      obtain ⟨hle, hok⟩ := ih h
      refine ⟨by omega, ?_⟩
      rw [digitsU64, if_pos hc, if_pos (hle.trans_lt hn), hok]
    · exact absurd h (by simp)

/-- **A number that was written is read back.** -/
theorem parseU64_encode {n : ℕ} (h : n < 2 ^ 64) : parseU64 (trim (Decimal.encode n)) = .ok n := by
  obtain ⟨hne, hdigits⟩ := Decimal.encode_digits n
  rw [trim_digits hdigits]
  have hok := (digitsU64_of_valueFrom (Decimal.value_encode n) h).2
  revert hne hdigits hok
  generalize Decimal.encode n = b
  intro hne hdigits hok
  unfold parseU64
  split
  · exact absurd rfl hne
  · exact absurd (hdigits 43 List.mem_cons_self) (by decide)
  · exact hok

def ReadsAs (n : ℕ) (x : Option Bytes) : Prop := (n = 0 ∧ x = none) ∨ x = some (Decimal.encode n)

/-- The file reads as a number, and one that is at least `lo`. -/
def Reserves (lo : ℕ) (x : Option Bytes) : Prop := ∃ n, ReadsAs n x ∧ lo ≤ n ∧ n < 2 ^ 64

theorem Reserves.mono {lo lo' : ℕ} {x : Option Bytes} (h : Reserves lo x) (hle : lo' ≤ lo) :
    Reserves lo' x := by
  obtain ⟨n, hn, hlo, hmax⟩ := h
  exact ⟨n, hn, hle.trans hlo, hmax⟩

theorem reserved_of_kept (path : String) {d : Dir Bytes} {lo : ℕ} (h : d.Kept (Reserves lo)) :
    ∃ n, FileSequenceReservations.reserved path d none = .ok n ∧ lo ≤ n ∧ n < 2 ^ 64 := by
  obtain ⟨x, hx, n, ⟨rfl, rfl⟩ | rfl, hlo, hmax⟩ := h.seen
  · refine ⟨0, ?_, hlo, hmax⟩
    unfold FileSequenceReservations.reserved
    rw [hx]
    rfl
  · refine ⟨n, ?_, hlo, hmax⟩
    unfold FileSequenceReservations.reserved
    rw [hx]
    show (parseU64 (trim (Decimal.encode n))).mapError _ = _
    rw [parseU64_encode hmax]
    rfl

theorem reserveUnix_kept {d : Dir Bytes} {lo through : ℕ} (h : d.Kept (Reserves lo))
    (hlo : lo ≤ through) (hmax : through < 2 ^ 64) (p : ReservePlan) :
    (reserveUnix d through p).1.Kept (Reserves lo) := by
  have hnew : Reserves lo (some (Decimal.encode through)) := ⟨through, .inr rfl, hlo, hmax⟩
  refine h.andThen fun _ => ?_
  refine (h.write _ _ _).andThen fun hwrite => ?_
  refine ((h.write _ _ _).syncTmp _).andThen fun hsync => ?_
  have htmp : ((d.write (Decimal.encode through) p.write p.junk).syncTmp p.sync).tmp =
      some (Decimal.encode through, true) := by
    rw [Dir.syncTmp, Dir.write, hwrite, hsync]
    rfl
  refine (((h.write _ _ _).syncTmp _).rename htmp hnew _).andThen fun _ => ?_
  exact ((((h.write _ _ _).syncTmp _).rename htmp hnew _).syncDir _).andThen fun _ =>
    (((h.write _ _ _).syncTmp _).rename htmp hnew _).syncDir _

/-- **A reservation that returns is durable.** -/
theorem reserveUnix_done {d : Dir Bytes} {through : ℕ} {p : ReservePlan}
    (h : (reserveUnix d through p).2 = .done) :
    (reserveUnix d through p).1.file = some (Decimal.encode through, true) ∧
      (reserveUnix d through p).1.olds = [] := by
  simp only [reserveUnix, Dir.andThen_done, and_true] at h
  obtain ⟨hcreate, hwrite, hsync, hrename, hsyncDir⟩ := h
  simp only [reserveUnix, hcreate, hwrite, hsync, hrename, hsyncDir, Dir.andThen, Dir.write,
    Dir.syncTmp, Dir.rename, Dir.syncDir, Fate.effect, if_true]
  exact ⟨rfl, trivial⟩

/-! ### The invariant -/

namespace Host

variable {path : String} {h h' : Host} {s : Sequencer} {p : ReservePlan}
  {r : Option (Except BusError ℕ)}

/-- What a call of `next` can do to a host whose bus has issued and reserved
`s`. -/
inductive Moves (h : Host) (s : Sequencer) (p : ReservePlan) :
    Host → Option (Except BusError ℕ) → Prop
  | exhausted (hmax : 2 ^ 64 ≤ s.last + 1) :
    Moves h s p ⟨h.dir, some s, h.issued⟩
      (some (.error (.sequenceReservation "sequences exhausted")))
  | inBlock (hmax : s.last + 1 < 2 ^ 64) (hblock : s.last + 1 ≤ s.reserved) :
    Moves h s p ⟨h.dir, some ⟨s.last + 1, s.reserved⟩, h.issued ++ [s.last + 1]⟩
      (some (.ok (s.last + 1)))
  | newBlock (hmax : s.last + 1 < 2 ^ 64) (hblock : s.reserved < s.last + 1)
    (hdone : (reserveUnix h.dir (through s) p).2 = .done) :
    Moves h s p ⟨(reserveUnix h.dir (through s) p).1, some ⟨s.last + 1, through s⟩,
      h.issued ++ [s.last + 1]⟩ (some (.ok (s.last + 1)))
  | failed (e : BusError) (hmax : s.last + 1 < 2 ^ 64) (hblock : s.reserved < s.last + 1) :
    Moves h s p ⟨(reserveUnix h.dir (through s) p).1, some s, h.issued⟩ (some (.error e))
  | died (hmax : s.last + 1 < 2 ^ 64) (hblock : s.reserved < s.last + 1) :
    Moves h s p ⟨(reserveUnix h.dir (through s) p).1, none, h.issued⟩ none

theorem next_moves (hbus : h.bus = some s) :
    Moves h s p (h.next path p).1 (h.next path p).2 := by
  rw [next, hbus]
  dsimp only
  by_cases hmax : 2 ^ 64 ≤ s.last + 1
  · rw [if_neg (by omega), issue]
    unfold Sequencer.next
    rw [if_pos hmax]
    exact .exhausted hmax
  have hroom : s.last + 1 < 2 ^ 64 := Nat.lt_of_not_le hmax
  by_cases hblock : s.reserved < s.last + 1
  · rw [if_pos ⟨hroom, hblock⟩]
    generalize hr : reserveUnix h.dir (through s) p = res
    obtain ⟨d, e⟩ := res
    have hd : d = (reserveUnix h.dir (through s) p).1 := by rw [hr]
    cases e with
    | done =>
      have hdone : (reserveUnix h.dir (through s) p).2 = .done := by rw [hr]
      simp only [issue, Sequencer.next, if_neg hmax, if_pos hblock]
      rw [hd]
      exact .newBlock hroom hblock hdone
    | failed =>
      simp only [issue, Sequencer.next, if_neg hmax, if_pos hblock]
      rw [hd]
      exact .failed _ hroom hblock
    | died =>
      dsimp only
      rw [hd]
      exact .died hroom hblock
  · rw [if_neg (by omega), issue]
    unfold Sequencer.next
    rw [if_neg hmax, if_neg hblock]
    exact .inBlock hroom (Nat.le_of_not_lt hblock)

/-- A sequencer is above what was issued, and the rest of its block is reserved
for good. -/
structure Leads (h : Host) (s : Sequencer) : Prop where
  issued : ∀ x ∈ h.issued, x ≤ s.last
  block : s.last ≤ s.reserved
  small : s.reserved < 2 ^ 64
  kept : s.last < s.reserved → h.dir.Kept (Reserves s.reserved)

/-- The invariant: whatever power loss leaves in the file is at least every
sequence issued. -/
structure Sound (h : Host) : Prop where
  increasing : h.issued.Pairwise (· < ·)
  positive : ∀ x ∈ h.issued, 1 ≤ x
  kept : ∀ x ∈ 0 :: h.issued, h.dir.Kept (Reserves x)
  leads : ∀ s, h.bus = some s → h.Leads s

theorem new_sound : new.Sound where
  increasing := .nil
  positive x hx := absurd hx List.not_mem_nil
  kept x hx := by
    rw [List.mem_singleton.mp hx]
    exact Dir.Kept.of_settled (x := none) rfl rfl ⟨0, .inl ⟨rfl, rfl⟩, le_rfl, by decide⟩
  leads s hs := absurd hs (by simp [new])

theorem Leads.le_through (hl : h.Leads s) : s.last ≤ through s := by
  have hblock := hl.block
  have hsmall := hl.small
  rw [through]
  omega

theorem through_lt (s : Sequencer) : through s < 2 ^ 64 := by
  rw [through]
  omega

/-- A reservation, however it goes, keeps what is reserved for good. -/
theorem Sound.reserve_kept (hs : h.Sound) (hl : h.Leads s) (p : ReservePlan) :
    ∀ x ∈ 0 :: h.issued, (reserveUnix h.dir (through s) p).1.Kept (Reserves x) := by
  intro x hx
  refine reserveUnix_kept (hs.kept x hx) ?_ (through_lt s) p
  rcases List.mem_cons.mp hx with rfl | hx
  · exact Nat.zero_le _
  · exact (hl.issued x hx).trans hl.le_through

theorem Sound.issue (hs : h.Sound) (hl : h.Leads s) {d : Dir Bytes} {top : ℕ}
    (htop : s.last + 1 ≤ top) (hmax : top < 2 ^ 64) (hd : d.Kept (Reserves top)) :
    Sound ⟨d, some ⟨s.last + 1, top⟩, h.issued ++ [s.last + 1]⟩ := by
  have hbelow : ∀ x ∈ h.issued ++ [s.last + 1], x ≤ s.last + 1 := by
    intro x hx
    rcases List.mem_append.mp hx with hx | hx
    · exact (hl.issued x hx).trans (Nat.le_succ _)
    · exact (List.mem_singleton.mp hx).le
  refine ⟨?_, fun x hx => ?_, fun x hx => ?_, fun s' hs' => ?_⟩
  · refine List.pairwise_append.mpr ⟨hs.increasing, List.pairwise_singleton _ _, ?_⟩
    intro x hx y hy
    rw [List.mem_singleton.mp hy]
    exact Nat.lt_succ_of_le (hl.issued x hx)
  · rcases List.mem_append.mp hx with hx | hx
    · exact hs.positive x hx
    · rw [List.mem_singleton.mp hx]
      omega
  · refine hd.imp fun y hy => hy.mono ?_
    rcases List.mem_cons.mp hx with rfl | hx
    · exact Nat.zero_le _
    · exact (hbelow x hx).trans htop
  · cases hs'
    exact ⟨hbelow, htop, hmax, fun _ => hd⟩

theorem Moves.sound (hm : Moves h s p h' r) (hs : h.Sound) (hl : h.Leads s) : h'.Sound := by
  cases hm with
  | exhausted =>
    refine ⟨hs.increasing, hs.positive, hs.kept, fun s' hs' => ?_⟩
    cases hs'
    exact ⟨hl.issued, hl.block, hl.small, hl.kept⟩
  | inBlock hmax hblock => exact hs.issue hl hblock hl.small (hl.kept hblock)
  | newBlock hmax hblock hdone =>
    have hroom : s.last + 1 ≤ through s := by
      have hle := hl.block
      rw [through, Sequencer.reservationBlock]
      omega
    obtain ⟨hfile, holds⟩ := reserveUnix_done hdone
    exact hs.issue hl hroom (through_lt s) (Dir.Kept.of_settled (x := some _) hfile holds
      ⟨through s, .inr rfl, le_rfl, through_lt s⟩)
  | failed e hmax hblock =>
    refine ⟨hs.increasing, hs.positive, hs.reserve_kept hl p, fun s' hs' => ?_⟩
    cases hs'
    exact ⟨hl.issued, hl.block, hl.small, fun hlt => absurd hlt (by omega)⟩
  | died => exact ⟨hs.increasing, hs.positive, hs.reserve_kept hl p, nofun⟩

theorem Sound.reserving (hs : h.Sound) {fault : Option String}
    (hok : Sequencer.reserving path h.dir fault = .ok s) : h.Leads s := by
  simp only [Sequencer.reserving, bind_ok, pure, Except.pure, Except.ok.injEq] at hok
  obtain ⟨n, hn, rfl⟩ := hok
  have hread : FileSequenceReservations.reserved path h.dir none = .ok n := by
    cases fault with
    | none => exact hn
    | some e => exact absurd hn (by simp [FileSequenceReservations.reserved])
  have hle : ∀ x ∈ 0 :: h.issued, x ≤ n ∧ n < 2 ^ 64 := by
    intro x hx
    obtain ⟨m, hm, hlo, hmax⟩ := reserved_of_kept path (hs.kept x hx)
    rw [hread] at hm
    cases hm
    exact ⟨hlo, hmax⟩
  exact ⟨fun x hx => (hle x (List.mem_cons_of_mem _ hx)).1, le_rfl, (hle 0 List.mem_cons_self).2,
    fun hlt => absurd hlt (lt_irrefl n)⟩

theorem Sound.next (hs : h.Sound) (p : ReservePlan) : (h.next path p).1.Sound := by
  cases hbus : h.bus with
  | none =>
    rw [Host.next, hbus]
    exact hs
  | some s => exact (next_moves hbus).sound hs (hs.leads s hbus)

/-- **One step.** -/
theorem Sound.step (hs : h.Sound) (act : Act) : (h.step path act).Sound := by
  cases act with
  | bind fault =>
    rw [Host.step]
    split
    · rename_i s hbus hok
      refine ⟨hs.increasing, hs.positive, hs.kept, fun s' hs' => ?_⟩
      cases hs'
      have hl := hs.reserving hok
      exact ⟨hl.issued, hl.block, hl.small, hl.kept⟩
    · exact hs
  | next p => exact hs.next p
  | stop => exact ⟨hs.increasing, hs.positive, hs.kept, nofun⟩
  | powerLoss pick junk tmp =>
    exact ⟨hs.increasing, hs.positive, fun x hx => (hs.kept x hx).powerLoss pick junk tmp, nofun⟩

/-- **A run.** -/
theorem run_sound (path : String) (acts : List Act) : (run path acts).Sound := by
  have hall : ∀ h : Host, h.Sound → (acts.foldl (Host.step path) h).Sound := by
    induction acts with
    | nil => exact fun h hs => hs
    | cons act acts ih => exact fun h hs => ih _ (hs.step act)
  exact hall new new_sound

theorem next_issued (h : Host) (p : ReservePlan) :
    (∀ seq, (h.next path p).2 = some (.ok seq) → (h.next path p).1.issued = h.issued ++ [seq]) ∧
      ((∀ seq, (h.next path p).2 ≠ some (.ok seq)) → (h.next path p).1.issued = h.issued) := by
  cases hbus : h.bus with
  | none =>
    rw [Host.next, hbus]
    exact ⟨nofun, fun _ => rfl⟩
  | some s =>
    have hm : Moves h s p (h.next path p).1 (h.next path p).2 := next_moves hbus
    generalize h.next path p = res at hm
    obtain ⟨h', r⟩ := res
    cases hm with
    | exhausted | failed | died => exact ⟨nofun, fun _ => rfl⟩
    | inBlock | newBlock =>
      refine ⟨fun seq hseq => ?_, fun hno => absurd rfl (hno _)⟩
      cases hseq
      rfl

end Host

/-! ### A receiver that outlives the buses -/

/-- Envelopes of one key checked in the order of their sequences meet marks below
them, if the receiver has seen none of that key before. -/
theorem Intake.markAt_in_order {W : MessageWire} {b : Inbox} {w : Intake} {fp : Fingerprint}
    (hfirst : b.sequence.high fp = 0) {issued : List ℕ} (hissued : issued.Pairwise (· < ·))
    (hpositive : ∀ x ∈ issued, 1 ≤ x)
    (hsub : ((w.checked.filter fun x => x.2.signer W = fp).map
      fun x => x.2.env.sequence).Sublist issued) {pre post : List (ℕ × Call)} {x : ℕ × Call}
    (hsplit : w.checked = pre ++ x :: post) (hsigner : x.2.signer W = fp) :
    markAt W b pre x < x.2.env.sequence := by
  have hsorted := hissued.sublist hsub
  have hmem : x.2.env.sequence ∈ issued := by
    refine hsub.subset (List.mem_map.mpr ⟨x, List.mem_filter.mpr ⟨?_, ?_⟩, rfl⟩)
    · rw [hsplit]
      exact List.mem_append_right _ List.mem_cons_self
    · exact decide_eq_true hsigner
  refine markAt_lt.mpr ⟨?_, fun y hy hsame => ?_⟩
  · rw [hsigner, hfirst]
    exact hpositive _ hmem
  · rw [hsplit, List.filter_append, List.map_append] at hsorted
    refine (List.pairwise_append.mp hsorted).2.2 _ ?_ _ ?_
    · refine List.mem_map.mpr ⟨y, List.mem_filter.mpr ⟨hy, ?_⟩, rfl⟩
      exact decide_eq_true (hsame.trans hsigner)
    · refine List.mem_map.mpr ⟨x, List.mem_filter.mpr ⟨List.mem_cons_self, ?_⟩, rfl⟩
      exact decide_eq_true hsigner

/-- **They pass**, unless another agent made the receiver's tracker panic. -/
theorem Intake.Counted.passes_in_order {W : MessageWire} {b : Inbox} {w : Intake}
    (h : w.Counted W b) {fp : Fingerprint} (hfirst : b.sequence.high fp = 0)
    (hsound : b.poisoned = false) {issued : List ℕ}
    (hissued : issued.Pairwise (· < ·)) (hpositive : ∀ x ∈ issued, 1 ≤ x)
    (hsub : ((w.checked.filter fun x => x.2.signer W = fp).map
      fun x => x.2.env.sequence).Sublist issued)
    (hlock : b.build = .wrapping ∨ w.inbox.poisoned = false ∨
      ∀ x ∈ w.checked, x.2.signer W = fp) :
    ∀ x ∈ w.checked, x.2.signer W = fp → x ∈ w.passed := by
  have hmark := @Intake.markAt_in_order W b w fp hfirst issued hissued hpositive hsub
  have hunlocked : ¬Locked W b w.checked := by
    rintro (hpoisoned | ⟨hbuild, hover⟩)
    · rw [hsound] at hpoisoned
      cases hpoisoned
    · rcases hlock with hwrap | hend | hall
      · rw [hwrap] at hbuild
        cases hbuild
      · rw [h.lock.mpr (.inr ⟨hbuild, hover⟩)] at hend
        cases hend
      · obtain ⟨pre, y, post, hsplit, hle, -⟩ := hover
        -- the key's own envelopes are never below its mark
        have hy := hall y (by rw [hsplit]; exact List.mem_append_right _ List.mem_cons_self)
        exact absurd hle (Nat.not_le.mpr (hmark hsplit hy))
  intro x hx hsigner
  obtain ⟨pre, post, hsplit⟩ := List.append_of_mem hx
  refine (h.verdict pre x post hsplit).mpr ⟨fun hlocked => hunlocked ?_, hmark hsplit hsigner⟩
  rw [hsplit]
  exact hlocked.imp_right fun hover => ⟨hover.1, overrun_append hover.2⟩

/-- **Sequences survive restarts.**  Over any number of buses under one key,
however their reservations fail and whenever power is lost: the sequences issued
increase and start at 1 or above; whatever power loss leaves of the file reads
as a number at least as high as all of them; a call issues what it returns, and
nothing if it fails; at the top of the range it fails.  So whatever a receiver
checks of this key passes, if it comes in the order it was issued in: with
wrapping additions always, and with checked ones unless another agent has made
its tracker panic. -/
theorem sequences_survive_restarts (path : String) (acts : List Host.Act) :
    let h := Host.run path acts
    h.issued.Pairwise (· < ·) ∧ (∀ x ∈ h.issued, 1 ≤ x ∧ x < 2 ^ 64) ∧
    (∀ (pick : ℕ) (junk : Bytes) (tmp : Option (Bytes × Bool)), ∃ n,
      FileSequenceReservations.reserved path (h.dir.powerLoss pick junk tmp) none = .ok n ∧
        ∀ x ∈ h.issued, x ≤ n) ∧
    (∀ p : ReservePlan,
      (∀ seq, (h.next path p).2 = some (.ok seq) →
        (h.next path p).1.issued = h.issued ++ [seq]) ∧
      ((∀ seq, (h.next path p).2 ≠ some (.ok seq)) → (h.next path p).1.issued = h.issued)) ∧
    (∀ (s : Sequencer) (p : ReservePlan), h.bus = some s → s.last = 2 ^ 64 - 1 →
      h.next path p = (h, some (.error (.sequenceReservation "sequences exhausted")))) ∧
    ∀ (W : MessageWire) (b : Inbox) (fp : Fingerprint) (received : List Intake.Act),
      b.sequence.high fp = 0 → b.poisoned = false →
      let w := (Intake.start b).run W received
      (b.build = .wrapping ∨ w.inbox.poisoned = false ∨ ∀ x ∈ w.checked, x.2.signer W = fp) →
      ((w.checked.filter fun x => x.2.signer W = fp).map
        fun x => x.2.env.sequence).Sublist h.issued →
      ∀ x ∈ w.checked, x.2.signer W = fp → x ∈ w.passed := by
  intro h
  have hs : h.Sound := Host.run_sound path acts
  refine ⟨hs.increasing, fun x hx => ⟨hs.positive x hx, ?_⟩, fun pick junk tmp => ?_,
    fun p => h.next_issued p, fun s p hbus hlast => ?_, fun W b fp received hfirst hsound => ?_⟩
  · obtain ⟨n, -, hlo, hmax⟩ :=
      reserved_of_kept path (hs.kept x (List.mem_cons_of_mem _ hx))
    omega
  · have hkept : ∀ x ∈ 0 :: h.issued, (h.dir.powerLoss pick junk tmp).Kept (Reserves x) :=
      fun x hx => (hs.kept x hx).powerLoss pick junk tmp
    obtain ⟨n, hn, -⟩ := reserved_of_kept path (hkept 0 List.mem_cons_self)
    refine ⟨n, hn, fun x hx => ?_⟩
    obtain ⟨m, hm, hlo, -⟩ := reserved_of_kept path (hkept x (List.mem_cons_of_mem _ hx))
    rw [hn] at hm
    cases hm
    exact hlo
  · rw [Host.next, hbus]
    dsimp only
    rw [if_neg (by omega), Host.issue]
    unfold Sequencer.next
    rw [if_pos (by omega)]
    show (Host.mk h.dir (some s) h.issued, _) = _
    rw [← hbus]
  · intro w hlock hsub
    have hcounted : w.Counted W b :=
      (Intake.Counted.start b).run (Intake.Tracked.start b) received
    exact hcounted.passes_in_order hfirst hsound hs.increasing hs.positive hsub hlock

namespace Small

def going : ReservePlan := ⟨.done, .done, none, .done, .done, .done, ""⟩

/-- The rename is seen, but the directory is not synced. -/
def unsynced : ReservePlan := { going with syncDir := .failed false, why := "input/output error" }

/-- Two buses, the second of which reads a block that is then lost with the
power; and a third. -/
def restarts : List Host.Act :=
  [.bind none, .next unsynced, .next going, .next going, .next going, .stop, .bind none,
    .next unsynced, .powerLoss 1 [] none, .bind none, .next going]

/-- A receiver that hears the second sequence of the first bus and the first of
the third. -/
noncomputable def outlived : List Intake.Act :=
  [(5, 2), (6, 1025)].map (fun x : BitVec 192 × ℕ =>
    .call (carriedBy (W := wire) (key 2) ⟨9⟩ ⟨1⟩ (.new (W := wire.toWire) (key 2) x.1
      (.direct ⟨1⟩) x.2 (wire.messageJson (.publish "t" [1]))))) ++
    [0, 1].flatMap fun i => List.replicate 4 (.step i outcome)

end Small

set_option maxRecDepth 100000 in
theorem sequences_survive_restarts_power_loss :
    let h := Host.run "agent.seq" Small.restarts
    let w := (Intake.start (.new .checked)).run Small.wire Small.outlived
    h.issued = [1, 2, 3, 1025] ∧ w.checked.map (fun x => x.2.env.sequence) = [2, 1025] ∧
      ∀ x ∈ w.checked, x.2.signer Small.wire = (Small.key 2).fingerprint → x ∈ w.passed := by
  intro h w
  refine ⟨by decide +kernel, by decide +kernel, ?_⟩
  exact (sequences_survive_restarts "agent.seq" Small.restarts).2.2.2.2.2 Small.wire (.new .checked)
    _ _ rfl rfl (.inr (.inl (by decide +kernel))) (by decide +kernel)

end Bus
