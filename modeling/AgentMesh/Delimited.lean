/-
Length-delimited messages in a byte stream.

A general library: a message is the length of its body in four bytes, most
significant first, and the body.  A reader keeps the bytes it has taken in and
looks at the front of them; a length above its limit is refused before the body
arrives.

* `front_bytes` — a whole message reads back, whatever follows it;
* `front_part` — a proper part of a message is not a message yet;
* `front_append` — the bytes that are there of a message and what follows it.
-/
import AgentMesh.Framing

namespace Delimited

open Framing

def bytes (body : Bytes) : Bytes := be32 body.length ++ body

inductive Front where
  /-- No whole message yet. -/
  | short
  /-- A message longer than the limit is announced. -/
  | oversized (len : ℕ)
  /-- A message, and the bytes after it. -/
  | whole (body rest : Bytes)
  deriving DecidableEq

def front (limit : ℕ) (buf : Bytes) : Front :=
  if buf.length < 4 then .short
  else if limit < ofBe32 (buf.take 4) then .oversized (ofBe32 (buf.take 4))
  else if buf.length < 4 + ofBe32 (buf.take 4) then .short
  else .whole ((buf.drop 4).take (ofBe32 (buf.take 4))) (buf.drop (4 + ofBe32 (buf.take 4)))

theorem length_bytes (body : Bytes) : (bytes body).length = 4 + body.length := by
  rw [bytes, List.length_append, length_be32]

variable {limit : ℕ} {body : Bytes}

/-- **A whole message reads back**, whatever follows it. -/
theorem front_bytes (hlimit : limit < 2 ^ 32) (hbody : body.length ≤ limit) (rest : Bytes) :
    front limit (bytes body ++ rest) = .whole body rest := by
  have htake : (bytes body ++ rest).take 4 = be32 body.length := rfl
  have hdrop : (bytes body ++ rest).drop 4 = body ++ rest := rfl
  have hrest : (bytes body ++ rest).drop (4 + body.length) = rest := by
    rw [← length_bytes, List.drop_left]
  have hlen : (bytes body ++ rest).length = 4 + body.length + rest.length := by
    rw [List.length_append, length_bytes]
  have hval : ofBe32 (be32 body.length) = body.length := ofBe32_be32 (by omega)
  rw [front, htake, hval, hdrop, hrest, List.take_left, if_neg (by omega), if_neg (by omega),
    if_neg (by omega)]

theorem front_whole_le {buf rest : Bytes} (h : front limit buf = .whole body rest) :
    body.length ≤ limit := by
  unfold front at h
  split at h
  · cases h
  · split at h
    · cases h
    · split at h
      · cases h
      · cases h
        rw [List.length_take]
        omega

/-- **A proper part of a message is not a message yet.** -/
theorem front_part (hlimit : limit < 2 ^ 32) (hbody : body.length ≤ limit) {buf : Bytes}
    (hpart : buf <+: bytes body) (hlen : buf.length < (bytes body).length) :
    front limit buf = .short := by
  rw [length_bytes] at hlen
  by_cases hheader : buf.length < 4
  · rw [front, if_pos hheader]
  · -- the four bytes of the length are there
    obtain ⟨rest, hrest⟩ := hpart
    have htake : buf.take 4 = be32 body.length := by
      have h : (buf ++ rest).take 4 = buf.take 4 := List.take_append_of_le_length (by omega)
      rw [← h, hrest]
      rfl
    have hval : ofBe32 (be32 body.length) = body.length := ofBe32_be32 (by omega)
    rw [front, if_neg hheader, htake, hval, if_neg (by omega), if_pos hlen]

/-- Of a message and what follows, a buffer holds the whole message or only a
part, with more to come. -/
theorem front_append (hlimit : limit < 2 ^ 32) (hbody : body.length ≤ limit)
    {buf coming more : Bytes} (h : buf ++ coming = bytes body ++ more) :
    (front limit buf = .short ∧ coming ≠ []) ∨
      ∃ rest, front limit buf = .whole body rest ∧ rest ++ coming = more := by
  rcases List.append_eq_append_iff.mp h with ⟨missing, hbytes, hcoming⟩ | ⟨rest, hbuf, hmore⟩
  · by_cases hwhole : missing = []
    · -- the buffer ends where the message does
      refine .inr ⟨[], ?_, ?_⟩
      · have hbuf : buf = bytes body ++ [] := by
          rw [hbytes, hwhole, List.append_nil, List.append_nil]
        rw [hbuf]
        exact front_bytes hlimit hbody []
      · rw [hcoming, hwhole, List.nil_append]
        rfl
    · have hpos : 0 < missing.length := List.length_pos_iff.mpr hwhole
      have hlt : buf.length < (bytes body).length := by
        rw [hbytes, List.length_append]
        omega
      refine .inl ⟨front_part hlimit hbody ⟨missing, hbytes.symm⟩ hlt, ?_⟩
      rw [hcoming]
      simp [hwhole]
  · refine .inr ⟨rest, ?_, hmore.symm⟩
    rw [hbuf]
    exact front_bytes hlimit hbody rest

theorem front_oversized {len : ℕ} (hlen : limit < len) (h32 : len < 2 ^ 32) {buf tail : Bytes}
    (hstart : buf <+: be32 len ++ tail) (hheader : 4 ≤ buf.length) :
    front limit buf = .oversized len := by
  obtain ⟨rest, hrest⟩ := hstart
  have htake : buf.take 4 = be32 len := by
    have h : (buf ++ rest).take 4 = buf.take 4 := List.take_append_of_le_length (by omega)
    rw [← h, hrest]
    rfl
  have hval : ofBe32 (be32 len) = len := ofBe32_be32 h32
  rw [front, if_neg (by omega), htake, hval, if_pos hlen]

end Delimited
