/-
Following a flock from outside.

A follower applies the server's frames one at a time, verifying each exactly
as replay does, from its head.  A frame that does not extend the head is
refused; a frame is taken whole or not at all.
-/
import AgentMesh.State

open Std Mesh

namespace Flock

/-- A signed head: an admission record and the server's signature over it. -/
structure Head where
  record : MerkleNode AdmissionRecord
  sig : Signature
  deriving DecidableEq

def Head.of (s : Sealed) : Head := ⟨s.record, s.recordSig⟩

def Head.index (h : Head) : ℕ := h.record.payload.index

inductive FollowError where
  | doesNotExtend (why : String)
  | invalid (why : String)
  deriving DecidableEq

/-- A verified part of a flock's history, extended frame by frame. -/
structure Follower where
  st : State
  head : Option Head
  deriving DecidableEq

variable (P : Primitives)

def Head.id (h : Head) : ContentId := P.recordId h.record

namespace Follower

def new (g : MerkleNode Genesis) : Except ServerError Follower := do
  let st ← startState P g
  return ⟨st, none⟩

/-- Verify and apply one frame (all of it or none of it). -/
def apply (f : Follower) (frame : List Sealed) : Except FollowError Follower := do
  let first ← okOr frame.head? (.invalid "empty frame")
  ensure (first.record.parents = {f.st.chain.prev} ∧
      first.record.payload.index = f.st.chain.nextIndex)
    (.doesNotExtend ("record " ++ toString first.record.payload.index ++ " does not follow " ++
      toString (f.st.chain.nextIndex - 1)))
  (checkFrameShape frame).mapError .invalid
  let next ← (f.st.replayFrame P frame).mapError fun e => .invalid e.text
  return ⟨next, frame.getLast?.map Head.of⟩

/-- Apply frames in order; every one must be accepted. -/
def applyAll (f : Follower) (frames : List (List Sealed)) : Except FollowError Follower :=
  Steps.run (apply P) f frames

def admitted (f : Follower) : ℕ := f.st.chain.nextIndex - 1

end Follower

end Flock
