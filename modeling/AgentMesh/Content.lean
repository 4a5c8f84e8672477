/-
Content ids and Merkle nodes.

`content-addressable` is a third-party crate: an id is its byte form, and the
functions that compute ids from values are parameters of the development (see
`Primitives`).  A node is a payload with the set of ids it builds on; its id
covers both.
-/
import AgentMesh.Collections

open Std

abbrev Bytes := List UInt8

/-- The content id of an encoded value. -/
structure ContentId where
  bytes : Bytes
  deriving DecidableEq, Repr, Inhabited

/-- The content id of raw bytes (a file, a token). -/
structure RawContentId where
  bytes : Bytes
  deriving DecidableEq, Repr

instance : Ord ContentId := ⟨compareOn ContentId.bytes⟩

instance : TransOrd ContentId := inferInstanceAs (TransCmp (compareOn ContentId.bytes))

instance : LawfulEqOrd ContentId where
  eq_of_compare {a b} h := by
    obtain ⟨a⟩ := a
    obtain ⟨b⟩ := b
    rw [ContentId.mk.injEq]
    exact LawfulEqOrd.eq_of_compare (α := Bytes) h

instance : Ord RawContentId := ⟨compareOn RawContentId.bytes⟩

instance : TransOrd RawContentId := inferInstanceAs (TransCmp (compareOn RawContentId.bytes))

instance : LawfulEqOrd RawContentId where
  eq_of_compare {a b} h := by
    obtain ⟨a⟩ := a
    obtain ⟨b⟩ := b
    rw [RawContentId.mk.injEq]
    exact LawfulEqOrd.eq_of_compare (α := Bytes) h

/-- A payload and the nodes it builds on. -/
structure MerkleNode (α : Type) where
  parents : Finset ContentId
  payload : α
  deriving DecidableEq

def utf8 (s : String) : Bytes := s.toList.flatMap String.utf8EncodeChar

/-- The ASCII bytes of a literal (domain tags). -/
def ascii (s : String) : Bytes := s.toList.map fun c => UInt8.ofNat c.toNat
