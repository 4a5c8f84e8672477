/-
The authority lattice for attenuated agent capabilities.

A `Caveats` value has one set-valued or numeric bound per axis.  `Caveats.leq`
is the attenuation check made at every delegated link of a certificate chain;
`Caveats.top` is the absence of any caveat.  Membership is exact at this
layer: `leq` on a bounded axis is set inclusion.
-/
import AgentMesh.Content

/-- One set-valued authority axis: unrestricted, or exactly the listed items. -/
inductive Scope (T : Type) where
  | all
  | only (items : Finset T)
  deriving DecidableEq

namespace Scope

variable {T : Type} [DecidableEq T]

def top : Scope T := .all

/-- `a ⊑ b`: `a` authorizes no more than `b`. -/
def leq : Scope T → Scope T → Bool
  | _, .all => true
  | .all, .only _ => false
  | .only a, .only b => decide (a ⊆ b)

end Scope

inductive CountBound where
  | unlimited
  | atMost (n : ℕ)
  deriving DecidableEq

namespace CountBound

def top : CountBound := .unlimited

def leq : CountBound → CountBound → Bool
  | _, .unlimited => true
  | .unlimited, .atMost _ => false
  | .atMost a, .atMost b => decide (a ≤ b)

end CountBound

structure Caveats where
  fsRead : Scope String
  fsWrite : Scope String
  exec : Scope String
  net : Scope String
  maxCalls : CountBound
  validForGeneration : Scope ℕ
  deriving DecidableEq

namespace Caveats

def top : Caveats where
  fsRead := .top
  fsWrite := .top
  exec := .top
  net := .top
  maxCalls := .top
  validForGeneration := .top

/-- The attenuation check, axis by axis. -/
def leq (a b : Caveats) : Bool :=
  a.fsRead.leq b.fsRead && a.fsWrite.leq b.fsWrite && a.exec.leq b.exec &&
    a.net.leq b.net && a.maxCalls.leq b.maxCalls &&
    a.validForGeneration.leq b.validForGeneration

@[simp] theorem leq_top (a : Caveats) : a.leq top = true := by
  have hS : ∀ {T : Type} [DecidableEq T] (s : Scope T), s.leq .top = true := by
    intro T _ s
    cases s <;> rfl
  have hC : a.maxCalls.leq .top = true := by
    cases a.maxCalls <;> rfl
  simp [leq, top, hS, hC]

end Caveats
