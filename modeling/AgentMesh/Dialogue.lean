/-
Programs that ask.

A general library: a program asks questions one after another, an environment
answers them, and what the program asks next depends on the answers.  Nothing is
assumed of the environment: it may answer the same question differently each
time.  So what holds of every conversation a program can have holds whatever
it is run against.

* `Dialogue` — the programs, a monad;
* `Talk x t a` — the questions and answers `t` take the program `x` to its end
  `a`; `talk_pure`, `talk_ask` and `talk_bind` take conversations apart, and
  `talk_bindE` those of programs that can fail;
* `Only R x` — `x` asks nothing but `R`; `only_bindE` puts such programs
  together;
* `talk_run` — a run against an environment is a conversation.
-/
import Mathlib.Logic.Basic

/-- A program that asks `Q`, is answered `A` and ends in `α`. -/
inductive Dialogue (Q A α : Type) where
  | done (a : α)
  | ask (q : Q) (next : A → Dialogue Q A α)

namespace Dialogue

variable {Q A α β ε : Type}

protected def bind (x : Dialogue Q A α) (f : α → Dialogue Q A β) : Dialogue Q A β :=
  match x with
  | done a => f a
  | ask q next => ask q fun r => (next r).bind f

instance monad : Monad (Dialogue Q A) where
  pure := done
  bind := Dialogue.bind

def question (q : Q) : Dialogue Q A A := ask q done

/-- The questions and answers `t` take the program to its end `a`. -/
inductive Talk : Dialogue Q A α → List (Q × A) → α → Prop where
  | done (a : α) : Talk (.done a) [] a
  | ask {q : Q} {next : A → Dialogue Q A α} {r : A} {t : List (Q × A)} {a : α}
      (rest : Talk (next r) t a) : Talk (.ask q next) ((q, r) :: t) a

/-- The program run against an environment that knows all that was said. -/
def run (env : List (Q × A) → Q → A) : Dialogue Q A α → List (Q × A) → List (Q × A) × α
  | done a, said => (said, a)
  | ask q next, said => (next (env said q)).run env (said ++ [(q, env said q)])

variable {x : Dialogue Q A α} {t : List (Q × A)}

theorem talk_pure {a b : α} : Talk (pure a : Dialogue Q A α) t b ↔ t = [] ∧ b = a := by
  constructor
  · intro h
    cases h
    exact ⟨rfl, rfl⟩
  · rintro ⟨rfl, rfl⟩
    exact .done b

theorem talk_ask {q : Q} {r : A} : Talk (question q) t r ↔ t = [(q, r)] := by
  constructor
  · intro h
    cases h with
    | ask rest =>
      cases rest
      rfl
  · rintro rfl
    exact .ask (.done r)

/-- **A conversation of two programs is one of the first and one of the
second.** -/
theorem talk_bind {f : α → Dialogue Q A β} {b : β} :
    Talk (x >>= f) t b ↔ ∃ t₁ t₂ a, t = t₁ ++ t₂ ∧ Talk x t₁ a ∧ Talk (f a) t₂ b := by
  constructor
  · intro h
    induction x generalizing t with
    | done a => exact ⟨[], t, a, rfl, .done a, h⟩
    | ask q next ih =>
      have h : Talk (.ask q fun r => next r >>= f) t b := h
      cases h with
      | ask rest =>
        obtain ⟨t₁, t₂, a, rfl, hx, hf⟩ := ih _ rest
        exact ⟨_, t₂, a, rfl, .ask hx, hf⟩
  · rintro ⟨t₁, t₂, a, rfl, hx, hf⟩
    induction hx with
    | done a => exact hf
    | ask _ ih => exact .ask (ih hf)

theorem talk_bindE {x : ExceptT ε (Dialogue Q A) α} {f : α → ExceptT ε (Dialogue Q A) β}
    {r : Except ε β} :
    Talk (x >>= f).run t r ↔
      (∃ e, r = .error e ∧ Talk x.run t (.error e)) ∨
        ∃ t₁ t₂ a, t = t₁ ++ t₂ ∧ Talk x.run t₁ (.ok a) ∧ Talk (f a).run t₂ r := by
  rw [ExceptT.run_bind, talk_bind]
  constructor
  · rintro ⟨t₁, t₂, a, rfl, hx, hf⟩
    cases a with
    | ok a => exact .inr ⟨t₁, t₂, a, rfl, hx, hf⟩
    | error e =>
      obtain ⟨rfl, rfl⟩ := talk_pure.mp hf
      rw [List.append_nil]
      exact .inl ⟨e, rfl, hx⟩
  · rintro (⟨e, rfl, hx⟩ | ⟨t₁, t₂, a, rfl, hx, hf⟩)
    · exact ⟨t, [], .error e, (List.append_nil t).symm, hx, talk_pure.mpr ⟨rfl, rfl⟩⟩
    · exact ⟨t₁, t₂, .ok a, rfl, hx, hf⟩

theorem talk_bind_ok {x : ExceptT ε (Dialogue Q A) α} {f : α → ExceptT ε (Dialogue Q A) β} {b : β} :
    Talk (x >>= f).run t (.ok b) ↔
      ∃ t₁ t₂ a, t = t₁ ++ t₂ ∧ Talk x.run t₁ (.ok a) ∧ Talk (f a).run t₂ (.ok b) := by
  rw [talk_bindE]
  constructor
  · rintro (⟨e, h, -⟩ | h)
    · cases h
    · exact h
  · exact .inr

/-- Whatever it is answered, the program asks only such questions. -/
def Only (R : Q → Prop) (x : Dialogue Q A α) : Prop :=
  ∀ t a, Talk x t a → ∀ y ∈ t, R y.1

theorem only_pure (R : Q → Prop) (a : α) : Only R (pure a : Dialogue Q A α) := by
  intro t b h y hy
  obtain ⟨rfl, -⟩ := talk_pure.mp h
  cases hy

theorem only_ask {R : Q → Prop} {q : Q} (h : R q) : Only R (question q : Dialogue Q A A) := by
  intro t r ht y hy
  obtain rfl := talk_ask.mp ht
  rwa [List.mem_singleton.mp hy]

/-- The second program has to be looked at only where the first one ended
well. -/
theorem only_bindE {R : Q → Prop} {x : ExceptT ε (Dialogue Q A) α}
    {f : α → ExceptT ε (Dialogue Q A) β} (hx : Only R x.run)
    (hf : ∀ t a, Talk x.run t (.ok a) → Only R (f a).run) : Only R (x >>= f).run := by
  intro t r h y hy
  rcases talk_bindE.mp h with ⟨e, -, h⟩ | ⟨t₁, t₂, a, rfl, ha, h⟩
  · exact hx t _ h y hy
  · rcases List.mem_append.mp hy with hy | hy
    · exact hx t₁ _ ha y hy
    · exact hf t₁ a ha t₂ r h y hy

/-- **A run is a conversation.** -/
theorem talk_run (env : List (Q × A) → Q → A) (x : Dialogue Q A α) :
    ∀ said, ∃ t, (x.run env said).1 = said ++ t ∧ Talk x t (x.run env said).2 := by
  induction x with
  | done a => exact fun said => ⟨[], (List.append_nil said).symm, .done a⟩
  | ask q next ih =>
    intro said
    obtain ⟨t, hsaid, htalk⟩ := ih (env said q) (said ++ [(q, env said q)])
    refine ⟨(q, env said q) :: t, ?_, .ask htalk⟩
    rw [run, hsaid, List.append_assoc]
    rfl

end Dialogue
