/-
The nudge sequence.

herdr is driven from outside and believed in nothing: `nudge` observes the
member's pane, waits for it to settle, observes it again, prompts it once and
looks at it a last time.  Whatever herdr answers, and it may answer each call
differently, the prompt goes to the pane that both observations before it
found, and what is reported is what was seen.

* `only_observe`, `observe_sees` — an observation only reads, and says what it saw;
* `Goes` and `nudge_goes` — every way a nudge can go, one constructor each;
* `nudge_sequence` — what holds whatever herdr answers.
-/
import AgentMesh.Dialogue
import AgentMesh.Nudge
import AgentMesh.Text

open Std Flock Dialogue

namespace Herdr

/-- How herdr's output is read and how ids and foreign text are written: none
of it is the adapter's. -/
structure Formats where
  /-- `serde_json` on what `pane list` prints. -/
  parsePanes : String → Option (List Pane)
  /-- `serde_json` on what `agent get` prints. -/
  parseAgent : String → Option Agent
  /-- The `Debug` text of a string. -/
  debug : String → String
  /-- The `Display` text of a content id. -/
  display : ContentId → String

/-- A command line, and what running it gave: the output or an error's text. -/
abbrev Exchange := List String × Except String String

/-- What the adapter does with herdr; it can fail with a text. -/
abbrev Control := ExceptT String (Dialogue (List String) (Except String String))

namespace Control

/-- `Runner::run`. -/
def runner (args : List String) : Control String := ExceptT.mk (question args)

/-- Something that needs no herdr. -/
def given {α : Type} (x : Except String α) : Control α := ExceptT.mk (pure x)

def ensureSafe (pane : String) : Control Unit :=
  given (ensure (safeId pane) "a pane id that is not safe to pass to herdr")

variable (F : Formats)

/-- `herdr pane list`. -/
def panes : Control (List Pane) := do
  let text ← runner ["pane", "list"]
  given (okOr (F.parsePanes text) "parse `herdr pane list`")

/-- `herdr agent get <pane>`. -/
def agent (pane : String) : Control Agent := do
  ensureSafe pane
  let text ← runner ["agent", "get", pane]
  given (okOr (F.parseAgent text) "parse `herdr agent get`")

/-- `herdr agent wait <pane> --timeout <ms>`. -/
def waitSettled (pane : String) (timeoutMs : ℕ) : Control Unit := do
  ensureSafe pane
  let _ ← runner ["agent", "wait", pane, "--timeout", toString timeoutMs]

/-- `herdr agent prompt <pane> <text>`. -/
def prompt (pane text : String) : Control Unit := do
  ensureSafe pane
  let _ ← runner ["agent", "prompt", pane, text]

end Control

/-- The `Debug` text of an optional string. -/
def Formats.debugOption (F : Formats) : Option String → String
  | none => "None"
  | some s => "Some(" ++ F.debug s ++ ")"

/-- What a pane is, for noticing that it changed.  Not its status. -/
def identity (F : Formats) (p : Pane) (a : Agent) : Except String String :=
  if a.paneId ≠ p.paneId ∨ a.tabId ≠ p.tabId then .error "`agent get` answered for another pane"
  else .ok ("pane " ++ p.paneId ++ " tab " ++ p.tabId ++ " label " ++ F.debugOption p.label ++
    " agent " ++ F.debugOption a.agent ++ " name " ++ F.debugOption a.name ++
    " terminal " ++ F.debug a.terminalId)

/-! ### What is recorded of a pane -/

/-- `str::is_char_boundary` of the text with these characters. -/
def isCharBoundary : List Char → ℕ → Bool
  | _, 0 => true
  | [], _ + 1 => false
  | c :: cs, n => decide (c.utf8Size ≤ n) && isCharBoundary cs (n - c.utf8Size)

/-- The largest character boundary up to `n`. -/
def floorBoundary (cs : List Char) : ℕ → ℕ
  | 0 => 0
  | n + 1 => if isCharBoundary cs (n + 1) then n + 1 else floorBoundary cs n

/-- The characters of the first `n` bytes. -/
def takeBytes : List Char → ℕ → List Char
  | [], _ => []
  | c :: cs, n => if c.utf8Size ≤ n then c :: takeBytes cs (n - c.utf8Size) else []

/-- The longest description a `nudge-misfire` may carry. -/
def description : ℕ := 128

/-- A text as a record field: inert, never empty, at most `description` bytes,
cut on a character boundary with an ellipsis. -/
def describe (text : String) : String :=
  if inert text = "" then "?"
  else if (inert text).utf8ByteSize ≤ description then inert text
  else
    let cs := (inert text).toList
    String.ofList (takeBytes cs (floorBoundary cs (description - '…'.utf8Size))) ++ "…"

/-! ### The sequence -/

inductive Outcome where
  /-- The prompt went and the pane was still the one chosen. -/
  | nudged (target : String)
  /-- The prompt went, but the pane is not what it was. -/
  | misfire (target expected found : String)
  /-- No prompt went, or the call that prompts failed; this says why. -/
  | status (text : String)
  deriving DecidableEq

structure Job where
  target : Target
  /-- The brief or review. -/
  of : ContentId
  /-- How long to wait for it to settle, in milliseconds. -/
  waitMs : ℕ

variable (F : Formats)

/-- The pane, its identity and its agent, as herdr has them now. -/
def observe (t : Target) : Control (String × String × Agent) := do
  let panes ← Control.panes F
  let pane ← Control.given ((resolve t panes).mapError Refusal.text)
  let agent ← Control.agent F pane.paneId
  let id ← Control.given (identity F pane agent)
  return (pane.paneId, id, agent)

def Job.stop (job : Job) (why : String) : Outcome :=
  .status (inert ("not nudged: " ++ job.target.member ++ ": " ++ why))

def Job.text (job : Job) : String := "amesh flock take " ++ F.display job.of

/-- Why an agent in this state is not prompted. -/
def unsettled : String → Option String
  | "idle" | "done" => none
  | "blocked" => some "blocked: it is waiting on someone"
  | other => some ("no longer settled (" ++ other ++ ")")

/-- The prompt, and the look at the pane after it. -/
def deliver (job : Job) (pane before : String) :
    Dialogue (List String) (Except String String) Outcome := do
  match ← (Control.prompt pane (job.text F)).run with
  | .error e => return job.stop ("the prompt was not delivered: " ++ e)
  | .ok _ =>
    match ← (observe F job.target).run with
    | .ok (p, after, _) =>
      if p = pane ∧ after = before then return .nudged job.target.member
      else return .misfire job.target.member (describe before) (describe after)
    | .error e =>
      return .misfire job.target.member (describe before) (describe ("unreadable: " ++ e))

/-- Nudge `job.target.member` about `job.of`. -/
def nudge (job : Job) : Dialogue (List String) (Except String String) Outcome := do
  match ← (observe F job.target).run with
  | .error e => return job.stop e
  | .ok (pane, before, _) =>
    match ← (Control.waitSettled pane job.waitMs).run with
    | .error e => return job.stop ("did not settle: " ++ e)
    | .ok _ =>
      match ← (observe F job.target).run with
      | .error e => return job.stop ("changed while waiting: " ++ e)
      | .ok (p, now, agent) =>
        if p ≠ pane ∨ now ≠ before then return job.stop "the pane changed while waiting"
        else
          match unsettled agent.agentStatus with
          | some why => return job.stop why
          | none => deliver F job pane before

/-! ### What an observation does -/

section Observing

variable {α β : Type} {s : List Exchange} {F} {p : String}

theorem Control.talk_given {x r : Except String α} :
    Talk (Control.given x).run s r ↔ s = [] ∧ r = x :=
  talk_pure

theorem Control.talk_read {args : List String} {read : String → Except String β} {b : β}
    (h : Talk (do let text ← Control.runner args; Control.given (read text) : Control β).run s
      (.ok b)) :
    ∃ out, s = [(args, .ok out)] ∧ read out = .ok b := by
  obtain ⟨s₁, s₂, out, rfl, hrun, hgiven⟩ := talk_bind_ok.mp h
  obtain rfl := talk_ask.mp hrun
  obtain ⟨rfl, hread⟩ := Control.talk_given.mp hgiven
  exact ⟨out, rfl, hread.symm⟩

theorem Control.talk_guarded {x : Control α} {a : α}
    (h : Talk (do Control.ensureSafe p; x : Control α).run s (.ok a)) :
    safeId p = true ∧ Talk x.run s (.ok a) := by
  obtain ⟨s₁, s₂, _, rfl, hguard, hx⟩ := talk_bind_ok.mp h
  obtain ⟨rfl, hsafe⟩ := Control.talk_given.mp hguard
  exact ⟨ensure_ok.mp hsafe.symm, hx⟩

theorem Control.only_guarded {R : List String → Prop} {x : Control α}
    (h : safeId p = true → Only R x.run) :
    Only R (do Control.ensureSafe p; x : Control α).run := by
  refine only_bindE (only_pure R _) fun s _ hguard => h ?_
  exact ensure_ok.mp (Control.talk_given.mp hguard).2.symm

inductive Reads : List String → Prop where
  | panes : Reads ["pane", "list"]
  | agent {p : String} (safe : safeId p = true) : Reads ["agent", "get", p]

/-- **An observation only reads.** -/
theorem only_observe (t : Target) : Only Reads (observe F t).run := by
  have hpanes : Only Reads (Control.panes F).run :=
    only_bindE (only_ask .panes) fun _ _ _ => only_pure _ _
  have hagent (p : String) : Only Reads (Control.agent F p).run :=
    Control.only_guarded fun hsafe =>
      only_bindE (only_ask (.agent hsafe)) fun _ _ _ => only_pure _ _
  exact only_bindE hpanes fun _ _ _ => only_bindE (only_pure _ _) fun _ _ _ =>
    only_bindE (hagent _) fun _ _ _ => only_bindE (only_pure _ _) fun _ _ _ => only_pure _ _

/-- An observation: what herdr printed and what is read from it. -/
inductive Sees (F : Formats) (t : Target) : List Exchange → Pane → String → Agent → Prop where
  | mk {listed got id : String} {panes : List Pane} {pane : Pane} {agent : Agent}
      (listing : F.parsePanes listed = some panes) (resolved : resolve t panes = .ok pane)
      (occupant : F.parseAgent got = some agent) (identified : identity F pane agent = .ok id) :
      Sees F t [(["pane", "list"], .ok listed), (["agent", "get", pane.paneId], .ok got)]
        pane id agent

/-- **An observation that finds the pane says what it saw.** -/
theorem observe_sees {t : Target} {id : String} {agent : Agent}
    (h : Talk (observe F t).run s (.ok (p, id, agent))) :
    ∃ pane, pane.paneId = p ∧ Sees F t s pane id agent := by
  obtain ⟨s₁, _, panes, rfl, hpanes, h₁⟩ := talk_bind_ok.mp h
  obtain ⟨listed, rfl, hlisted⟩ := Control.talk_read hpanes
  obtain ⟨s₂, _, pane, rfl, hpane, h₂⟩ := talk_bind_ok.mp h₁
  obtain ⟨rfl, hresolve⟩ := Control.talk_given.mp hpane
  obtain ⟨s₃, _, agent', rfl, hagent, h₃⟩ := talk_bind_ok.mp h₂
  obtain ⟨got, rfl, hgot⟩ := Control.talk_read (Control.talk_guarded hagent).2
  obtain ⟨s₄, _, id', rfl, hgiven, h₄⟩ := talk_bind_ok.mp h₃
  obtain ⟨rfl, hid⟩ := Control.talk_given.mp hgiven
  obtain ⟨rfl, hsame⟩ := talk_pure.mp h₄
  cases hsame
  exact ⟨pane, rfl, .mk (okOr_ok.mp hlisted) (mapError_ok.mp hresolve.symm) (okOr_ok.mp hgot)
    hid.symm⟩

theorem Control.talk_call {args : List String} {r : Except String Unit}
    (h : Talk (do Control.ensureSafe p; let _ ← Control.runner args : Control Unit).run s r) :
    (s = [] ∧ ∃ e, r = .error e) ∨
      safeId p = true ∧ ∃ out, s = [(args, out)] ∧ r = out.map fun _ => () := by
  rcases talk_bindE.mp h with ⟨e, rfl, hguard⟩ | ⟨s₁, s₂, _, rfl, hguard, hcall⟩
  · exact .inl ⟨(Control.talk_given.mp hguard).1, e, rfl⟩
  · obtain ⟨rfl, hsafe⟩ := Control.talk_given.mp hguard
    refine .inr ⟨ensure_ok.mp hsafe.symm, ?_⟩
    rcases talk_bindE.mp hcall with ⟨e, rfl, hrun⟩ | ⟨s₁, s₂, out, rfl, hrun, hdone⟩
    · exact ⟨.error e, talk_ask.mp hrun, rfl⟩
    · obtain rfl := talk_ask.mp hrun
      obtain ⟨rfl, rfl⟩ := talk_pure.mp hdone
      exact ⟨.ok out, rfl, rfl⟩

end Observing

/-! ### Every way a nudge can go -/

section Going

variable {F} {job : Job} {s : List Exchange} {o : Outcome}

/-- What must have been seen before pane `p` may be prompted: two observations
of the same pane with the same identity, a wait between them, and an agent that
is settled in the second. -/
inductive Ready (F : Formats) (job : Job) : List Exchange → String → String → Prop where
  | mk {s₁ s₂ : List Exchange} {out id : String} {pane₁ pane₂ : Pane} {agent₁ agent₂ : Agent}
      (first : Sees F job.target s₁ pane₁ id agent₁)
      (second : Sees F job.target s₂ pane₂ id agent₂)
      (same : pane₂.paneId = pane₁.paneId)
      (settled : agent₂.agentStatus = "idle" ∨ agent₂.agentStatus = "done") :
      Ready F job
        (s₁ ++ (["agent", "wait", pane₁.paneId, "--timeout", toString job.waitMs], .ok out) :: s₂)
        pane₁.paneId id

inductive Quiet (job : Job) : List String → Prop where
  | reads {args : List String} (reads : Reads args) : Quiet job args
  | wait {p : String} (safe : safeId p = true) :
      Quiet job ["agent", "wait", p, "--timeout", toString job.waitMs]

inductive Goes (F : Formats) (job : Job) : List Exchange → Outcome → Prop where
  | stopped {s : List Exchange} {why : String} (quiet : ∀ x ∈ s, Quiet job x.1) :
      Goes F job s (job.stop why)
  | undelivered {s : List Exchange} {p id e why : String} (ready : Ready F job s p id) :
      Goes F job (s ++ [(["agent", "prompt", p, job.text F], .error e)]) (job.stop why)
  | nudged {s s' : List Exchange} {id out : String} {pane : Pane} {agent : Agent}
      (ready : Ready F job s pane.paneId id) (again : Sees F job.target s' pane id agent) :
      Goes F job (s ++ (["agent", "prompt", pane.paneId, job.text F], .ok out) :: s')
        (.nudged job.target.member)
  | misfire {s s' : List Exchange} {p id out found : String} (ready : Ready F job s p id)
      (looked : ∀ x ∈ s', Reads x.1) :
      Goes F job (s ++ (["agent", "prompt", p, job.text F], .ok out) :: s')
        (.misfire job.target.member (describe id) (describe found))

theorem unsettled_eq_none {status : String} (h : unsettled status = none) :
    status = "idle" ∨ status = "done" := by
  unfold unsettled at h
  split at h
  · exact .inl rfl
  · exact .inr rfl
  all_goals cases h

theorem Sees.safe {t : Target} {pane : Pane} {id : String} {agent : Agent}
    (h : Sees F t s pane id agent) : safeId pane.paneId = true := by
  obtain ⟨-, hresolve, -, -⟩ := h
  exact (resolve_ok hresolve).safe

theorem Sees.reads {t : Target} {pane : Pane} {id : String} {agent : Agent}
    (h : Sees F t s pane id agent) : ∀ x ∈ s, Reads x.1 := by
  have hsafe := h.safe
  obtain ⟨-, -, -, -⟩ := h
  intro x hx
  rcases List.mem_cons.mp hx with rfl | hx
  · exact .panes
  · rw [List.mem_singleton.mp hx]
    exact .agent hsafe

theorem quiet_append {s s' : List Exchange} (h : ∀ x ∈ s, Quiet job x.1)
    (h' : ∀ x ∈ s', Quiet job x.1) : ∀ x ∈ s ++ s', Quiet job x.1 :=
  List.forall_mem_append.mpr ⟨h, h'⟩

theorem quiet_wait {p : String} (hsafe : safeId p = true) (out : Except String String) :
    ∀ x ∈ [((["agent", "wait", p, "--timeout", toString job.waitMs], out) : Exchange)],
      Quiet job x.1 :=
  List.forall_mem_singleton.mpr (.wait hsafe)

theorem Ready.quiet {p id : String} (h : Ready F job s p id) : ∀ x ∈ s, Quiet job x.1 := by
  obtain ⟨hfirst, hsecond, -, -⟩ := h
  refine quiet_append (fun x hx => .reads (hfirst.reads x hx)) ?_
  exact quiet_append (quiet_wait hfirst.safe _) fun x hx => .reads (hsecond.reads x hx)

theorem stop_goes {s' : List Exchange} {why : String} (hquiet : ∀ x ∈ s, Quiet job x.1)
    (h : Talk (pure (job.stop why)) s' o) : Goes F job (s ++ s') o := by
  obtain ⟨rfl, rfl⟩ := talk_pure.mp h
  rw [List.append_nil]
  exact .stopped hquiet

theorem deliver_goes {s' : List Exchange} {p id : String} (hready : Ready F job s p id)
    (h : Talk (deliver F job p id) s' o) : Goes F job (s ++ s') o := by
  obtain ⟨s₁, s₂, sent, rfl, hprompt, hafter⟩ := talk_bind.mp h
  rcases Control.talk_call hprompt with ⟨rfl, e, rfl⟩ | ⟨-, out, rfl, rfl⟩
  · exact stop_goes hready.quiet hafter
  · cases out with
    | error e =>
      obtain ⟨rfl, rfl⟩ := talk_pure.mp hafter
      exact .undelivered hready
    | ok out =>
      obtain ⟨s₃, s₄, seen, rfl, hseen, hend⟩ := talk_bind.mp hafter
      cases seen with
      | error e =>
        obtain ⟨rfl, rfl⟩ := talk_pure.mp hend
        rw [List.append_nil]
        exact .misfire hready (only_observe _ _ _ hseen)
      | ok seen =>
        obtain ⟨p', after, agent⟩ := seen
        change Talk (if p' = p ∧ after = id then _ else _) s₄ o at hend
        split at hend
        · rename_i hsame
          obtain ⟨rfl, rfl⟩ := hsame
          obtain ⟨rfl, rfl⟩ := talk_pure.mp hend
          obtain ⟨pane, rfl, hsees⟩ := observe_sees hseen
          rw [List.append_nil]
          exact .nudged hready hsees
        · obtain ⟨rfl, rfl⟩ := talk_pure.mp hend
          rw [List.append_nil]
          exact .misfire hready (only_observe _ _ _ hseen)

/-- **Every conversation of a nudge goes one of these ways.** -/
theorem nudge_goes (h : Talk (nudge F job) s o) : Goes F job s o := by
  obtain ⟨s₁, r₁, seen, rfl, hfirst, h₁⟩ := talk_bind.mp h
  have hquiet₁ : ∀ x ∈ s₁, Quiet job x.1 := fun x hx => .reads (only_observe _ _ _ hfirst x hx)
  cases seen with
  | error e => exact stop_goes hquiet₁ h₁
  | ok seen =>
    obtain ⟨p, id, agent₁⟩ := seen
    obtain ⟨w, r₂, waited, rfl, hwait, h₂⟩ := talk_bind.mp h₁
    rcases Control.talk_call hwait with ⟨rfl, e, rfl⟩ | ⟨hsafe, out, rfl, rfl⟩
    · exact stop_goes hquiet₁ h₂
    have hquiet₂ := quiet_append hquiet₁ (quiet_wait hsafe out)
    rw [← List.append_assoc]
    cases out with
    | error e => exact stop_goes hquiet₂ h₂
    | ok out =>
      obtain ⟨s₂, r₃, seen, rfl, hsecond, h₃⟩ := talk_bind.mp h₂
      have hquiet₃ := quiet_append hquiet₂ fun x hx =>
        .reads (only_observe _ _ _ hsecond x hx)
      rw [← List.append_assoc]
      cases seen with
      | error e => exact stop_goes hquiet₃ h₃
      | ok seen =>
        obtain ⟨p', now, agent₂⟩ := seen
        change Talk (if p' ≠ p ∨ now ≠ id then _ else _) r₃ o at h₃
        split at h₃
        · exact stop_goes hquiet₃ h₃
        · rename_i hsame
          rw [not_or, not_not, not_not] at hsame
          obtain ⟨rfl, rfl⟩ := hsame
          split at h₃
          · exact stop_goes hquiet₃ h₃
          · rename_i hsettled
            obtain ⟨pane₁, rfl, hsees₁⟩ := observe_sees hfirst
            obtain ⟨pane₂, hsame, hsees₂⟩ := observe_sees hsecond
            refine deliver_goes ?_ h₃
            rw [List.append_assoc]
            exact .mk hsees₁ hsees₂ hsame (unsettled_eq_none hsettled)

end Going

/-! ### Whatever herdr answers -/

/-- The commands a nudge may run; the panes in them are safe to pass. -/
inductive Permitted (F : Formats) (job : Job) : List String → Prop where
  | quiet {args : List String} (quiet : Quiet job args) : Permitted F job args
  | prompt {p : String} (safe : safeId p = true) :
      Permitted F job ["agent", "prompt", p, job.text F]

def isPrompt (args : List String) : Bool := decide (args.take 2 = ["agent", "prompt"])

theorem Quiet.not_prompt {job : Job} {args : List String} (h : Quiet job args) :
    isPrompt args = false := by
  rcases h with ⟨⟨⟩ | ⟨_⟩⟩ | ⟨_⟩ <;> simp [isPrompt]

section Prompting

variable {F} {job : Job} {before after : List Exchange} {p id : String}
  {r : Except String String}

theorem filter_quiet {s : List Exchange} (h : ∀ x ∈ s, Quiet job x.1) :
    (s.filter fun x => isPrompt x.1) = [] := by
  rw [List.filter_eq_nil_iff]
  intro x hx
  rw [(h x hx).not_prompt]
  exact Bool.false_ne_true

theorem filter_prompted (hbefore : ∀ x ∈ before, Quiet job x.1)
    (hafter : ∀ x ∈ after, Quiet job x.1) :
    ((before ++ (["agent", "prompt", p, job.text F], r) :: after).filter fun x => isPrompt x.1) =
      [(["agent", "prompt", p, job.text F], r)] := by
  rw [List.filter_append, List.filter_cons_of_pos (by simp [isPrompt]), filter_quiet hbefore,
    filter_quiet hafter]
  rfl

/-- A conversation with a prompt that was allowed to go: it is the only one,
and nothing else in it is out of the way. -/
structure Prompted (F : Formats) (job : Job) (before : List Exchange) (p : String)
    (r : Except String String) (s : List Exchange) : Prop where
  permitted : ∀ x ∈ s, Permitted F job x.1
  one : (s.filter fun x => isPrompt x.1) = [(["agent", "prompt", p, job.text F], r)]
  unique : ∀ before' x after', s = before' ++ x :: after' → isPrompt x.1 = true →
    before' = before ∧ x = (["agent", "prompt", p, job.text F], r)

theorem Ready.prompted (h : Ready F job before p id) (hafter : ∀ x ∈ after, Reads x.1) :
    Prompted F job before p r (before ++ (["agent", "prompt", p, job.text F], r) :: after) where
  permitted := by
    have hsafe : safeId p = true := by
      obtain ⟨hfirst, -, -, -⟩ := h
      exact hfirst.safe
    intro x hx
    rcases List.mem_append.mp hx with hx | hx
    · exact .quiet (h.quiet x hx)
    · rcases List.mem_cons.mp hx with rfl | hx
      · exact .prompt hsafe
      · exact .quiet (.reads (hafter x hx))
  one := filter_prompted h.quiet fun x hx => .reads (hafter x hx)
  unique := by
    intro before' x after' heq hprompt
    have hnot : ∀ s : List Exchange, (∀ y ∈ s, Quiet job y.1) → x ∉ s := by
      intro s hquiet hx
      rw [(hquiet x hx).not_prompt] at hprompt
      exact Bool.false_ne_true hprompt
    obtain ⟨hbefore, hx, -⟩ := (List.append_cons_inj_of_notMem (hnot _ h.quiet)
      (hnot _ fun y hy => .reads (hafter y hy))).mp heq
    exact ⟨hbefore.symm, hx.symm⟩

theorem Prompted.mem {s : List Exchange} (h : Prompted F job before p r s) {x : Exchange}
    (hx : x ∈ s) (hprompt : isPrompt x.1 = true) : x.2 = r := by
  have hmem : x ∈ s.filter fun x => isPrompt x.1 := List.mem_filter.mpr ⟨hx, hprompt⟩
  rw [h.one] at hmem
  rw [List.mem_singleton.mp hmem]

variable {s : List Exchange} {o : Outcome}

theorem Prompted.careful (h : Prompted F job before p r s) (hready : Ready F job before p id) :
    (s.filter fun x => isPrompt x.1).length ≤ 1 ∧
      ∀ before x after, s = before ++ x :: after → isPrompt x.1 = true →
        ∃ p id, x.1 = ["agent", "prompt", p, job.text F] ∧ Ready F job before p id := by
  refine ⟨by rw [h.one]; exact le_rfl, fun before' x after' heq hx => ?_⟩
  obtain ⟨rfl, rfl⟩ := h.unique before' x after' heq hx
  exact ⟨p, id, rfl, hready⟩

/-- **What a nudge runs.** -/
theorem Goes.careful (h : Goes F job s o) :
    (∀ x ∈ s, Permitted F job x.1) ∧ (s.filter fun x => isPrompt x.1).length ≤ 1 ∧
      ∀ before x after, s = before ++ x :: after → isPrompt x.1 = true →
        ∃ p id, x.1 = ["agent", "prompt", p, job.text F] ∧ Ready F job before p id := by
  cases h with
  | stopped hquiet =>
    refine ⟨fun x hx => .quiet (hquiet x hx), by rw [filter_quiet hquiet]; exact zero_le_one, ?_⟩
    rintro before x after rfl hx
    rw [(hquiet x (by simp)).not_prompt] at hx
    cases hx
  | undelivered hready =>
    have hnone : ∀ x ∈ ([] : List Exchange), Reads x.1 := List.forall_mem_nil _
    exact ⟨(hready.prompted hnone).permitted, (hready.prompted hnone).careful hready⟩
  | nudged hready hagain =>
    exact ⟨(hready.prompted hagain.reads).permitted, (hready.prompted hagain.reads).careful hready⟩
  | misfire hready hlooked =>
    exact ⟨(hready.prompted hlooked).permitted, (hready.prompted hlooked).careful hready⟩

/-- **What a nudge reports.** -/
theorem Goes.faithful (h : Goes F job s o) :
    (∀ target, o = .nudged target → ∃ before pane id agent out after,
      s = before ++ (["agent", "prompt", pane.paneId, job.text F], .ok out) :: after ∧
        Ready F job before pane.paneId id ∧ Sees F job.target after pane id agent) ∧
    (∀ target expected found, o = .misfire target expected found →
      ∃ x ∈ s, isPrompt x.1 = true ∧ ∃ out, x.2 = .ok out) ∧
    ∀ text, o = .status text → ∀ x ∈ s, isPrompt x.1 = true → ∃ e, x.2 = .error e := by
  cases h with
  | stopped hquiet =>
    refine ⟨fun _ h => (by cases h), fun _ _ _ h => (by cases h), fun _ _ x hx hprompt => ?_⟩
    rw [(hquiet x hx).not_prompt] at hprompt
    cases hprompt
  | undelivered hready =>
    refine ⟨fun _ h => (by cases h), fun _ _ _ h => (by cases h), fun _ _ x hx hprompt => ?_⟩
    exact ⟨_, (hready.prompted (List.forall_mem_nil _)).mem hx hprompt⟩
  | nudged hready hagain =>
    refine ⟨fun _ _ => ⟨_, _, _, _, _, _, rfl, hready, hagain⟩, fun _ _ _ h => (by cases h),
      fun _ h => (by cases h)⟩
  | misfire hready hlooked =>
    refine ⟨fun _ h => (by cases h), fun _ _ _ _ => ?_, fun _ h => (by cases h)⟩
    exact ⟨_, List.mem_append_right _ List.mem_cons_self, by simp [isPrompt], _, rfl⟩

end Prompting

/-- **The nudge sequence against an arbitrary herdr.**  Whatever herdr answers
to each call, knowing all that was said, a nudge comes to an end; it runs the
four commands only, on panes that are safe to pass; it prompts at most once,
with the fixed text, and then the pane that `resolve` found on both listings
read before, with one identity and settled; it reports a nudge only if the pane
was still the same after a prompt that went, a misfire only after a prompt that
went, and a mere status only if none did. -/
theorem nudge_sequence (F : Formats) (job : Job)
    (env : List Exchange → List String → Except String String) :
    ∃ s o, (nudge F job).run env [] = (s, o) ∧
      (∀ x ∈ s, Permitted F job x.1) ∧
      (s.filter fun x => isPrompt x.1).length ≤ 1 ∧
      (∀ before x after, s = before ++ x :: after → isPrompt x.1 = true →
        ∃ p id, x.1 = ["agent", "prompt", p, "amesh flock take " ++ F.display job.of] ∧
          Ready F job before p id) ∧
      (∀ target, o = .nudged target → ∃ before pane id agent out after,
        s = before ++ (["agent", "prompt", pane.paneId, job.text F], .ok out) :: after ∧
          Ready F job before pane.paneId id ∧ Sees F job.target after pane id agent) ∧
      (∀ target expected found, o = .misfire target expected found →
        ∃ x ∈ s, isPrompt x.1 = true ∧ ∃ out, x.2 = .ok out) ∧
      ∀ text, o = .status text → ∀ x ∈ s, isPrompt x.1 = true → ∃ e, x.2 = .error e := by
  obtain ⟨s, hs, htalk⟩ := talk_run env (nudge F job) []
  refine ⟨s, _, Prod.ext hs rfl, ?_⟩
  have hgoes := nudge_goes htalk
  obtain ⟨hpermitted, hone, hprompt⟩ := hgoes.careful
  exact ⟨hpermitted, hone, hprompt, hgoes.faithful⟩

/-! The helper is in its pane, idle, whenever it is looked at. -/

namespace Small

def agent : Agent := ⟨"term7", none, some "claude", "idle", "w1:p4", "w1:t2"⟩

def formats : Formats where
  parsePanes text := if text = "panes" then some listing else none
  parseAgent text := if text = "agent" then some agent else none
  debug s := "\"" ++ s ++ "\""
  display _ := "id"

def job : Job := ⟨target "w1:p4", ⟨[]⟩, 500⟩

def herdr (_ : List Exchange) (args : List String) : Except String String :=
  if args.take 2 = ["pane", "list"] then .ok "panes"
  else if args.take 2 = ["agent", "get"] then .ok "agent"
  else .ok ""

end Small

set_option maxRecDepth 100000 in
theorem nudge_sequence_idle :
    ∃ before pane id agent out after, ((nudge Small.formats Small.job).run Small.herdr []).1 =
        before ++ (["agent", "prompt", pane.paneId, "amesh flock take id"], .ok out) :: after ∧
      Ready Small.formats Small.job before pane.paneId id ∧
        Sees Small.formats Small.job.target after pane id agent := by
  have hend : ((nudge Small.formats Small.job).run Small.herdr []).2 = .nudged "h1" := by
    decide +kernel
  obtain ⟨s, o, hrun, -, -, -, hnudged, -, -⟩ :=
    nudge_sequence Small.formats Small.job Small.herdr
  rw [hrun] at hend ⊢
  exact hnudged "h1" hend

end Herdr
