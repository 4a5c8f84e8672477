/-
The operator's answer signer.

The signer is asked one thing: this answer to this ask, in this flock.  It
checks the request against the verified log, shows what it is about to sign and
signs only after the human has said yes.  The untrusted texts on the screen are
spelled out, so none can start a line; a text that already holds a spelling is
not told apart from one that holds the character.

* `signOne_ok` — what the screen showed and what is signed;
* `screen_determines_answer` — which answers have a screen of their own;
* `newline_looks_spelled` — a line break and its spelling have the same;
* `linesOf_shown`, `untrusted_text_inert` — the screen has its seven lines,
  whatever the texts.
-/
import AgentMesh.Text
import AgentMesh.Admission

open Std Mesh

namespace Flock

/-- The longest answer the signer will show and sign. -/
def maxAnswer : ℕ := 8 * 1024

/-- This answer to this ask, in this flock. -/
structure SignRequest where
  flock : ContentId
  ask : ContentId
  text : String
  deriving DecidableEq

def answerFits (text : String) : Bool :=
  decide (text ≠ "") && decide (text.utf8ByteSize ≤ maxAnswer)

variable (display : ContentId → String)

/-- The screen above the answer; `display` is how an id is printed. -/
def shownAbove (flock ask : ContentId) (lane : Option String) (askText : String) : String :=
  "flock:  " ++ display flock ++ "\nask:    " ++ display ask ++ "\nlane:   " ++
    inert (lane.getD "-") ++ "\nasked:  " ++ inert askText ++
    "\n---- answer (exactly as signed) ----\n"

def shown (flock ask : ContentId) (lane : Option String) (askText text : String) : String :=
  shownAbove display flock ask lane askText ++ inert text ++ "\n----"

/-- The ask's lane and text, if it is one the log admitted. -/
def askOf (b : Board) (ask : ContentId) : Except String (Option String × String) :=
  match b.get ask with
  | none => .error (display ask ++ " is not an ask in this flock's verified log")
  | some e => do
    ensure (e.conflict = none ∧ e.event.kind = .ask)
      (display ask ++ " is not an ask in this flock's verified log")
    match e.event.body with
    | .ask lane text => return (lane, text)
    | _ => .error "not an ask"

def answerNode (flock : ContentId) (author : String) (now : ℕ) (req : SignRequest) :
    MerkleNode Event :=
  Event.node
    { flock := flock
      kind := .answer
      author := author
      prev := none
      refs := (∅ : BTreeMap String ContentId).insert "ask" req.ask
      files := []
      at_ := now
      body := .answer req.text }

/-- Check one request against the verified log and show it; `confirm` is what
the human says to a screen.  The node is what is signed then. -/
def signOne (flock : ContentId) (b : Board) (author : String) (now : ℕ)
    (confirm : String → Except String Bool) (req : SignRequest) :
    Except String (MerkleNode Event) := do
  ensure (answerFits req.text) s!"the answer must be 1 to {maxAnswer} bytes"
  ensure (req.flock = flock) "that request is for another flock than the one this signer serves"
  let (lane, askText) ← askOf display b req.ask
  ensure (b.closerOf req.ask = none) "that ask is already answered"
  let yes ← confirm (shown display flock req.ask lane askText req.text)
  ensure (yes = true) "declined"
  return answerNode flock author now req

variable {display}

theorem signOne_ok {flock : ContentId} {b : Board} {author : String} {now : ℕ}
    {confirm : String → Except String Bool} {req : SignRequest} {node : MerkleNode Event}
    (h : signOne display flock b author now confirm req = .ok node) :
    ∃ lane askText, askOf display b req.ask = .ok (lane, askText) ∧
      confirm (shown display flock req.ask lane askText req.text) = .ok true ∧
      node = answerNode flock author now req := by
  simp only [signOne, bind_ok, ensure_ok, pure, Except.pure, Except.ok.injEq] at h
  obtain ⟨_, -, _, -, ⟨lane, askText⟩, hask, _, -, yes, hyes, _, hagreed, rfl⟩ := h
  rw [hagreed] at hyes
  exact ⟨lane, askText, hask, hyes, rfl⟩

theorem append_append_inj {above below a b : String} :
    above ++ a ++ below = above ++ b ++ below ↔ a = b := by
  constructor
  · intro h
    have hlist := congrArg String.toList h
    simp only [String.toList_append] at hlist
    exact String.toList_inj.mp (List.append_cancel_left (List.append_cancel_right hlist))
  · intro h
    rw [h]

/-- Screens that differ in the answer only are equal exactly if the answers
are spelled alike. -/
theorem shown_eq_iff {flock ask : ContentId} {lane : Option String} {askText t₁ t₂ : String} :
    shown display flock ask lane askText t₁ = shown display flock ask lane askText t₂ ↔
      inert t₁ = inert t₂ :=
  append_append_inj

def textSize (l : List Char) : ℕ := (String.ofList l).utf8ByteSize

theorem textSize_append (l l' : List Char) : textSize (l ++ l') = textSize l + textSize l' := by
  rw [textSize, String.ofList_append, String.utf8ByteSize_append]
  rfl

theorem textSize_singleton (c : Char) : textSize [c] = c.utf8Size :=
  String.utf8ByteSize_singleton

theorem length_le_textSize (l : List Char) : l.length ≤ textSize l := by
  induction l with
  | nil => exact Nat.zero_le _
  | cons c l ih =>
    have hcons : c :: l = [c] ++ l := rfl
    have hpos := c.utf8Size_pos
    rw [hcons, textSize_append, textSize_singleton, List.length_append, List.length_singleton]
    omega

theorem Spelling.textSize_le {c : Char} {l : List Char} (h : Spelling c l) :
    textSize [c] ≤ textSize ('\\' :: l) := by
  -- no character takes more than four bytes
  have hfour : 4 ≤ ('\\' :: l).length → textSize [c] ≤ textSize ('\\' :: l) := by
    intro hlen
    rw [textSize_singleton]
    exact c.utf8Size_le_four.trans (hlen.trans (length_le_textSize _))
  cases h with
  | newline | return_ | tab => decide
  | short => exact hfour (Nat.le_refl _)
  | long => exact hfour (by simp)

/-- **Which answers have a screen of their own.**  No other text that passes the
length check is shown like `t` exactly if `t` holds no spelled-out character, and
none of the characters that are spelled out for it could be spelled in it within
the length limit.  Of such an answer a human who agreed to its screen has seen
what the event that is signed holds. -/
theorem screen_determines_answer (display : ContentId → String) (flock ask : ContentId)
    (lane : Option String) (askText : String) {t : String} (ht : answerFits t = true) :
    ((∀ t', answerFits t' = true →
        shown display flock ask lane askText t' = shown display flock ask lane askText t →
        t' = t) ↔
      escaping.Unspelled t.toList ∧ ∀ pre c post, t.toList = pre ++ c :: post →
        needsEscape c = true → answerFits (String.ofList (pre ++ spell c ++ post)) = false) ∧
    ∀ b author now confirm node,
      signOne display flock b author now confirm ⟨flock, ask, t⟩ = .ok node →
      askOf display b ask = .ok (lane, askText) →
      confirm (shown display flock ask lane askText t) = .ok true ∧
        node.payload.body = .answer t := by
  refine ⟨?_, fun b author now confirm node hsign hask => ?_⟩
  · have hfits : ∀ l l' : List Char, answerFits (String.ofList l') = true → l ≠ [] →
        textSize l ≤ textSize l' → answerFits (String.ofList l) = true := by
      intro l l' hl' hne hle
      simp only [answerFits, Bool.and_eq_true, decide_eq_true_eq] at hl' ⊢
      exact ⟨fun hempty => hne (String.ofList_eq_empty_iff.mp hempty), hle.trans hl'.2⟩
    have halone := Escaping.alone_iff (E := escaping) textSize_append
      (fun c _ => (spelling c).textSize_le) (s := t.toList) (by rwa [String.ofList_toList]) hfits
    simp only [Bool.not_eq_true] at halone
    refine Iff.trans ⟨fun h l hl heq => ?_, fun h t' ht' heq => ?_⟩ halone
    · refine String.ofList_injective ?_
      rw [String.ofList_toList]
      refine h _ hl (shown_eq_iff.mpr (String.toList_inj.mp ?_))
      rw [toList_inert, toList_inert, String.toList_ofList, heq]
    · refine String.toList_inj.mp (h _ (by rwa [String.ofList_toList]) ?_)
      rw [← toList_inert, ← toList_inert, shown_eq_iff.mp heq]
  · obtain ⟨lane', askText', hask', hyes, rfl⟩ := signOne_ok hsign
    rw [hask, Except.ok.injEq, Prod.mk.injEq] at hask'
    obtain ⟨rfl, rfl⟩ := hask'
    exact ⟨hyes, rfl⟩

/-- "yes" has a screen of its own.  An answer of two lines has not: its line break
could be spelled. -/
theorem screen_determines_answer_yes :
    let screen := shown (fun _ => "bafy") ⟨[1]⟩ ⟨[2]⟩ (some "docs") "ship it?"
    (∀ t', answerFits t' = true → screen t' = screen "yes" → t' = "yes") ∧
      ¬∀ t', answerFits t' = true → screen t' = screen "yes\nno" → t' = "yes\nno" := by
  intro screen
  have hyes := (screen_determines_answer (fun _ => "bafy") ⟨[1]⟩ ⟨[2]⟩ (some "docs") "ship it?"
    (t := "yes") (by decide)).1
  have hlines := (screen_determines_answer (fun _ => "bafy") ⟨[1]⟩ ⟨[2]⟩ (some "docs") "ship it?"
    (t := "yes\nno") (by decide)).1
  refine ⟨hyes.mpr ⟨Escaping.unspelled_of_no_mark (by decide), ?_⟩, fun halone => ?_⟩
  · intro pre c post hsplit hneeds
    have hplain : "yes".toList.any needsEscape = false := by decide +kernel
    exact absurd hneeds (List.any_eq_false.mp hplain c (by rw [hsplit]; simp))
  · have hno := (hlines.mp halone).2 "yes".toList '\n' "no".toList (by decide) (by decide)
    exact absurd hno (by decide +kernel)

/-- A line break is shown as the backslash and the letter that spell it. -/
theorem newline_looks_spelled :
    answerFits "no\nyes" = true ∧ answerFits "no\\nyes" = true ∧ "no\nyes" ≠ "no\\nyes" ∧
      shown (fun _ => "bafy") ⟨[1]⟩ ⟨[2]⟩ (some "docs") "ship it?" "no\nyes" =
        shown (fun _ => "bafy") ⟨[1]⟩ ⟨[2]⟩ (some "docs") "ship it?" "no\\nyes" := by
  have hspelled : inert "no\nyes" = inert "no\\nyes" := by decide +kernel
  exact ⟨by decide, by decide, by decide, shown_eq_iff.mpr hspelled⟩

/-! ### The lines of the screen -/

/-- The lines of a text: what stands between its newlines. -/
def linesOf (s : String) : List String := (s.toList.splitOn '\n').map String.ofList

theorem linesOf_intercalate {ls : List String} (hne : ls ≠ []) (h : ∀ l ∈ ls, '\n' ∉ l.toList) :
    linesOf ("\n".intercalate ls) = ls := by
  have hsplit : (['\n'].intercalate (ls.map String.toList)).splitOn '\n' =
      ls.map String.toList := by
    refine List.splitOn_intercalate '\n' ?_ (by simpa using hne)
    intro l hl
    obtain ⟨s, hs, rfl⟩ := List.mem_map.mp hl
    exact h s hs
  rw [linesOf, String.toList_intercalate]
  show ((['\n'].intercalate (ls.map String.toList)).splitOn '\n').map String.ofList = ls
  rw [hsplit, List.map_map]
  exact List.map_id'' (fun s => String.ofList_toList) ls

variable (flock ask : ContentId) (lane : Option String) (askText text : String)

theorem shown_eq_intercalate :
    shown display flock ask lane askText text = "\n".intercalate
      ["flock:  " ++ display flock, "ask:    " ++ display ask,
        "lane:   " ++ inert (lane.getD "-"), "asked:  " ++ inert askText,
        "---- answer (exactly as signed) ----", inert text, "----"] := by
  -- the newlines are part of the headings' literals, so these are taken apart first
  have hjoin : ∀ ask₁ lane₁ asked₁ answer₁ end₁ : String, ask₁ = "\n" ++ "ask:    " →
      lane₁ = "\n" ++ "lane:   " → asked₁ = "\n" ++ "asked:  " →
      answer₁ = "\n" ++ "---- answer (exactly as signed) ----" ++ "\n" → end₁ = "\n" ++ "----" →
      "flock:  " ++ display flock ++ ask₁ ++ display ask ++ lane₁ ++ inert (lane.getD "-") ++
        asked₁ ++ inert askText ++ answer₁ ++ inert text ++ end₁ = "\n".intercalate
        ["flock:  " ++ display flock, "ask:    " ++ display ask,
          "lane:   " ++ inert (lane.getD "-"), "asked:  " ++ inert askText,
          "---- answer (exactly as signed) ----", inert text, "----"] := by
    rintro _ _ _ _ _ rfl rfl rfl rfl rfl
    simp only [String.intercalate_cons_cons, String.intercalate_singleton, String.append_assoc]
  exact hjoin _ _ _ _ _ (by decide) (by decide) (by decide) (by decide) (by decide)

theorem newline_not_mem_headed {heading s : String} (hheading : '\n' ∉ heading.toList)
    (hs : '\n' ∉ s.toList) : '\n' ∉ (heading ++ s).toList := by
  rw [String.toList_append, List.mem_append]
  rintro (h | h)
  · exact hheading h
  · exact hs h

/-- **The screen has its seven lines**, if ids are printed on one line. -/
theorem linesOf_shown (hdisplay : ∀ id, '\n' ∉ (display id).toList) :
    linesOf (shown display flock ask lane askText text) =
      ["flock:  " ++ display flock, "ask:    " ++ display ask,
        "lane:   " ++ inert (lane.getD "-"), "asked:  " ++ inert askText,
        "---- answer (exactly as signed) ----", inert text, "----"] := by
  rw [shown_eq_intercalate]
  refine linesOf_intercalate (List.cons_ne_nil _ _) ?_
  simp only [List.forall_mem_cons, List.not_mem_nil, false_imp_iff, implies_true, and_true]
  refine ⟨newline_not_mem_headed (by decide) (hdisplay flock),
    newline_not_mem_headed (by decide) (hdisplay ask),
    newline_not_mem_headed (by decide) (newline_not_mem_inert _),
    newline_not_mem_headed (by decide) (newline_not_mem_inert _),
    by decide, newline_not_mem_inert text, by decide⟩

/-- **Inert text cannot forge structure.**  `inert` leaves no character that
needs escaping, changes a text exactly if it has one, and changes nothing the
second time; `inert_lines` does the same for all of them but newlines, of which
it keeps every one.  So the signer's screen has its seven lines, whatever the
texts on it: none can add a line.  `display` prints an id on one line. -/
theorem untrusted_text_inert (display : ContentId → String)
    (hdisplay : ∀ id, '\n' ∉ (display id).toList) :
    (∀ s, (∀ c ∈ (inert s).toList, needsEscape c = false ∧ c ≠ '\n' ∧ isControl c = false ∧
        ∀ r ∈ formatRanges, ¬(r.1 ≤ c.toNat ∧ c.toNat ≤ r.2)) ∧
      (inert s = s ↔ ∀ c ∈ s.toList, needsEscape c = false) ∧
      inert (inert s) = inert s) ∧
    (∀ s, (∀ c ∈ (inertLines s).toList, needsEscape c = true → c = '\n') ∧
      (inertLines s = s ↔ ∀ c ∈ s.toList, needsEscape c = true → c = '\n') ∧
      inertLines (inertLines s) = inertLines s ∧
      (inertLines s).toList.count '\n' = s.toList.count '\n') ∧
    ∀ flock ask lane askText text,
      linesOf (shown display flock ask lane askText text) =
        ["flock:  " ++ display flock, "ask:    " ++ display ask,
          "lane:   " ++ inert (lane.getD "-"), "asked:  " ++ inert askText,
          "---- answer (exactly as signed) ----", inert text, "----"] := by
  refine ⟨fun s => ⟨?_, inert_eq_self, inert_inert s⟩, fun s => ⟨?_, inertLines_eq_self,
    inertLines_inertLines s, count_newline_inertLines s⟩, ?_⟩
  · intro c hc
    exact ⟨inert_stands hc, of_stands (inert_stands hc)⟩
  · intro c hc
    exact inertLines_stands hc
  · intro flock ask lane askText text
    exact linesOf_shown flock ask lane askText text hdisplay

/-- An ask whose text would draw a separator and another answer. -/
theorem untrusted_text_inert_forged :
    linesOf (shown (fun _ => "bafy") ⟨[1]⟩ ⟨[2]⟩ none "ship?\n---- answer" "yes") =
      ["flock:  bafy", "ask:    bafy", "lane:   -", "asked:  ship?\\n---- answer",
        "---- answer (exactly as signed) ----", "yes", "----"] := by
  have hid : '\n' ∉ "bafy".toList := by decide
  rw [(untrusted_text_inert (fun _ => "bafy") fun _ => hid).2.2 ⟨[1]⟩ ⟨[2]⟩ none
    "ship?\n---- answer" "yes"]
  decide +kernel

end Flock
