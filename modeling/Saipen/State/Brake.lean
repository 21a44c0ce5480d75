import Saipen.Text.Case
import Saipen.Text.Repr

/-! # The binding brake of a STATE

`wait_grammar_error` is the closed grammar of a `WAIT:` action, `binding_wait` says whether a wait stops
the project where it stands, and `binding_brake` puts it together with the phase and the blocker. The
grammar reads the stripped text; the brake asks for the `WAIT:` in front of the text as it was written,
and that is the one difference between them. -/

namespace Saipen.State

open Text

/-! ### The wait grammar -/

/-- `WAIT_CATEGORIES`. -/
def waitCategories : List String :=
  ["manual-verify", "destructive-op", "first-publish", "user brake", "blocked", "safety valve", "init"]

/-- `MARKHUNT_BRAKE`. -/
def markhuntBrake : String :=
  "WAIT: blocked -- untriaged MARKHUNT findings in ## BLOCKED; triage into ## TODO or dismiss"

/-- Whether `_PROGRESS_TAG_RE` matches here: a bracketed suffix with white space around it. -/
def isProgressTag (cs : List Char) : Bool :=
  match cs.dropWhile isSpace with
  | [] => false
  | c :: rest => c == '[' && (untilChar ']' rest).any fun r => r.2.all isSpace

/-- `_PROGRESS_TAG_RE.sub("", text)`: a match runs to the end of the text. -/
def dropProgressTag : List Char → List Char
  | [] => []
  | c :: cs => if isProgressTag (c :: cs) then [] else c :: dropProgressTag cs

/-- One or more digits, then a literal. -/
def counted (close cs : List Char) : Option (List Char) :=
  if cs.takeWhile isDecimal = [] then none else literal close (cs.dropWhile isDecimal)

/-- `_SAFETY_VALVE_RE`. -/
def isSafetyValve (body : String) : Bool :=
  ((literal "safety valve reached (".toList body.toList).bind fun cs =>
    (counted " waves / ".toList cs).bind (counted " tickets) -- run 'cc' to continue".toList)) == some []

/-- White space, then a capital or a backtick. -/
def opensSentence (cs : List Char) : Bool :=
  cs.head?.any isSpace && (cs.dropWhile isSpace).head?.any fun c => c.isUpper || c.toNat == 0x60

/-- `_SECOND_SENTENCE_RE.search(sentence).start()`. -/
def secondSentence : List Char → Option Nat
  | [] => none
  | c :: cs => if c = '.' ∧ opensSentence cs then some 0 else (secondSentence cs).map (· + 1)

/-- The part in front of a `" -- "`, stripped and in lower case, and the part behind it. -/
def delimited (body : String) : Option (String × String) :=
  (partitionOn " -- ".toList body.toList).map fun r => (String.ofList r.1, String.ofList r.2)

/-- `_wait_body`. -/
def waitBody (na : String) : String :=
  String.ofList (dropProgressTag (strip (String.ofList ((strip na).toList.drop 5))).toList)

variable (p : Printable)

/-- What `wait_grammar_error` says of the two parts of a delimited body. -/
def delimitedError (head tail : String) : Option String :=
  if lower (strip head) ∉ waitCategories then
    some ("opens with " ++ reprStr p (strip head) ++ ", which is not one of the closed " ++
      "§ 1.2 categories " ++ "/".intercalate waitCategories)
  else if strip tail = "" then some "has an empty question after ' -- '"
  else
    (secondSentence (strip tail).toList).map fun start =>
      "body starts a second sentence at offset " ++ start.repr ++ " -- " ++
        "CORE § 1.2 bounds it to one; session status belongs in " ++
        ".saipen/kitchen/digest.md and queued work on BOARD.md"

/-- What `wait_grammar_error` says of a body. -/
def bodyError (body : String) : Option String :=
  if body = "" then
    some ("carries no category and no question -- CORE § 1.2 requires " ++
      "'WAIT: <category> -- <one sentence>'")
  else if '\n' ∈ body.toList then some "spans more than one line"
  else if isSafetyValve body then none
  else
    match delimited body with
    | none =>
        some ("has no ' -- ' delimiter: a bare category names the KIND of " ++
          "stop and asks nothing, which CORE § 1.2 forbids (got " ++ reprStr p body ++ ")")
    | some parts => delimitedError p parts.1 parts.2

/-- `wait_grammar_error`. -/
def waitGrammarError (na : String) : Option String :=
  if startsWith (strip na) "WAIT:" then bodyError p (waitBody (strip na))
  else some "not a WAIT: action"

/-- `parse_wait`. -/
def parseWait (na : String) : Option String :=
  if (waitGrammarError p na).isSome then none
  else if isSafetyValve (waitBody (strip na)) then some "safety valve"
  else some (lower (strip ((delimited (waitBody (strip na))).elim (waitBody (strip na)) Prod.fst)))

/-- `safety_valve_resume_key`. -/
def safetyValveResumeKey (na : String) : Option String :=
  if startsWith (strip na) "WAIT:" ∧ isSafetyValve (waitBody (strip na)) then some "cc" else none

/-- `binding_wait`. -/
def bindingWait (na phase : String) (emptyTodo : Bool) : Option String :=
  match parseWait p na with
  | none => none
  | some category =>
      if ¬(phase = "DONE" ∧ emptyTodo) then some category
      else if category = "safety valve" then
        if safetyValveResumeKey (strip na) = some "cc" then some "safety valve" else none
      else if dropProgressTag (strip na).toList = markhuntBrake.toList then some "markhunt"
      else if category = "user brake" then some "user brake"
      else none

/-! ### The brake -/

/-- The fields of a STATE map the brake reads. -/
structure BrakeState where
  phase : Option String
  blocker : Option String
  nextAction : Option String

namespace BrakeState

/-- `str(state.get("phase") or "")`. -/
def phaseText (s : BrakeState) : String := s.phase.getD ""

/-- `str(state.get("blocker") or "").strip()`. -/
def blockerText (s : BrakeState) : String := strip (s.blocker.getD "")

/-- `str(state.get("next_action") or "")`. -/
def action (s : BrakeState) : String := s.nextAction.getD ""

end BrakeState

/-- `na[:60]!r`. -/
def shown (na : String) : String := reprStr p (String.ofList (na.toList.take 60))

/-- `phase.upper() == "BLOCKED"`. -/
def isBlockedPhase (phase : String) : Bool := upper phase == "BLOCKED"

/-- A blocker that is not empty and not the word `none`. -/
def namesBlocker (blocker : String) : Bool := blocker != "" && lower blocker != "none"

/-- `binding_brake`: the kind of the brake and its detail. -/
def bindingBrake (s : BrakeState) (emptyTodo : Bool) : Option (String × String) :=
  if isBlockedPhase s.phaseText then
    some ("blocked", "phase BLOCKED: blocker=" ++ reprStr p s.blockerText ++
      " next_action=" ++ shown p s.action)
  else if namesBlocker s.blockerText then
    some ("blocker", "binding WAIT/BLOCKED state: blocker=" ++ reprStr p s.blockerText ++
      " next_action=" ++ shown p s.action)
  else if startsWith s.action "WAIT:" ∧
      (bindingWait p s.action s.phaseText emptyTodo).any (· != "") then
    some ("wait", "persisted WAIT binds in this context: " ++ shown p s.action)
  else none

/-! ### What a binding wait is -/

variable {p : Printable} {na phase : String} {emptyTodo : Bool}

/-- White space around an action is nothing to the wait grammar. -/
theorem parseWait_strip (na : String) : parseWait p (strip na) = parseWait p na := by
  unfold parseWait waitGrammarError
  rw [strip_strip]

theorem bindingWait_strip (na phase : String) (emptyTodo : Bool) :
    bindingWait p (strip na) phase emptyTodo = bindingWait p na phase emptyTodo := by
  simp only [bindingWait, parseWait_strip, strip_strip]

/-- A legal wait opens with `WAIT:` once stripped. -/
theorem opens_of_waitGrammarError (h : waitGrammarError p na = none) :
    startsWith (strip na) "WAIT:" = true := by
  by_contra hopen
  rw [waitGrammarError, if_neg hopen] at h
  cases h

/-- The grammar lets a body pass that is no safety valve only with a category in front of its ` -- `. -/
theorem category_of_bodyError {body : String} (h : bodyError p body = none)
    (hvalve : ¬isSafetyValve body = true) :
    lower (strip ((delimited body).elim body Prod.fst)) ∈ waitCategories := by
  unfold bodyError at h
  split_ifs at h
  cases hparts : delimited body with
  | none =>
    rw [hparts] at h
    cases h
  | some parts =>
    simp only [hparts, delimitedError] at h
    split_ifs at h with hcategory
    exact hcategory

/-- The category of a legal wait is one of the seven. -/
theorem legal_of_parseWait {category : String} (h : parseWait p na = some category) :
    waitGrammarError p na = none ∧ category ∈ waitCategories := by
  unfold parseWait at h
  cases herr : waitGrammarError p na with
  | some error => simp [herr] at h
  | none =>
    have hbody := herr
    rw [waitGrammarError, if_pos (opens_of_waitGrammarError herr)] at hbody
    rw [herr, if_neg (by simp)] at h
    split_ifs at h with hvalve
    · cases h
      exact ⟨rfl, by decide⟩
    · exact ⟨rfl, Option.some.inj h ▸ category_of_bodyError hbody hvalve⟩

theorem parseWait_of_bindingWait {name : String} (h : bindingWait p na phase emptyTodo = some name) :
    ∃ category, parseWait p na = some category := by
  unfold bindingWait at h
  cases hparse : parseWait p na with
  | none => simp [hparse] at h
  | some category => exact ⟨category, rfl⟩

/-- Every brake name a wait binds under is a word. -/
theorem bindingWait_ne_empty {name : String} (h : bindingWait p na phase emptyTodo = some name) :
    name ≠ "" := by
  have hwords : ∀ c ∈ waitCategories, c ≠ "" := by decide
  obtain ⟨category, hparse⟩ := parseWait_of_bindingWait h
  have hcategory := hwords category (legal_of_parseWait hparse).2
  simp only [bindingWait, hparse] at h
  split_ifs at h <;> cases h <;> first | exact hcategory | decide

/-- Outside `DONE` with an empty `## TODO` every legal wait binds. -/
theorem bindingWait_eq_parseWait (h : ¬(phase = "DONE" ∧ emptyTodo = true)) :
    bindingWait p na phase emptyTodo = parseWait p na := by
  unfold bindingWait
  cases parseWait p na with
  | none => rfl
  | some category => exact if_pos h

/-! ### The `WAIT:` the brake asks for -/

/-- The text begins with white space. -/
def beginsWithSpace (s : String) : Bool := s.toList.head?.any isSpace

theorem startsWith_of_strip {pre : String} (hspace : beginsWithSpace na = false)
    (h : startsWith (strip na) pre = true) : startsWith na pre = true := by
  obtain ⟨front, post, hparts, hfront, -⟩ := strip_parts na
  unfold startsWith at h ⊢
  cases front with
  | nil =>
    rw [hparts, List.nil_append]
    rw [List.isPrefixOf_iff_prefix] at h ⊢
    exact h.trans (List.prefix_append _ _)
  | cons c front =>
    have hc := hfront c List.mem_cons_self
    simp [beginsWithSpace, hparts, hc] at hspace

theorem startsWith_of_space (hspace : beginsWithSpace na = true) : startsWith na "WAIT:" = false := by
  unfold beginsWithSpace at hspace
  unfold startsWith
  cases hna : na.toList with
  | nil => rfl
  | cons c cs =>
    rw [hna] at hspace
    have hc : isSpace c = true := by simpa using hspace
    have hw : ('W' == c) = false := by
      rw [beq_eq_false_iff_ne]
      rintro rfl
      exact absurd hc (by decide)
    show ('W' == c && _) = false
    rw [hw, Bool.false_and]

/-- The third branch of the brake, for an action as it was written. -/
theorem waits_iff : (startsWith na "WAIT:" = true ∧
      (bindingWait p na phase emptyTodo).any (· != "") = true) ↔
    beginsWithSpace na = false ∧ (bindingWait p na phase emptyTodo).isSome = true := by
  cases hwait : bindingWait p na phase emptyTodo with
  | none => simp
  | some name =>
    obtain ⟨category, hparse⟩ := parseWait_of_bindingWait hwait
    have hopen := opens_of_waitGrammarError (legal_of_parseWait hparse).1
    have hname := bindingWait_ne_empty hwait
    cases hspace : beginsWithSpace na with
    | true => simp [startsWith_of_space hspace]
    | false => simp [startsWith_of_strip hspace hopen, hname]

/-! ### The brake and its parts -/

theorem bindingBrake_isSome_iff {s : BrakeState} :
    (bindingBrake p s emptyTodo).isSome = true ↔
      isBlockedPhase s.phaseText = true ∨ namesBlocker s.blockerText = true ∨
        (beginsWithSpace s.action = false ∧
          (bindingWait p s.action s.phaseText emptyTodo).isSome = true) := by
  rw [← waits_iff]
  unfold bindingBrake
  split_ifs with hphase hblocker hwait
  · simp [hphase]
  · simp [hblocker]
  · simp [hwait]
  · simp only [Option.isSome_none, Bool.false_eq_true, hphase, hblocker, hwait, or_self]

/-- A brake binds exactly when the phase is BLOCKED, a blocker is named, or the action is a wait that
binds. -/
def BrakeAgrees (p : Printable) (s : BrakeState) (emptyTodo : Bool) : Prop :=
  (bindingBrake p s emptyTodo).isSome = true ↔
    isBlockedPhase s.phaseText = true ∨ namesBlocker s.blockerText = true ∨
      (bindingWait p s.action s.phaseText emptyTodo).isSome = true

/-- The state rests on its action alone, and the action is a wait with white space in front. -/
def IndentedWait (p : Printable) (s : BrakeState) (emptyTodo : Bool) : Prop :=
  isBlockedPhase s.phaseText = false ∧ namesBlocker s.blockerText = false ∧
    beginsWithSpace s.action = true ∧ (bindingWait p s.action s.phaseText emptyTodo).isSome = true

/-- The brake agrees with its parts on every state but those that rest on an indented wait. -/
theorem brakeAgrees_iff (p : Printable) (s : BrakeState) (emptyTodo : Bool) :
    BrakeAgrees p s emptyTodo ↔ ¬IndentedWait p s emptyTodo := by
  unfold BrakeAgrees IndentedWait
  rw [bindingBrake_isSome_iff]
  cases isBlockedPhase s.phaseText
  · cases namesBlocker s.blockerText
    · cases beginsWithSpace s.action <;> simp
    · simp
  · simp

/-- An indented wait is legal and binds, and there is no brake. -/
theorem indented_wait_binds_nothing :
    ¬BrakeAgrees samplePrintable
      { phase := some "SCOUT", blocker := some "none",
        nextAction := some " WAIT: user brake -- stop after this ticket" } false := by
  unfold BrakeAgrees
  decide +kernel

end Saipen.State
