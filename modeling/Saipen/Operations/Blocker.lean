import Mathlib.Data.List.Sort
import Saipen.Board.Parse
import Saipen.Text.Case
import Saipen.Operations.Phases

/-! # Live gates and stale blockers

`STATE.blocker` belongs to phase BLOCKED. In every other phase `_state_blocker_repairs` tells a live gate,
which only an operator may clear, from a stale text. -/

namespace Saipen.Operations

open Text Board

/-- The fields of STATE the operations read and write. The strict reader hands on no other state than
one with the required fields, of their types. -/
structure State where
  phase : String
  task : String
  agent : String
  blocker : String
  nextAction : String
  updated : String
  transitionFrom : Option String := none
  executionIntent : Option String := none
  goalWaves : Option Nat := none
  goalTickets : Option Nat := none
  lastEvent : Option Nat := none
deriving DecidableEq

/-- A blocker that says something: not empty and not `none`. -/
def isOpen (blocker : String) : Bool := strip blocker ≠ "" && lower (strip blocker) ≠ "none"

/-- `_NON_CLOSURE_BLOCKER_TOKENS`. -/
def blockerTokens : List String :=
  ["HELD", "FUTURE_GATE", "PERMANENT_WARNING_OWNER", "WAIT_USER_CONFIRMATION", "WAIT_USER_DECISION",
    "ACTIVE", "WAIT_ROLE", "BLOCKED_EXTERNAL"]

/-- `[A-Za-z0-9_-]`. -/
def isRoleChar (c : Char) : Bool := isAsciiAlnum c || c = '_' || c = '-'

/-- `blocker_class`. -/
def blockerClass (blocker : String) : Option String :=
  let opening := strip (String.ofList (before " -- ".toList (strip blocker).toList))
  if upper opening ∈ blockerTokens then some (upper opening)
  else
    match Text.literal "WAIT_ROLE:".toList opening.toList with
    | some role => if role ≠ [] ∧ role.all isRoleChar then some "WAIT_ROLE" else none
    | none => none

/-- What `_state_blocker_repairs` answers: a gate that stays, with what speaks for it, or a stale text
that is reset. -/
inductive BlockerRepair where
  | refuse (blockerClass : Option String) (related unrelated : List String)
  | reset (unrelated : List String)
deriving DecidableEq

def BlockerRepair.refuses : BlockerRepair → Bool
  | .refuse .. => true
  | .reset _ => false

section Classifier

/- The characters of `\w`. -/
variable (isWordChar : Char → Bool)

/-- `\bT-\d+\b` at the beginning of a text, `prev` the character in front of it. -/
def idAt (prev : Option Char) (cs : List Char) : Option String :=
  match cs with
  | 'T' :: '-' :: rest =>
      let digits := rest.takeWhile isDecimal
      if !prev.any isWordChar && !digits.isEmpty && !(rest.dropWhile isDecimal).head?.any isWordChar then
        some ("T-" ++ String.ofList digits)
      else none
  | _ => none

/-- `_ids_in`, the character in front of the text given. -/
def idsFrom : Option Char → List Char → List String
  | _, [] => []
  | prev, c :: cs => (idAt isWordChar prev (c :: cs)).toList ++ idsFrom (some c) cs

def idsIn (text : String) : List String := idsFrom isWordChar none text.toList

/-- Whether a blocked ticket governs the blocker of the active task. -/
def governs (active : String) (tickets : List Ticket) (blocker : String) (t : Ticket) : Bool :=
  let activeNeeds := ((tickets.find? (·.id = active)).map (·.needs)).getD []
  active ≠ "" && (active ∈ t.needs || t.id ∈ activeNeeds || t.id ∈ idsIn isWordChar blocker)

/-- `_causally_related_blocks`, the blocked tickets themselves. -/
def causallyRelatedBlocks (task : String) (liveBlocked tickets : List Ticket) (blocker : String) :
    List Ticket × List Ticket :=
  let active := if lower task = "none" then "" else task
  liveBlocked.partition (governs isWordChar active tickets blocker)

/-- `_state_blocker_repairs`. -/
def stateBlockerRepairs (s : State) (b : Parsed) : List BlockerRepair :=
  if !isOpen s.blocker then []
  else if upper s.phase = "BLOCKED" || s.phase ∉ allPhases then []
  else
    let blocked := (b.tickets.filter (·.sectionName = "## BLOCKED")).insertionSort (·.id ≤ ·.id)
    let (related, unrelated) := causallyRelatedBlocks isWordChar (strip s.task) blocked b.tickets s.blocker
    let cls := blockerClass s.blocker
    if cls.isSome || !related.isEmpty then [.refuse cls (related.map (·.id)) (unrelated.map (·.id))]
    else [.reset (unrelated.map (·.id))]

/-- A live gate: the classifier refuses to clear the blocker. -/
def LiveGate (s : State) (b : Parsed) : Prop := ∃ r ∈ stateBlockerRepairs isWordChar s b, r.refuses = true

instance (s : State) (b : Parsed) : Decidable (LiveGate isWordChar s b) := inferInstanceAs (Decidable (∃ r ∈ _, _))

/-- Outside BLOCKED the classifier has one answer for a blocker that says something. -/
theorem stateBlockerRepairs_cases (s : State) (b : Parsed) :
    stateBlockerRepairs isWordChar s b = [] ∨
      (isOpen s.blocker = true ∧ upper s.phase ≠ "BLOCKED" ∧ s.phase ∈ allPhases ∧
        ∃ r, stateBlockerRepairs isWordChar s b = [r]) := by
  unfold stateBlockerRepairs
  split
  case isTrue => exact .inl rfl
  case isFalse hopen =>
    split
    case isTrue => exact .inl rfl
    case isFalse hphase =>
      rw [Bool.not_eq_true, Bool.not_eq_false'] at hopen
      rw [Bool.not_eq_true, Bool.or_eq_false_iff, decide_eq_false_iff_not, decide_eq_false_iff_not,
        not_not] at hphase
      refine .inr ⟨hopen, hphase.1, hphase.2, ?_⟩
      dsimp only
      split
      · exact ⟨_, rfl⟩
      · exact ⟨_, rfl⟩

/-- A live gate stands in an active phase, and its blocker says something. -/
theorem LiveGate.active {s : State} {b : Parsed} (h : LiveGate isWordChar s b) :
    isOpen s.blocker = true ∧ upper s.phase ≠ "BLOCKED" ∧ s.phase ∈ allPhases := by
  obtain ⟨r, hr, -⟩ := h
  rcases stateBlockerRepairs_cases isWordChar s b with hnil | ⟨hopen, hphase, hknown, -⟩
  · rw [hnil] at hr
    cases hr
  · exact ⟨hopen, hphase, hknown⟩

end Classifier

/-- A blocker that says something is not the text an operation resets it to. -/
theorem ne_none_of_isOpen {blocker : String} (h : isOpen blocker = true) : blocker ≠ "none" := by
  rintro rfl
  exact absurd h (by decide)

end Saipen.Operations
