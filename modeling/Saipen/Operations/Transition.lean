import Saipen.Checks
import Saipen.Log.Render
import Saipen.Operations.Blocker

/-! # Phase transitions

`_plan_transition` moves the project from one phase to another. Its guards refuse; what they let through
changes STATE, adds events to the LOG and refreshes the claim on the BOARD. -/

namespace Saipen.Operations

open Text Board Checks

/-- An event of the LOG. -/
structure Event where
  id : Nat
  taxonomy : String
  ticket : Option String
  agent : String
  text : String
deriving DecidableEq

/-- What an operation reads and writes. -/
structure Checkpoint where
  state : State
  board : Parsed
  events : List Event
deriving DecidableEq

/-- The newest event of the LOG. -/
def Checkpoint.tail (c : Checkpoint) : Option Nat := c.events.getLast?.map (·.id)

/-- The code a transition runs in: the other gates, each of which refuses with a reason, the text the
LOG keeps of a message, the router and the fast gate. -/
structure World where
  activeClaim : Checkpoint → String → Option String
  nonWork : Checkpoint → Bool
  boundary : String → String → Option String
  shipGate : String → List Event → Option String
  evidence : String → List Event → Option String
  regression : String → Option String
  acceptance : String → Option String
  recorded : Event → String
  authority : State → Option String
  refresh : Checkpoint → String → String → Option Parsed
  route : State → Parsed → String → Option String
  validate : Checkpoint → String → List String

/-- The event the LOG gets for a message. -/
def World.event (w : World) (tail : Option Nat) (taxonomy : String) (ticket : Option String)
    (agent message : String) : Event :=
  let e : Event := ⟨Log.nextEventId tail, taxonomy, ticket, agent, message⟩
  { e with text := w.recorded e }

/-! ### Goal counters -/

/-- The two counters of a goal run. -/
inductive Counter where
  | waves
  | tickets
deriving DecidableEq

def Counter.name : Counter → String
  | .waves => "waves"
  | .tickets => "tickets"

/-- `GOAL_WAVE_CAP` and `GOAL_TICKET_CAP`. -/
def Counter.cap : Counter → Nat
  | .waves => 3
  | .tickets => 20

/-- `int(state.get(field) or 0)`. -/
def State.count (s : State) : Counter → Nat
  | .waves => s.goalWaves.getD 0
  | .tickets => s.goalTickets.getD 0

def State.setCount (s : State) (k : Counter) (n : Nat) : State :=
  match k with
  | .waves => { s with goalWaves := some n }
  | .tickets => { s with goalTickets := some n }

/-- `budget_exhausted`. -/
def budgetExhausted (s : State) : Bool :=
  s.executionIntent = some "goal" &&
    (Counter.cap .waves ≤ s.count .waves || Counter.cap .tickets ≤ s.count .tickets)

/-- `goal_authority.trip_checkpoint`: the source of the grant under which the run goes on. -/
def World.tripCheckpoint (w : World) (s : State) : Option String :=
  if budgetExhausted s then w.authority s else none

/-- The message of a goal checkpoint. -/
def checkpointText (waves tickets : Nat) (source : String) : String :=
  "goal checkpoint -- goal_waves " ++ waves.repr ++ "->0, goal_tickets " ++ tickets.repr ++
    "->0; authority_source " ++ source ++ "; budget reached, continuing under the same grant"

/-- The message of an increment. -/
def incrementText (k : Counter) (n m : Nat) : String :=
  "goal_" ++ k.name ++ " " ++ n.repr ++ "->" ++ m.repr

/-- The pause of the safety valve. -/
def valveWait (waves tickets : Nat) : String :=
  "WAIT: safety valve reached (" ++ waves.repr ++ " waves / " ++ tickets.repr ++
    " tickets) -- run 'cc' to continue"

/-- One more on a counter, with its event. At the cap the counters start again under a grant that
persists, and the valve waits for the operator under any other. -/
def World.bump (w : World) (k : Counter) (agent utc : String) (s moved : State) (events : List Event) :
    State × List Event :=
  let n := s.count k + 1
  let e := w.event (events.getLast?.map (·.id)) "DEC" none agent (incrementText k (s.count k) n)
  let moved := { moved.setCount k n with lastEvent := some e.id }
  let counted := s.setCount k n
  let waves := counted.count .waves
  let tickets := counted.count .tickets
  if n < k.cap then (moved, events ++ [e])
  else
    match w.tripCheckpoint counted with
    | none => ({ moved with nextAction := valveWait waves tickets }, events ++ [e])
    | some source =>
        let marker := w.event (some e.id) "DEC" none agent (checkpointText waves tickets source)
        ({ moved with
            goalWaves := some 0, goalTickets := some 0, lastEvent := some marker.id, updated := utc },
          events ++ [e, marker])

/-- The counter a move of a goal run counts on. -/
def countedMove (s : State) (destination : String) : Option Counter :=
  if s.executionIntent ≠ some "goal" then none
  else if destination = "REVIEW" ∧ s.phase = "VERIFY" then some .tickets
  else if destination = "ADD" ∧ s.phase = "HUNT" then some .waves
  else none

/-! ### The planner -/

/-- A transition as it is asked for. -/
structure Request where
  destination : String
  agent : String
  ticket : Option String
  text : String
  utc : String

/-- What an operation is refused with. -/
inductive Refusal where
  | claim (code : String)
  | notWorkable (ticket : String)
  | unknownPhase (current destination : String)
  | illegal (current destination : String) (legal : List String) (doing : List String)
  | noActiveTicket (destination : String)
  | taskMismatch (task active : String)
  | ticketNotFound (ticket : String)
  | ticketMismatch (ticket active : String)
  | sourceBoundary (ticket code : String)
  | incomplete (ticket reason : String)
  | operatorDecision (repair : BlockerRepair)
  | taxonomy (name : String)
  | invalidTicket (ticket : String)
  | staleContext (ticket task : String)
  | validation (errors : List String)
deriving DecidableEq

/-- The codes of the refusals. -/
def Refusal.code : Refusal → String
  | .claim code => code
  | .notWorkable _ => "TICKET_NOT_WORKABLE"
  | .unknownPhase .. | .illegal .. => "ILLEGAL_TRANSITION"
  | .noActiveTicket _ | .taskMismatch .. | .ticketMismatch .. => "ACTIVE_TICKET_MISMATCH"
  | .ticketNotFound _ => "TICKET_NOT_FOUND"
  | .sourceBoundary _ code => code
  | .incomplete .. => "INCOMPLETE_TICKET"
  | .operatorDecision _ => "OPERATOR_DECISION_REQUIRED"
  | .staleContext .. => "STALE_WORK_CONTEXT"
  | .taxonomy _ | .invalidTicket _ | .validation _ => "VALIDATION_FAILED"

/-- The tickets that are DOING. -/
def doing (b : Parsed) : List String := (b.tickets.filter (·.sectionName = "## DOING")).map (·.id)

/-- The ticket a move into a ticket-bearing phase is about. -/
def transitionSubject (destination : String) (r : Request) (c : Checkpoint) :
    Except Refusal (Option String) := do
  if destination ∈ ticketBearing then
    let active ← orRefuse (doing c.board).head? (.noActiveTicket destination)
    refuseIf (c.state.task ≠ "" && active ≠ c.state.task) (.taskMismatch c.state.task active)
    refuseOn (r.ticket.filter (· ≠ active)) fun ticket =>
      if (c.board.ticket ticket).isNone then .ticketNotFound ticket else .ticketMismatch ticket active
    return some active
  else return none

/-- The gates of the ticket: the source at its boundary, the core unit in front of SHIP, and the
evidence behind VERIFY. -/
def World.ticketGates (w : World) (destination : String) (subject : Option String) (c : Checkpoint) :
    Except Refusal Unit := do
  let ticket := subject.getD "None"
  if subject.isSome ∧ destination ∈ ["BUILD", "REVIEW", "SHIP"] then
    refuseOn (w.boundary ticket destination) (.sourceBoundary ticket)
  if subject.isSome ∧ destination = "SHIP" then
    refuseOn (w.shipGate ticket c.events) (.incomplete ticket)
  if destination = "REVIEW" ∧ c.state.phase = "VERIFY" then
    refuseOn (w.evidence ticket c.events) (.incomplete ticket)
    refuseOn (w.regression ticket) (.incomplete ticket)
    refuseOn (w.acceptance ticket) (.incomplete ticket)

/-- The blocker after a move: leaving BLOCKED clears it, entering BLOCKED keeps it, and any other move
is refused by a live gate and clears a stale text. -/
def blockerAfter (isWordChar : Char → Bool) (destination : String) (s : State) (b : Parsed) :
    Except Refusal String :=
  if !isOpen s.blocker then .ok s.blocker
  else if upper s.phase = "BLOCKED" then .ok "none"
  else if destination = "BLOCKED" then .ok s.blocker
  else
    let repairs := stateBlockerRepairs isWordChar s b
    match repairs.find? (·.refuses) with
    | some repair => .error (.operatorDecision repair)
    | none => .ok (if repairs.isEmpty then s.blocker else "none")

/-- The action behind a move. -/
def actionAfter (destination : String) (subject : Option String) (s : State) : String :=
  if startsWith s.nextAction "WAIT:" then s.nextAction
  else if destination ∈ ticketBearing then "PHASE " ++ destination ++ " " ++ subject.getD "None"
  else if destination = "DONE" then "saipen continue"
  else "PHASE " ++ destination

/-- The checkpoint a move proposes, all but the fast gate. -/
def World.transitioned (w : World) (destination : String) (subject : Option String)
    (blocker : String) (r : Request) (c : Checkpoint) : Checkpoint :=
  let s := c.state
  let marker := "transition to " ++ destination
  let text := if r.text = "" then marker else marker ++ " -- " ++ r.text
  let e := w.event c.tail "RUN" subject r.agent text
  let moved : State :=
    { s with
      phase := destination, nextAction := actionAfter destination subject s,
      transitionFrom := some s.phase, lastEvent := some e.id, updated := r.utc, agent := r.agent,
      blocker := blocker, task := if destination = "DONE" then "none" else s.task }
  let (moved, events) :=
    match countedMove s destination with
    | some k => w.bump k r.agent r.utc s moved (c.events ++ [e])
    | none => (moved, c.events ++ [e])
  let board := (w.refresh c r.agent r.utc).getD c.board
  let moved :=
    if destination = "DONE" then { moved with nextAction := (w.route moved board r.agent).getD moved.nextAction }
    else moved
  ⟨moved, board, events⟩

section Planner

/- The characters of `\w`. -/
variable (isWordChar : Char → Bool)

/-- `_plan_transition`. -/
def World.planTransition (w : World) (r : Request) (c : Checkpoint) : Except Refusal Checkpoint := do
  let destination := upper r.destination
  let current := c.state.phase
  refuseOn (w.activeClaim c r.agent) .claim
  refuseIf (destination ∈ ticketBearing && w.nonWork c) (.notWorkable c.state.task)
  refuseIf (destination ∉ allPhases && destination ∉ anyFrom) (.unknownPhase current destination)
  refuseIf (!transitionLegal current destination)
    (.illegal current destination (edgesFrom current) (doing c.board))
  let subject ← transitionSubject destination r c
  w.ticketGates destination subject c
  let blocker ← blockerAfter isWordChar destination c.state c.board
  let c' := w.transitioned destination subject blocker r c
  refuseIf (!(w.validate c' r.agent).isEmpty) (.validation (w.validate c' r.agent))
  return c'

/-- A transition as it is run: one that is refused changes nothing. -/
def World.transition (w : World) (r : Request) (c : Checkpoint) : Checkpoint :=
  match w.planTransition isWordChar r c with
  | .ok c' => c'
  | .error _ => c

end Planner

/-! ### What a move does -/

section Effects

variable {isWordChar : Char → Bool} {w : World} {destination : String} {subject : Option String}
  {blocker : String} {r : Request} {c c' : Checkpoint}

/-- **Inversion.** An accepted move goes along the DFA, passes the blocker rule, and is the checkpoint
proposed. -/
theorem planTransition_ok (h : w.planTransition isWordChar r c = .ok c') :
    ∃ subject blocker, transitionLegal c.state.phase (upper r.destination) = true ∧
      blockerAfter isWordChar (upper r.destination) c.state c.board = .ok blocker ∧
      c' = w.transitioned (upper r.destination) subject blocker r c := by
  simp only [World.planTransition, bind_eq_ok, refuseOn_eq_ok, refuseIf_eq_ok, pure_eq_ok] at h
  obtain ⟨-, -, -, -, -, -, -, hlegal, subject, -, -, -, blocker, hblocker, -, -, rfl⟩ := h
  rw [Bool.not_eq_false'] at hlegal
  exact ⟨subject, blocker, hlegal, hblocker, rfl⟩

/-- Counting changes the counters and what is said about them. -/
theorem bump_blocker (k : Counter) (agent utc : String) (s moved : State) (events : List Event) :
    (w.bump k agent utc s moved events).1.blocker = moved.blocker ∧
      (w.bump k agent utc s moved events).1.phase = moved.phase := by
  unfold World.bump
  dsimp only
  split
  · cases k <;> exact ⟨rfl, rfl⟩
  · split <;> cases k <;> exact ⟨rfl, rfl⟩

/-- The checkpoint proposed stands in the destination, with the blocker of the rule. -/
theorem transitioned_blocker :
    (w.transitioned destination subject blocker r c).state.blocker = blocker ∧
      (w.transitioned destination subject blocker r c).state.phase = destination := by
  unfold World.transitioned
  dsimp only
  cases hmove : countedMove c.state destination with
  | none =>
    dsimp only
    split <;> exact ⟨rfl, rfl⟩
  | some k =>
    dsimp only
    split
    · exact bump_blocker ..
    · exact bump_blocker ..

end Effects

end Saipen.Operations
