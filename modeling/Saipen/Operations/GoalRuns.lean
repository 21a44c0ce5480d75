import Saipen.Log.Detail
import Saipen.Operations.GoalCounters

/-! # Runs under a goal

Goal entry, transitions, checkpoints, claims, finishes and reconciliations, in any order. The engine's
own events move the counters of STATE and the count over the LOG alike; a checkpoint writes the text it
is given, and is the one operation that can move the count alone. -/

namespace Saipen.Operations

open Text Board Checks

/-! ### Operations -/

/-- A message for the LOG. -/
structure Message where
  taxonomy : String
  ticket : Option String
  text : String

/-- The events of messages, one behind the other. -/
def World.events (w : World) (agent : String) (tail : Option Nat) : List Message → List Event
  | [] => []
  | m :: ms =>
      let e := w.event tail m.taxonomy m.ticket agent m.text
      e :: w.events agent (some e.id) ms

/-- Where an operation leaves the project. -/
structure Placement where
  phase : String
  task : String
  nextAction : String
  blocker : String
  transitionFrom : Option String
  board : Parsed

/-- A checkpoint with the messages of an operation, in another place. -/
def World.commit (w : World) (agent utc : String) (p : Placement) (ms : List Message) (s : State)
    (c : Checkpoint) : Checkpoint :=
  let events := w.events agent c.tail ms
  ⟨{ s with
      phase := p.phase, task := p.task, nextAction := p.nextAction, blocker := p.blocker,
      transitionFrom := p.transitionFrom, agent := agent, updated := utc,
      lastEvent := (events.getLast?.map (·.id)).or s.lastEvent },
    p.board, c.events ++ events⟩

/-- The messages of a goal entry: the pivot, the wave of the Entry PLAN, and the planned tickets. -/
def goalEntryMessages (objective : String) (active : Option String) (plan : List String) : List Message :=
  let suffix := (active.map fun t => " (active " ++ t ++ " checkpointed to TODO)").getD ""
  ⟨"DEC", active, "goal pivot -- " ++ objective ++ suffix⟩ ::
    ⟨"DEC", active, incrementText .waves 0 1⟩ ::
    plan.map fun t => ⟨"DEC", some t, "ticket added via SAIOPS -- goal entry"⟩

/-- The message of a claim; one in place names an actor that is not the seat. -/
def claimMessage (seat agent ticket detail : String) (inPlace : Bool) : Message :=
  let text := "claimed via SAIOPS -- " ++ detail
  ⟨"DEC", some ticket,
    if inPlace && seat ≠ "" && seat ≠ agent then
      "actor " ++ agent ++ " (seat " ++ seat ++ "); " ++ text
    else text⟩

/-- The messages of a finish: what was run, the completion, and the parent that is resumed. -/
def finishMessages (ticket previous publication : String) (ran : Option String)
    (parent : Option (String × String)) : List Message :=
  (ran.map fun text => ⟨"RUN", some ticket, text⟩).toList ++
    ⟨"DEC", some ticket,
      "ticket finished via SAIOPS -- completion (from " ++ previous ++ ")" ++ publication⟩ ::
    (parent.map fun p =>
      ⟨"DEC", some p.1,
        "blocked parent resumed after dependency " ++ ticket ++ " reached DONE" ++ p.2⟩).toList

/-- The messages of a reconciliation: adoptions, attestations, and what was repaired. -/
def reconcileMessages (adopted attested : List String) (summary : String) : List Message :=
  adopted.map (fun t =>
    ⟨"DEC", some t,
      "LEGACY_ADOPTED " ++ t ++ " -- no canonical allocation event is available in the complete " ++
        "history; adopted now by explicit operator decision, original ticket id/title/bytes " ++
        "preserved, no historical allocation or actor fabricated (Target E)"⟩) ++
    attested.map (fun t =>
      ⟨"DEC", some t,
        "legacy completion attested for " ++ t ++ " -- operator decision; the historical completion " ++
          "stands as recorded. No closure_mode is fabricated for a generation that had none and no " ++
          "historical LOG line is rewritten."⟩) ++
    [⟨"DEC", none, "reconcile protocol state -- " ++ summary⟩]

/-- A counter of STATE. -/
def State.counter (s : State) : Counter → Option Nat
  | .waves => s.goalWaves
  | .tickets => s.goalTickets

/-- A repair of a counter. -/
structure CounterRepair where
  counter : Counter
  present : Option Nat
  wanted : Nat
  refuse : Bool
deriving DecidableEq

/-- The repair of one counter: behind the LOG or absent it is brought up, ahead of it it is brought
down, unless it stands at the cap. -/
def counterRepair (s : State) (rebuilt : Counts) (k : Counter) : Option CounterRepair :=
  let want := rebuilt.get k
  match s.counter k with
  | none => some ⟨k, none, want, false⟩
  | some n => if n = want then none else some ⟨k, some n, want, want < n && k.cap ≤ n⟩

/-- `_state_counter_repairs`. -/
def stateCounterRepairs (isWordChar : Char → Bool) (c : Checkpoint) : List CounterRepair :=
  if c.state.executionIntent ≠ some "goal" then []
  else [.waves, .tickets].filterMap (counterRepair c.state (derivedGoalCounters isWordChar c.events))

/-- STATE with its counters repaired. -/
def applyCounterRepairs (repairs : List CounterRepair) (s : State) : State :=
  repairs.foldl (fun s r => s.setCount r.counter r.wanted) s

/-- A checkpoint as it is asked for. -/
structure CheckpointRequest where
  agent : String
  taxonomy : String
  ticket : Option String
  description : String
  utc : String

/-- The ticket of a checkpoint: it is on the BOARD, and the work the project is in. -/
def checkpointTicket (ticket : String) (c : Checkpoint) : Except Refusal Unit := do
  refuseIf (!Log.isTicketId ticket) (.invalidTicket ticket)
  let row ← orRefuse (c.board.ticket ticket) (.ticketNotFound ticket)
  let task := c.state.task
  refuseIf (task = "" || task = "none" || task ≠ ticket || row.sectionName ≠ "## DOING")
    (.staleContext ticket task)

/-- `checkpoint`, with `_plan_checkpoint`. -/
def World.planCheckpoint (w : World) (r : CheckpointRequest) (c : Checkpoint) :
    Except Refusal Checkpoint := do
  let taxonomy := upper r.taxonomy
  refuseIf (taxonomy ∉ ["DEC", "RUN"]) (.taxonomy r.taxonomy)
  refuseOn (w.activeClaim c r.agent) .claim
  (r.ticket.map (checkpointTicket · c)).getD (.ok ())
  let e := w.event c.tail taxonomy r.ticket r.agent r.description
  let c' : Checkpoint :=
    ⟨{ c.state with lastEvent := some e.id, updated := r.utc, agent := r.agent },
      (w.refresh c r.agent r.utc).getD c.board, c.events ++ [e]⟩
  refuseIf (!(w.validate c' r.agent).isEmpty) (.validation (w.validate c' r.agent))
  return c'

/-- An operation. -/
inductive Op where
  | goalEntry (objective : String) (active : Option String) (plan : List String)
  | transition (r : Request)
  | checkpoint (r : CheckpointRequest)
  | claim (ticket detail : String) (inPlace : Bool)
  | finish (ticket publication : String) (ran : Option String) (parent : Option (String × String))
  | reconcile (adopted attested : List String) (summary : String)

/-- An operation with the world it runs in: whether the guards of its planner let it through, and
where it leaves the project. Transitions and checkpoints have their planners here. -/
structure Step where
  world : World
  op : Op
  agent : String
  utc : String
  admitted : Checkpoint → Bool
  place : Checkpoint → Placement

section Runs

/- The characters of `\w`. -/
variable (isWordChar : Char → Bool)

/-- An operation as it is run: one that is refused changes nothing. -/
def Step.perform (st : Step) (c : Checkpoint) : Checkpoint :=
  let commit := st.world.commit st.agent st.utc (st.place c)
  match st.op with
  | .transition r => st.world.transition isWordChar r c
  | .checkpoint r =>
      match st.world.planCheckpoint r c with
      | .ok c' => c'
      | .error _ => c
  | .goalEntry objective active plan =>
      if st.admitted c then
        commit (goalEntryMessages objective active plan)
          { c.state with
            executionIntent := some "goal", goalWaves := some 1, goalTickets := some 0 } c
      else c
  | .claim ticket detail inPlace =>
      if st.admitted c then
        commit [claimMessage c.state.agent st.agent ticket detail inPlace] c.state c
      else c
  | .finish ticket publication ran parent =>
      if st.admitted c then
        commit (finishMessages ticket c.state.phase publication ran parent) c.state c
      else c
  | .reconcile adopted attested summary =>
      let repairs := stateCounterRepairs isWordChar c
      if st.admitted c && !repairs.any (·.refuse) then
        commit (reconcileMessages adopted attested summary) (applyCounterRepairs repairs c.state) c
      else c

/-- The checkpoints a sequence of operations goes through. -/
def reached : List Step → Checkpoint → List Checkpoint
  | [], c => [c]
  | st :: sts, c => c :: reached sts (st.perform isWordChar c)

end Runs

end Saipen.Operations
