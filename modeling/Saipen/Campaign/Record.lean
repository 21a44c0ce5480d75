import Mathlib.Data.Rat.Defs
import Mathlib.Algebra.Order.Ring.Unbundled.Rat
import Saipen.Json
import Saipen.Text

/-! # The campaign record

What `.saipen/campaign/state.json` keeps of a campaign: its lifecycle state, the counters its budget
is checked against and the one worker attempt it is waiting for or has heard of. An attempt leaves an
outcome file of its own, bound to the attempt by its identity, campaign, generation and cancellation
epoch. `inspectCampaignState` says what a reader makes of the file. -/

namespace Saipen.Campaign

open Text

/-- The closed lifecycle states. -/
inductive Lifecycle where
  | proposed | admitted | running | checkpointing | discovering | forensicAnalysis | auditDelivery
  | repairing | verifying | quiescentWait | retryWait | operatorBlocked | authorityBlocked
  | externalBlocked | safetyStop | cancelled | complete
deriving DecidableEq

/-- `in (COMPLETE, CANCELLED)`. -/
def Lifecycle.ended (s : Lifecycle) : Bool := s = .complete || s = .cancelled

/-! ### Budgets -/

/-- The limits a mapping gives, each where its key is present. -/
structure Budget where
  maxGenerations : Option ℤ := none
  maxCycles : Option ℤ := none
  maxWallSeconds : Option ℚ := none
deriving DecidableEq

/-- `_valid_budget`. -/
def validBudget (b : Budget) : Bool :=
  b.maxGenerations.all (0 < ·) && b.maxCycles.all (0 < ·) && b.maxWallSeconds.all (0 < ·)

/-- `budget.update(resource_budget)`. -/
def Budget.update (b r : Budget) : Budget where
  maxGenerations := r.maxGenerations.or b.maxGenerations
  maxCycles := r.maxCycles.or b.maxCycles
  maxWallSeconds := r.maxWallSeconds.or b.maxWallSeconds

/-- The limits of an operator capsule: all three are there, and all are positive. -/
structure Limits where
  maxGenerations : ℤ
  maxCycles : ℤ
  maxWallSeconds : ℚ
  generations_pos : 0 < maxGenerations
  cycles_pos : 0 < maxCycles
  wall_pos : 0 < maxWallSeconds

/-- `any(value > authorization["resource_budget"][key] for …)`. -/
def Budget.exceeds (r : Budget) (l : Limits) : Bool :=
  r.maxGenerations.any (l.maxGenerations < ·) || r.maxCycles.any (l.maxCycles < ·) ||
    r.maxWallSeconds.any (l.maxWallSeconds < ·)

/-- `{key: min(value, authorization["resource_budget"][key]) for …}`. -/
def Budget.capped (b : Budget) (l : Limits) : Budget where
  maxGenerations := b.maxGenerations.map (min · l.maxGenerations)
  maxCycles := b.maxCycles.map (min · l.maxCycles)
  maxWallSeconds := b.maxWallSeconds.map (min · l.maxWallSeconds)

/-- `HORIZONS`. -/
def HORIZONS : List (String × Budget) :=
  [("SHORT", { maxWallSeconds := some 3600, maxCycles := some 10, maxGenerations := some 5 }),
   ("MULTI_HOUR", { maxWallSeconds := some 14400, maxCycles := some 30, maxGenerations := some 15 }),
   ("OVERNIGHT", { maxWallSeconds := some 36000, maxCycles := some 100, maxGenerations := some 40 }),
   ("MULTI_DAY", { maxWallSeconds := some 172800, maxCycles := some 500, maxGenerations := some 200 })]

/-- The horizons are budgets that pass their own check. -/
theorem validBudget_horizons : ∀ h ∈ HORIZONS, validBudget h.2 = true := by
  decide

/-- A valid request over a valid budget is a valid budget. -/
theorem validBudget_update {b r : Budget} (hb : validBudget b = true) (hr : validBudget r = true) :
    validBudget (b.update r) = true := by
  simp only [validBudget, Bool.and_eq_true] at hb hr ⊢
  obtain ⟨⟨hbg, hbc⟩, hbw⟩ := hb
  obtain ⟨⟨hrg, hrc⟩, hrw⟩ := hr
  refine ⟨⟨?_, ?_⟩, ?_⟩
  · cases h : r.maxGenerations <;> simp_all [Budget.update]
  · cases h : r.maxCycles <;> simp_all [Budget.update]
  · cases h : r.maxWallSeconds <;> simp_all [Budget.update]

/-- A valid budget capped by an operator's limits is valid. -/
theorem validBudget_capped {b : Budget} (hb : validBudget b = true) (l : Limits) :
    validBudget (b.capped l) = true := by
  simp only [validBudget, Bool.and_eq_true] at hb ⊢
  obtain ⟨⟨hg, hc⟩, hw⟩ := hb
  refine ⟨⟨?_, ?_⟩, ?_⟩
  · cases h : b.maxGenerations <;> simp_all [Budget.capped, l.generations_pos]
  · cases h : b.maxCycles <;> simp_all [Budget.capped, l.cycles_pos]
  · cases h : b.maxWallSeconds <;> simp_all [Budget.capped, l.wall_pos]

/-! ### Attempts and their outcomes -/

/-- The states of a worker attempt. -/
inductive AttemptStatus where
  | executorStarted
  | unknownOutcome
  | cancelRequested
  | executionResultObserved
deriving DecidableEq

/-- `in ("EXECUTOR_STARTED", "UNKNOWN_OUTCOME")`: the attempt is not accounted for. -/
def AttemptStatus.unsettled (s : AttemptStatus) : Bool := s = .executorStarted || s = .unknownOutcome

/-- `_attempt_binding`. -/
structure Binding where
  attemptId : String
  campaignId : String
  generation : ℕ
  cancellationEpoch : ℕ
  executionIntent : Json
deriving DecidableEq

/-- A worker attempt: what binds it, where it stands and what was heard of it. -/
structure Attempt where
  binding : Binding
  status : AttemptStatus := .executorStarted
  /-- `executor_kind` is `"injected_test_worker"`. -/
  injected : Bool
  resultReference : String
  finishedAt : Option String := none
  result : Option Json := none
  error : Option String := none
deriving DecidableEq

/-- The place of the outcome file of an attempt. -/
def attemptReference (id : String) : String := ".saipen/campaign/attempts/" ++ id ++ ".json"

/-- What the controller saw of LOG and STATE around the worker. -/
structure Observation where
  beforeEvent : String
  afterEvent : String
  beforeState : String
  afterState : String
deriving DecidableEq

/-- The outcome the controller that started a worker writes. -/
structure Outcome where
  binding : Binding
  result : Json
  error : Option String
  observation : Observation
  observedAt : String
deriving DecidableEq

/-- An outcome file: there is none, what is there has no integrity, or it is as it was written. -/
inductive OutcomeFile where
  | missing
  | damaged
  | kept (o : Outcome)
deriving DecidableEq

/-! ### The record -/

/-- The persisted state of a campaign. -/
structure CampaignState where
  campaignId : String
  projectLineage : String
  goalBinding : Json
  authorityProofReference : Option String
  authorityScope : String
  authorityGrantDigest : Option String
  campaignState : Lifecycle
  workerGeneration : ℕ := 0
  cycleCount : ℕ := 0
  cancellationEpoch : ℕ := 0
  lastAnalysisGeneration : ℕ := 0
  lastProductiveProgress : ℤ
  nextAction : String
  wakeCondition : Option String := none
  retryCount : ℕ := 0
  noProgressCount : ℕ := 0
  resourceBudget : Budget
  createdAt : ℤ
  workerAttempt : Option Attempt := none
  predecessorReference : Option String := none
deriving DecidableEq

/-- `state.json`: there is none, what is there cannot be trusted, or it is what a controller saved. -/
inductive StateFile where
  | absent
  | damaged (status : String)
  | saved (s : CampaignState)
deriving DecidableEq

/-- The answers of `inspect_campaign_state`. -/
inductive Inspection where
  | absent
  | invalid (status : String)
  | valid (s : CampaignState)
deriving DecidableEq

/-- The shape `inspect_campaign_state` asks of the worker attempt of a record. -/
def Attempt.shaped (s : CampaignState) (a : Attempt) : Bool :=
  a.binding.campaignId = s.campaignId && 1 ≤ a.binding.generation &&
    a.binding.generation = s.workerGeneration

/-- `inspect_campaign_state`. -/
def inspectCampaignState : StateFile → Inspection
  | .absent => .absent
  | .damaged status => .invalid status
  | .saved s =>
    if strip s.campaignId = "" then .invalid "STATE_CORRUPT"
    else if !validBudget s.resourceBudget then .invalid "STATE_CORRUPT"
    else if !s.workerAttempt.all (Attempt.shaped s) then .invalid "STATE_CORRUPT"
    else .valid s

/-- Only a saved record is read as a valid one, and it is read as it was saved. -/
theorem saved_of_valid {f : StateFile} {s : CampaignState} (h : inspectCampaignState f = .valid s) :
    f = .saved s := by
  cases f with
  | absent => simp [inspectCampaignState] at h
  | damaged status => simp [inspectCampaignState] at h
  | saved t =>
    simp only [inspectCampaignState] at h
    split_ifs at h
    rw [Inspection.valid.inj h]

end Saipen.Campaign
