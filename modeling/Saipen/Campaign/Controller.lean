import Saipen.Campaign.Record

/-! # The campaign controller

`admit_campaign`, `cancel`, `step` and `_commit_worker_outcome`, each as what it makes of the record
it reads while it holds the campaign lock. `step` gives the lock up while the worker runs, so it is
cut there: `step` ends where a worker is started, and `commitWorkerOutcome` is what is left to do once
the worker is back. What the collaborators of a call answer is given with the call. -/

namespace Saipen.Campaign

/-- What `verify_operator_grant` answers for a scope. -/
structure GrantAnswer where
  valid : Bool
  status : String
  authorizedScopes : List String
  grantDigest : Option String

/-- An operator capsule as `read_carrier` proves it. -/
structure Authorization where
  goalBinding : Json
  authorizedScopes : List String
  resourceBudget : Limits

/-- The progress part of a reply. -/
structure Progress where
  madeProgress : Bool
  journalAdvanced : Bool
  stateMutated : Bool
deriving DecidableEq

/-- The reply of a call. -/
structure Reply where
  ok : Bool
  code : Option String := none
  event : Option String := none
  status : Option String := none
  state : Option CampaignState := none
  progress : Option Progress := none
  publishedFindingIds : List (Option String) := []
  failedFindingIds : List (Option String) := []
deriving DecidableEq

/-- `not text`, for a text that may be missing. -/
def falsy (t : Option String) : Bool := t = none || t = some ""

/-! ### Admission -/

/-- The arguments of `admit_campaign`, and what its collaborators answer. -/
structure AdmitCall where
  campaignId : Option String := none
  horizon : String := "SHORT"
  goalBinding : Option Json := none
  authorityScope : Option String := none
  authorityProofReference : Option String := none
  resourceBudget : Option Budget := none
  forceNew : Bool := false
  /-- A fresh `CAMPAIGN-…` identity. -/
  freshId : String
  lineage : String
  /-- The path of the project's STATE. -/
  statePath : String
  /-- `read_carrier`, or nothing where it raises. -/
  carrier : Option Authorization := none
  grant : String → GrantAnswer
  now : ℤ

/-- `str(campaign_id or f"CAMPAIGN-{uuid.uuid4()}")`. -/
def AdmitCall.cid (c : AdmitCall) : String := if falsy c.campaignId then c.freshId else c.campaignId.getD ""

/-- What an admission writes: the archived predecessor under its digest, and the new record. -/
structure AdmitOutcome where
  archived : Option (String × CampaignState) := none
  saved : Option CampaignState := none
  reply : Reply

/-- `min(scopes)`, for the scopes of a capsule. -/
def leastScope : List String → String
  | [] => ""
  | [scope] => scope
  | scope :: rest => if leastScope rest < scope then leastScope rest else scope

/-- The scope an admission asks for where none is named. -/
def defaultScope (scopes : List String) : String :=
  if "continuous_maintenance" ∈ scopes then "continuous_maintenance"
  else if "CAMPAIGN_EXECUTION" ∈ scopes then "CAMPAIGN_EXECUTION"
  else leastScope scopes

/-- The scope an admission asks for. -/
def AdmitCall.scope (c : AdmitCall) (authorization : Authorization) : String :=
  if falsy c.authorityScope then defaultScope authorization.authorizedScopes
  else c.authorityScope.getD ""

/-- The new record with its authority, or the refusal. -/
def AdmitCall.record (c : AdmitCall) (horizon : Budget) : Except Reply CampaignState :=
  let asked := c.resourceBudget.getD {}
  let budget := horizon.update asked
  if falsy c.authorityProofReference then
    -- without an authenticated grant the campaign is a proposal nobody may run
    .ok { campaignId := c.cid, projectLineage := c.lineage
          goalBinding := c.goalBinding.getD
            (.obj [("path", .str c.statePath), ("fingerprint", .str c.lineage)])
          authorityProofReference := c.authorityProofReference, authorityScope := "none"
          authorityGrantDigest := none, campaignState := .proposed, lastProductiveProgress := c.now
          nextAction := "operator_grant_required", resourceBudget := budget, createdAt := c.now }
  else
    match c.carrier with
    | none => .error { ok := false, code := some "INVALID_AUTHORITY_GRANT", status := some "GRANT_INVALID" }
    | some authorization =>
      if asked.exceeds authorization.resourceBudget then
        .error { ok := false, code := some "INVALID_RESOURCE_BUDGET" }
      else
        let scope := c.scope authorization
        let granted := c.grant scope
        if !granted.valid then
          .error { ok := false, code := some "INVALID_AUTHORITY_GRANT", status := some granted.status }
        else
          .ok { campaignId := c.cid, projectLineage := c.lineage
                goalBinding := c.goalBinding.getD authorization.goalBinding
                authorityProofReference := c.authorityProofReference, authorityScope := scope
                authorityGrantDigest := granted.grantDigest, campaignState := .admitted
                lastProductiveProgress := c.now, nextAction := "start_campaign_worker"
                resourceBudget := budget.capped authorization.resourceBudget, createdAt := c.now }

/-- The place of an archived record. -/
def historyReference (digest : String) : String := ".saipen/campaign/history/" ++ digest ++ ".json"

/-- The reply to an admission that went through. -/
def admittedReply (s : CampaignState) : Reply :=
  { ok := true, state := some s, status := some (if s.campaignState = .admitted then "ADMITTED" else "PROPOSED") }

/-- `admit_campaign`, the lock being held. `digest` is the digest of a record's bytes and `history`
what the archive keeps under a digest. -/
def admitCampaign (digest : CampaignState → String) (history : String → Option CampaignState)
    (file : StateFile) (c : AdmitCall) : AdmitOutcome :=
  match HORIZONS.lookup c.horizon with
  | none => { reply := { ok := false, code := some "INVALID_HORIZON" } }
  | some horizon =>
    if !c.resourceBudget.all validBudget then
      { reply := { ok := false, code := some "INVALID_RESOURCE_BUDGET" } }
    else
      match inspectCampaignState file with
      | .invalid status => { reply := { ok := false, code := some status } }
      | .absent =>
        match c.record horizon with
        | .error reply => { reply := reply }
        | .ok s => { saved := some s, reply := admittedReply s }
      | .valid existing =>
        if !existing.campaignState.ended then
          if c.forceNew then { reply := { ok := false, code := some "LIVE_CAMPAIGN_SUPERSEDED_REFUSED" } }
          else { reply := { ok := true, state := some existing, status := some "RESUMED_EXISTING" } }
        else if c.cid = existing.campaignId then
          { reply := { ok := false, code := some "CAMPAIGN_ID_REUSED" } }
        else
          match c.record horizon with
          | .error reply => { reply := reply }
          | .ok s =>
            -- the predecessor is archived first, and never over another record
            if (history (digest existing)).any (· ≠ existing) then
              { reply := { ok := false, code := some "CAMPAIGN_HISTORY_CONFLICT" } }
            else
              let s' := { s with predecessorReference := some (historyReference (digest existing)) }
              { archived := some (digest existing, existing), saved := some s', reply := admittedReply s' }

/-! ### Cancellation -/

/-- The attempt a cancellation leaves behind. -/
def Attempt.cancelled (a : Attempt) : Attempt :=
  if a.status.unsettled then { a with status := .cancelRequested } else a

/-- `cancel`, the lock being held. -/
def cancel (file : StateFile) (reason : String) : Option CampaignState × Reply :=
  match inspectCampaignState file with
  | .absent => (none, { ok := false, code := some "STATE_ABSENT" })
  | .invalid status => (none, { ok := false, code := some status })
  | .valid s =>
    if s.campaignState.ended then (none, { ok := true, state := some s })
    else
      let t := { s with
        cancellationEpoch := s.cancellationEpoch + 1
        workerAttempt := s.workerAttempt.map Attempt.cancelled
        campaignState := .cancelled
        nextAction := "campaign_cancelled: " ++ reason }
      (some t, { ok := true, state := some t, status := some "CANCELLED" })

/-! ### The outcome of a worker -/

/-- `_verify_state_grant`: the grant must cover the scope, and be the one of the admission. -/
def verifyStateGrant (grant : String → GrantAnswer) (s : CampaignState) (requested : Option String) :
    GrantAnswer :=
  let scope := requested.getD s.authorityScope
  let result := grant scope
  if result.valid && scope ∉ result.authorizedScopes then
    { valid := false, status := "SCOPE_UNAUTHORIZED", authorizedScopes := [], grantDigest := none }
  else if result.valid && (falsy s.authorityGrantDigest || s.authorityGrantDigest ≠ result.grantDigest) then
    { valid := false, status := "GRANT_MODIFIED_AFTER_ADMISSION", authorizedScopes := []
      grantDigest := none }
  else result

/-- `worker_result.get(key)`; what is no dictionary has no keys. -/
def field (r : Json) (key : String) : Option Json :=
  match r with
  | .obj fields => fields.lookup key
  | _ => none

/-- `isinstance(w_res, dict)`. -/
def isDict : Json → Bool
  | .obj _ => true
  | _ => false

/-- `_verify_progress_evidence`: what the controller saw, and a worker's word only from an executor
the caller put in. -/
def verifyProgressEvidence (result : Json) (seen : Observation) (injected : Bool) : Progress :=
  let journalAdvanced := seen.beforeEvent ≠ seen.afterEvent && seen.afterEvent ≠ "none"
  let stateMutated := seen.beforeState ≠ seen.afterState && seen.afterState ≠ "none"
  let asserted := field result "progress_verified" = some (.bool true) ||
    field result "mutated" = some (.bool true)
  { madeProgress := journalAdvanced || stateMutated || (asserted && injected)
    journalAdvanced := journalAdvanced
    stateMutated := stateMutated }

/-- The reply of a controller whose attempt is no longer the campaign's. -/
def fenced (s : CampaignState) : Option CampaignState × Reply :=
  (none, { ok := false, code := some "WORKER_GENERATION_FENCED", state := some s })

/-- `worker_error or "Worker reported failure; …"`. -/
def failureText (error : Option String) : String :=
  if falsy error then "Worker reported failure; partial side effects require reconciliation"
  else error.getD ""

/-- What a commit makes of a record and of an outcome that belongs to its attempt. -/
def settle (grant : String → GrantAnswer) (now : ℤ) (s : CampaignState) (a : Attempt) (o : Outcome) :
    CampaignState × Reply :=
  let granted := (verifyStateGrant grant s none).valid
  let error := if granted then o.error else some "Authority invalidated while the worker was running"
  let s := if granted then s else { s with campaignState := .authorityBlocked }
  let heard := { a with finishedAt := some o.observedAt, result := some o.result }
  if error.isSome || !isDict o.result || field o.result "ok" = some (.bool false) then
    let t := { s with
      workerAttempt := some { heard with status := .unknownOutcome, error := some (failureText error) }
      retryCount := s.retryCount + 1
      noProgressCount := s.noProgressCount + 1
      nextAction := "reconcile_worker_attempt" }
    (t, { ok := false, event := some "WORKER_GENERATION_FAILED"
          code := some "WORKER_GENERATION_FAILED", state := some t })
  else
    let observed := { heard with status := .executionResultObserved }
    if field o.result "route_only" = some (.bool true) then
      let t := { s with workerAttempt := some observed, noProgressCount := s.noProgressCount + 1 }
      (t, { ok := true, event := some "WORKER_ROUTE_ONLY", state := some t
            progress := some { madeProgress := false, journalAdvanced := false, stateMutated := false } })
    else
      let progress := verifyProgressEvidence o.result o.observation a.injected
      let t := { s with
        workerAttempt := some observed
        lastProductiveProgress := if progress.madeProgress then now else s.lastProductiveProgress
        noProgressCount := if progress.madeProgress then 0 else s.noProgressCount + 1 }
      (t, { ok := true, event := some "WORKER_GENERATION_EXECUTED", state := some t
            progress := some progress })

/-- `_commit_worker_outcome`, the lock being held. -/
def commitWorkerOutcome (grant : String → GrantAnswer) (now : ℤ) (outcomes : String → OutcomeFile)
    (s : CampaignState) (expected : Binding) : Option CampaignState × Reply :=
  match s.workerAttempt with
  | none => fenced s
  | some a =>
    if s.campaignId ≠ expected.campaignId || s.cancellationEpoch ≠ expected.cancellationEpoch ||
        a.binding.attemptId ≠ expected.attemptId || s.campaignState.ended then fenced s
    else if a.resultReference ≠ attemptReference a.binding.attemptId then
      (none, { ok := false, code := some "ATTEMPT_RESULT_CORRUPT", state := some s })
    else
      match outcomes a.binding.attemptId with
      | .missing => (none, { ok := false, code := some "ATTEMPT_RECOVERY_REQUIRED", state := some s })
      | .damaged => (none, { ok := false, code := some "ATTEMPT_RESULT_CORRUPT", state := some s })
      | .kept o =>
        if o.binding ≠ a.binding || o.observedAt = "" then
          (none, { ok := false, code := some "ATTEMPT_RESULT_CORRUPT", state := some s })
        else
          let (t, reply) := settle grant now s a o
          (some t, reply)

/-! ### A step -/

/-- The classifications of a continuation assessment, and any other text. -/
inductive Classification where
  | activeWork | queuedWork | recoveryAvailable | auditAvailable | sourceAvailable
  | discoveryAvailable | maintenanceAvailable | quiescent | waitExternal | waitOperator
  | waitAuthority | safetyStop | conformanceStop | invalidRuntime
  | other (text : String)
deriving DecidableEq

/-- What `assess_continuation` answers; `record` is the answer as it is written down. -/
structure Assessment where
  classification : Classification
  nextAction : String
  record : Json

/-- What the delivery of one finding answers. -/
structure DeliveryRow where
  findingId : Option String
  ok : Bool
  status : String
  /-- `receipt_reconciliation_required` or `outcome_unknown`. -/
  unknown : Bool

/-- What `discover` answers. -/
inductive Discovery where
  /-- No envelope, or one that is not `ok`, with its status. -/
  | failed (status : String)
  | answered (status : String) (findings : List Json)

/-- An analysis backend: what it discovers, and what it makes of a finding it is offered. -/
structure Backend where
  discovery : Discovery
  deliver : Json → Bool → DeliveryRow

/-- Who executes a worker generation: the function the caller put in, the tool of the project, or
nobody. -/
inductive Executor where
  | injected
  | canonical
  | unavailable
deriving DecidableEq

/-- What the collaborators of a step answer. -/
structure Answers where
  grant : String → GrantAnswer
  now : ℚ
  assessment : Assessment
  backend : Option Backend
  executor : Executor
  /-- `uuid.uuid4()`. -/
  attemptId : String

/-- What a step does while it holds the lock: reply, having saved a record or not, or save the claim
of an attempt and go on to its worker. -/
inductive StepOutcome where
  | replied (saved : Option CampaignState) (reply : Reply)
  | started (saved : CampaignState) (attempt : Attempt)
deriving DecidableEq

/-- Save the record in a lifecycle state and reply. -/
def park (s : CampaignState) (l : Lifecycle) (ok : Bool) (event : String) (code : Option String := none)
    (status : Option String := none) : StepOutcome :=
  let t := { s with campaignState := l }
  .replied (some t) { ok := ok, event := some event, code := code, status := status, state := some t }

/-- The findings of a batch that were published. -/
def published (delivered : List DeliveryRow) : List DeliveryRow := delivered.filter (·.ok)

/-- The findings of a batch that failed, staged ones and unknown outcomes apart. -/
def failed (delivered : List DeliveryRow) : List DeliveryRow :=
  delivered.filter fun row => !row.ok && row.status ≠ "STAGED_PUBLICATION" && !row.unknown

/-- `delivery_status`: what became of a batch. -/
def deliveryStatus (delivered : List DeliveryRow) : String :=
  if delivered.isEmpty then "NOTHING_TO_DELIVER"
  else if (published delivered).length = delivered.length then "ALL_DELIVERED"
  else if !(published delivered).isEmpty then "PARTIALLY_DELIVERED"
  else if delivered.any (·.unknown) then "PUBLICATION_OUTCOME_UNKNOWN"
  else if delivered.any (·.status = "STAGED_PUBLICATION") then "PUBLICATION_STAGED"
  else if delivered.any (·.status = "AUTHORITY_REQUIRED") then "PUBLICATION_AUTHORITY_REQUIRED"
  else "NONE_DELIVERED"

/-- The delivery of findings: offer every one, and say what became of them. -/
def deliverFindings (ask : Answers) (backend : Backend) (s : CampaignState) (findings : List Json) :
    StepOutcome :=
  let authorized := (verifyStateGrant ask.grant s (some "EXTERNAL_AUDIT_PUBLICATION")).valid
  let delivered := findings.map (backend.deliver · authorized)
  let status := deliveryStatus delivered
  if status = "ALL_DELIVERED" || status = "PARTIALLY_DELIVERED" then
    let t := { s with campaignState := .auditDelivery }
    .replied (some t)
      { ok := true, event := some "DISCOVERY_DELIVERED", status := some status, state := some t
        publishedFindingIds := (published delivered).map (·.findingId)
        failedFindingIds := (failed delivered).map (·.findingId) }
  else
    let t := { s with
      campaignState := if status = "PUBLICATION_AUTHORITY_REQUIRED" then .externalBlocked else .retryWait }
    .replied (some t)
      { ok := false, event := some "DISCOVERY_DELIVERY_FAILED", status := some status
        state := some t, failedFindingIds := (failed delivered).map (·.findingId) }

/-- Forensic discovery: one call of the backend, under the authority for it. -/
def forensicDiscovery (ask : Answers) (s : CampaignState) : StepOutcome :=
  if !(verifyStateGrant ask.grant s (some "FORENSIC_ANALYSIS")).valid then
    park s .authorityBlocked true "AUTHORITY_BLOCKED"
  else
    match ask.backend with
    | none =>
      park { s with nextAction := "configure_analysis_backend" } .externalBlocked false
        "FORENSIC_DISCOVERY_FAILED" none (some "RUNTIME_UNAVAILABLE")
    | some backend =>
      match backend.discovery with
      | .failed status =>
        park { s with nextAction := "forensic_backend_recovery_required" }
          (if status = "AUTHORITY_REQUIRED" then .authorityBlocked
            else if status = "RETRYABLE_FAILURE" then .retryWait else .externalBlocked)
          false "FORENSIC_DISCOVERY_FAILED" none (some status)
      | .answered status findings =>
        let s := if status = "NEW_QUALIFIED_FINDINGS" || status = "ANALYSIS_PROGRESS" then
            { s with lastAnalysisGeneration := s.lastAnalysisGeneration + 1 } else s
        if status = "ANALYSIS_PROGRESS" then
          park { s with nextAction := "forensic_analysis_slice" } .forensicAnalysis true "ANALYSIS_PROGRESS"
        else if status = "NEW_QUALIFIED_FINDINGS" then
          deliverFindings ask backend { s with campaignState := .forensicAnalysis } findings
        else park s .quiescentWait true "DISCOVERY_NO_NEW_FINDINGS"

/-- The claim of a worker generation. -/
def startWorker (ask : Answers) (s : CampaignState) : StepOutcome :=
  if !(verifyStateGrant ask.grant s (some "CAMPAIGN_EXECUTION")).valid then
    park { s with nextAction := "operator_grant_required" } .authorityBlocked false "AUTHORITY_BLOCKED"
      none (some "SCOPE_UNAUTHORIZED")
  else if ask.executor = .unavailable then
    .replied none { ok := false, code := some "EXECUTOR_UNAVAILABLE", status := some "EXECUTOR_UNAVAILABLE"
                    state := some s }
  else
    let attempt : Attempt :=
      { binding :=
          { attemptId := ask.attemptId, campaignId := s.campaignId, generation := s.workerGeneration + 1
            cancellationEpoch := s.cancellationEpoch, executionIntent := ask.assessment.record }
        injected := ask.executor = .injected
        resultReference := attemptReference ask.attemptId }
    .started { s with
      campaignState := .running
      workerGeneration := s.workerGeneration + 1
      workerAttempt := some attempt } attempt

/-- What a step does about the classification, the cycle being counted. -/
def classified (ask : Answers) (s : CampaignState) : StepOutcome :=
  match ask.assessment.classification with
  | .quiescent =>
    park { s with wakeCondition := some "new_source_or_audit" } .quiescentWait true "QUIESCENT_WAIT"
  | .waitOperator => park s .operatorBlocked true "OPERATOR_BLOCKED"
  | .waitAuthority => park s .authorityBlocked true "AUTHORITY_BLOCKED"
  | .waitExternal => park s .externalBlocked true "EXTERNAL_BLOCKED"
  | .safetyStop | .conformanceStop => park s .safetyStop true "SAFETY_STOP"
  | .invalidRuntime => park s .safetyStop false "INVALID_RUNTIME" (some "INVALID_RUNTIME")
  | .discoveryAvailable =>
    park { s with nextAction := if ask.assessment.nextAction = "" then "saipen future refresh"
      else ask.assessment.nextAction } .discovering true "DISCOVERY_AVAILABLE"
  | .maintenanceAvailable => forensicDiscovery ask s
  | .auditAvailable => park s .auditDelivery true "AUDIT_AVAILABLE"
  | .sourceAvailable =>
    park { s with nextAction := if ask.assessment.nextAction = "" then "saipen source project"
      else ask.assessment.nextAction } .running true "SOURCE_AVAILABLE"
  | .activeWork | .queuedWork | .recoveryAvailable => startWorker ask s
  | .other _ =>
    .replied none { ok := false, code := some "UNHANDLED_CLASSIFICATION", state := some s }

/-- A step on a campaign no attempt is open in: authority and budget first. -/
def advance (ask : Answers) (s : CampaignState) : StepOutcome :=
  if falsy s.authorityProofReference then
    park { s with nextAction := "operator_grant_required" } .authorityBlocked true "AUTHORITY_BLOCKED"
      (some "AUTHORITY_PROOF_MISSING")
  else if !(verifyStateGrant ask.grant s none).valid then
    park { s with nextAction := "operator_grant_required" } .authorityBlocked true "AUTHORITY_BLOCKED"
      (some "GRANT_INVALIDATED") (some (verifyStateGrant ask.grant s none).status)
  else if !validBudget s.resourceBudget then
    .replied none { ok := false, code := some "INVALID_RESOURCE_BUDGET", state := some s }
  else if s.resourceBudget.maxCycles.getD 10 ≤ s.cycleCount then
    park { s with nextAction := "budget_exhausted: max_cycles reached" } .checkpointing true
      "BUDGET_EXHAUSTED"
  else if s.resourceBudget.maxGenerations.getD 999999 ≤ s.workerGeneration then
    park { s with nextAction := "budget_exhausted: max_generations reached" } .checkpointing true
      "BUDGET_EXHAUSTED"
  else if s.resourceBudget.maxWallSeconds.getD 999999999 ≤ ask.now - s.createdAt then
    park { s with nextAction := "budget_exhausted: max_wall_seconds reached" } .checkpointing true
      "BUDGET_EXHAUSTED"
  else
    classified ask { s with cycleCount := s.cycleCount + 1, nextAction := ask.assessment.nextAction }

/-- A step on a campaign with an attempt that is not accounted for: its outcome is committed where it
can be, and nothing else happens. -/
def reconcile (ask : Answers) (outcomes : String → OutcomeFile) (s : CampaignState) (a : Attempt) :
    StepOutcome :=
  if a.status = .executorStarted && a.resultReference ≠ "" then
    let (saved, reply) := commitWorkerOutcome ask.grant ask.now.floor outcomes s a.binding
    .replied saved (if reply.ok then { reply with event := some "WORKER_ATTEMPT_RECONCILED" } else reply)
  else
    .replied none { ok := false, code := some "ATTEMPT_RECOVERY_REQUIRED", state := some s }

/-- `step`, from taking the lock to giving it up. -/
def step (ask : Answers) (outcomes : String → OutcomeFile) (file : StateFile) : StepOutcome :=
  match inspectCampaignState file with
  | .absent => .replied none { ok := false, code := some "STATE_ABSENT" }
  | .invalid status => .replied none { ok := false, code := some status }
  | .valid s =>
    if s.campaignState.ended then .replied none { ok := true, state := some s }
    else if s.campaignState = .proposed then
      .replied none { ok := false, code := some "CAMPAIGN_NOT_ADMITTED", state := some s }
    else
      match s.workerAttempt with
      | some a => if a.status.unsettled then reconcile ask outcomes s a else advance ask s
      | none => advance ask s

end Saipen.Campaign
