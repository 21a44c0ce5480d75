import Saipen.Checks
import Saipen.OperatorOrigin.Events

/-! # The calls

Each call of `OperatorOrigins` is a sequence of checks, the first of which to fail refuses it, and
changes one record after the last. `prepare_debt` goes on after `verify`, so what it refuses from there
on is answered with what `verify` has left. -/

namespace Saipen.OperatorOrigin

open Checks HostAuthority

/-- What a call is answered: what it refuses leaves everything as it was. -/
def Origins.answer (o : Origins) (result : Except String (Origins × Reply)) : Origins × Reply :=
  match result with
  | .ok answered => answered
  | .error detail => (o, .refused detail)

/-- `ACTIONS`. -/
def actions : List String :=
  ["start", "continue", "goal", "authorize-goal", "append", "handoff", "report", "resolve-gate",
    "retire", "supersede"]

/-- `MAX_EVENTS`. -/
def maxEvents : ℕ := 4096

/-- The identity of a native event in a project. -/
def Native.key (n : Native) (project : String) : Key := ⟨project, n.host, n.session, n.eventId⟩

/-- `binding`: what an event is bound to. -/
def Native.scope (n : Native) (project : Context) : Scope :=
  { project with session := n.session, host := n.host, model := n.model, provider := n.provider }

/-- The goal an existing goal is authorised with; `none` for every other action. -/
def World.authorization (w : World) (n : Native) : Except String (Option GoalCapsule) := do
  if n.action = "authorize-goal" then
    let unreadable := "native goal authorization is not an exact goal capsule"
    let authorization ← orRefuse (w.parseGoal n.text) unreadable
    let current ← orRefuse (w.currentGoal n.root) unreadable
    refuseIf (authorization != current) "native authorization names a different existing goal"
    return some authorization
  else return none

/-- The record of a new event. -/
def World.newEvent (w : World) (n : Native) (project : Context) (host : Fact) (born : ℚ)
    (authorization : Option GoalCapsule) (nonce : Hex) : Event :=
  let content : Sealed :=
    { scope := n.scope project
      eventId := n.eventId
      nonce := nonce
      action := n.action
      requestDigest := w.ingressDigest n.text
      issued := w.clock 0
      expires := plusSeconds (w.clock 1) w.ttl
      hostPid := host.pid
      hostBirth := born }
  { proof := { content with provenance := w.provenance content }
    goalTarget := (authorization.map (·.goalIngress)).getD (w.goalTarget n.text project.project)
    authorization := authorization }

/-- `issue`, with the nonce it draws for a new event. -/
def Origins.issue (o : Origins) (w : World) (n : Native) (nonce : Hex) :
    Except String (Origins × Reply) := do
  refuseIf (Text.strip n.text == "" || 262144 < n.text.utf8ByteSize || n.eventId.length < 1 ||
      160 < n.eventId.length || !actions.contains n.action || n.hostPid ≤ 0)
    "native operator event is missing a bounded identity, body or action"
  let project ← orRefuse (w.context n.root)
    "native operator project or host process scope is unavailable"
  let hosts ← orRefuse (w.chain n.hostPid)
    "native operator project or host process scope is unavailable"
  let (host, born) ← orRefuse hosts.head? "native host process birth could not be observed"
  let authorization ← w.authorization n
  match o.events (n.key project.project) with
  | some prior =>
      let known ← orRefuse (o.find prior) "KeyError"
      refuseIf (known.revoked || known.proof.requestDigest != w.ingressDigest n.text ||
          known.proof.action != n.action || known.proof.hostPid != host.pid ||
          known.proof.hostBirth != born || known.proof.scope != n.scope project)
        "a native event identity cannot be reused with another intent"
      refuseIf (w.past 0 known.proof.expires) "the native operator event has expired"
      return (o, .issued known.proof true)
  | none =>
      refuseIf (maxEvents ≤ o.records.length)
        "operator event capacity is full; existing authority is preserved"
      let event := w.newEvent n project host born authorization nonce
      let o := o.put event
      return ({ o with events := Function.update o.events (n.key project.project) (some nonce) },
        .issued event.proof false)

/-- Whether a worker of an event whose delivery has expired may still be registered for its campaign. -/
def World.campaignLive (w : World) (known : Event) : Bool :=
  known.campaignGrant.any fun campaign =>
    w.clock 0 < campaign.expiresAt &&
      w.elapsed 1 campaign.startedAt < campaign.admission.budget.maxWallSeconds

/-- `register_worker`, for the host process that was identified and the process it names. -/
def Origins.registerWorker (o : Origins) (w : World) (proof : Option Proof) (hostPid pid : ℤ) :
    Except String (Origins × Reply) := do
  let foreign := "operator event does not belong to this native host invocation"
  let unobserved := "worker is not an observed child of the proven native host"
  let known ← orRefuse (o.record w proof) foreign
  let proof := known.proof
  refuseIf (hostPid != proof.hostPid) foreign
  let facts := (w.chain pid).getD []
  let (_, born) ← orRefuse facts.head? unobserved
  refuseIf (pid == proof.hostPid ||
      !(facts.drop 1).any fun (fact, born) => fact.pid == proof.hostPid && born == proof.hostBirth)
    unobserved
  refuseIf (w.past 2 proof.expires && known.goalGrant.isNone && !w.campaignLive known)
    "the native operator event has expired"
  refuseIf
    (facts.any fun (fact, born) =>
      (o.workers (fact.pid, born)).any fun existing =>
        existing != proof.nonce && !(o.find existing).any (·.revoked))
    "a live worker cannot be rebound to a different operator event"
  return ({ o with workers := Function.update o.workers (pid, born) (some proof.nonce) }, .worker pid)

/-- `verify`. -/
def Origins.verify (o : Origins) (w : World) (p : Payload) (peer : ℤ) :
    Except String (Origins × Reply) := do
  let unverified := "operator origin or delivering OS worker is unverified"
  let another := "operator origin belongs to another project, session or content"
  let expired := "native event expired or changed task/action scope"
  let unbound := "operator event is not bound to this exact canonical Source"
  let unreadable := "operator origin scope or canonical Source is unreadable"
  let known ← orRefuse (o.record w p.proof) unverified
  let proof := known.proof
  refuseIf (!o.isWorker w peer proof.nonce) unverified
  refuseIf known.campaignGrant.isSome "operator delivery is reserved for its original campaign"
  refuseIf (known.goalGrant.isSome && p.receipt != .null && proof.action != "authorize-goal")
    "operator delivery is reserved for its original goal operation"
  let root ← orRefuse (w.resolve p.project) unreadable
  let project ← orRefuse (w.projectIdentity root) unreadable
  refuseIf (project != proof.scope.project) another
  let lineage ← orRefuse (w.lineage root) unreadable
  refuseIf (lineage != some proof.scope.lineage || p.requestDigest != some proof.requestDigest ||
      !(p.session == .null || p.session == .str proof.scope.session))
    another
  -- a retirement that names the Source of its event is not held to the task it was issued in
  let boundRetirement :=
    proof.action == "retire" && known.receipt.isSome && p.receipt == jsonText known.receipt
  refuseIf (w.past 0 proof.expires) expired
  let matched ← orRefuse (w.scopeMatches root proof boundRetirement) unreadable
  refuseIf (!matched) expired
  let verdict : Reply := .verdict root proof.requestDigest proof.action
  if p.receipt == .null then
    refuseIf known.receipt.isSome "operator delivery is bound; use its original Source"
    return (o, verdict)
  else
    refuseIf (p.existingOnly && p.receipt != jsonText known.receipt)
      "the original Source has not already bound this event"
    refuseIf (known.receipt.isSome && p.receipt != jsonText known.receipt) unbound
    let canonical ← orRefuse (w.source root p.receipt proof) unreadable
    refuseIf (!canonical) unbound
    if known.receipt.isNone then return (o.put { known with receipt := p.receipt.str? }, verdict)
    else return (o, verdict)

/-- `received_source`. -/
def Origins.receivedSource (o : Origins) (w : World) (p : Payload) :
    Except String (Origins × Reply) := do
  let unaccepted := "the issuer has not accepted this exact Source"
  let changed := "the accepted Source origin is absent or changed"
  let unreadable := "the accepted Source is unreadable"
  let known ← orRefuse (o.record w p.proof) unaccepted
  let proof := known.proof
  let receipt ← orRefuse (known.receipt.filter (· != "")) unaccepted
  refuseIf (p.receipt != .str receipt) unaccepted
  let root ← orRefuse (w.resolve p.project) unreadable
  let project ← orRefuse (w.projectIdentity root) unreadable
  refuseIf (project != proof.scope.project) changed
  let lineage ← orRefuse (w.lineage root) unreadable
  refuseIf (lineage != some proof.scope.lineage || p.requestDigest != some proof.requestDigest) changed
  let canonical ← orRefuse (w.source root p.receipt proof) unreadable
  refuseIf (!canonical) changed
  return (o, .source root receipt proof.requestDigest proof.action)

/-- `revoke`. -/
def Origins.revoke (o : Origins) (w : World) (proof : Option Proof) (hostPid : ℤ) :
    Except String (Origins × Reply) := do
  let foreign := "operator event does not belong to this native host invocation"
  let known ← orRefuse (o.record w proof) foreign
  refuseIf (hostPid != known.proof.hostPid) foreign
  return (o.put { known with revoked := true }, .done)

/-- What `prepare_goal` requires of the Source of the event. -/
def World.goalSource (w : World) (root : String) (p : Payload) (known : Event) (source : String) :
    Except String Unit := do
  let unbound := "the existing goal authorization Source is unbound"
  let unreadable := "native goal reservation scope is unreadable"
  if known.proof.action = "authorize-goal" then
    let authorization ← orRefuse known.authorization unreadable
    refuseIf (source != authorization.authoritySource || known.receipt.isNone ||
        p.authorization != known.authorization)
      unbound
    let canonical ← orRefuse (w.source root (jsonText known.receipt) known.proof) unreadable
    refuseIf (!canonical) unbound
  else refuseIf known.receipt.isSome "native goal intent is already bound to a Source"

/-- `prepare_goal`. -/
def Origins.prepareGoal (o : Origins) (w : World) (p : Payload) (peer : ℤ) :
    Except String (Origins × Reply) := do
  let unregistered := "a registered native goal intent is required"
  let expired := "goal intent expired or changed scope before reservation"
  let mismatch := "goal reservation does not match the exact native intent"
  let unreadable := "native goal reservation scope is unreadable"
  let known ← orRefuse (o.record w p.proof) unregistered
  let proof := known.proof
  refuseIf (! ["goal", "authorize-goal"].contains proof.action || !o.isWorker w peer proof.nonce ||
      known.campaignGrant.isSome)
    unregistered
  let root ← orRefuse (w.resolve p.project) unreadable
  let project ← orRefuse (w.projectIdentity root) unreadable
  refuseIf (project != proof.scope.project || w.past 0 proof.expires) expired
  let matched ← orRefuse (w.scopeMatches root proof false) unreadable
  refuseIf (!matched) expired
  let grant ← orRefuse p.grant mismatch
  let source := grant.authoritySource
  let prefixed := if proof.action = "goal" then "goal-entry-" else "goal-authorize-"
  refuseIf (!isEventName source || grant != grantFields source known.goalTarget) mismatch
  let operation ← orRefuse p.operation mismatch
  refuseIf (operation != prefixed ++ proof.nonce.text) mismatch
  let semanticHash ← orRefuse p.semanticHash mismatch
  refuseIf (!isHexOf 16 semanticHash) mismatch
  let reservation : GoalReservation := ⟨operation, semanticHash, grant⟩
  w.goalSource root p known source
  refuseIf (known.goalGrant.isSome && known.goalGrant != some reservation)
    "native goal intent is already bound to another effect"
  return (o.put { known with goalGrant := some reservation }, .done)

/-- What `verify_goal` requires of the Source an existing goal was authorised with. -/
def World.transitionSource (w : World) (root : String) (known : Event) (record : GoalOperation) :
    Except String Unit := do
  let changed := "the original existing-goal authorization has changed"
  if known.proof.action = "authorize-goal" then
    refuseIf (record.scope != known.authorization || record.authorizationReceipt != known.receipt)
      changed
    let canonical ← orRefuse (w.source root (jsonText known.receipt) known.proof)
      "the accepted goal operation is unreadable"
    refuseIf (!canonical) changed

/-- `verify_goal`. -/
def Origins.verifyGoal (o : Origins) (w : World) (p : Payload) (peer : ℤ) :
    Except String (Origins × Reply) := do
  let unavailable := "the goal issuer or registered delivering worker is unavailable"
  let unreserved := "native intent has no matching goal reservation"
  let scopeLost := "the accepted goal no longer owns this exact continuation scope"
  let absent := "the original canonical goal operation is absent or changed"
  let unreadable := "the accepted goal operation is unreadable"
  let known ← orRefuse (o.record w p.proof) unavailable
  let proof := known.proof
  let reserved ← orRefuse known.goalGrant unreserved
  refuseIf (p.operation != some reserved.operation) unreserved
  refuseIf (!o.isGoalWorker w peer proof reserved.grant.goalIngress reserved.grant.authoritySource)
    unavailable
  let root ← orRefuse (w.resolve p.project) unreadable
  let (phase, held) ← orRefuse (w.goalState root) unreadable
  let project ← orRefuse (w.projectIdentity root) unreadable
  refuseIf (project != proof.scope.project) scopeLost
  let lineage ← orRefuse (w.lineage root) unreadable
  refuseIf (lineage != some proof.scope.lineage || phase == "CORRUPT" || held != some reserved.grant)
    scopeLost
  let transition := proof.action == "authorize-goal"
  let record ← orRefuse (w.goalOperation root reserved.operation transition) unreadable
  refuseIf (record.status != "COMMITTED" ||
      record.operation != (if transition then "goal_authorize" else "goal_entry") ||
      record.semanticHash != reserved.semanticHash || record.lineage != proof.scope.lineage ||
      record.witness != "operator_carrier" || record.origin != some proof ||
      record.comparedDigest != proof.requestDigest ||
      record.scope.map (·.toGoalGrant) != some reserved.grant)
    absent
  w.transitionSource root known record
  return (o, .goal reserved.operation reserved.grant)

/-- `[A-Za-z0-9][A-Za-z0-9_.-]{0,159}`. -/
def isCampaignId (s : String) : Bool :=
  match s.toList with
  | c :: cs => Text.isAsciiAlnum c && cs.length ≤ 159 &&
      cs.all fun c => Text.isAsciiAlnum c || "_.-".toList.contains c
  | [] => false

/-- `valid_budget`. -/
def validBudget (b : Budget) : Bool := 0 < b.maxGenerations && 0 < b.maxCycles && 0 < b.maxWallSeconds

/-- `validate_admission`. -/
def validateAdmission (a : Admission) (c : CampaignCapsule) : Bool :=
  isCampaignId a.campaignId && a.goalIngress == c.goalIngress &&
    a.authoritySource == c.authoritySource && validBudget a.budget &&
    a.budget.maxGenerations ≤ c.budget.maxGenerations && a.budget.maxCycles ≤ c.budget.maxCycles &&
    a.budget.maxWallSeconds ≤ c.budget.maxWallSeconds

/-- Whether another event of the project holds a campaign of this name. -/
def Origins.campaignTaken (o : Origins) (known : Event) (campaignId : String) : Bool :=
  o.records.any fun (nonce, record) =>
    nonce != known.proof.nonce.text && record.proof.scope.project == known.proof.scope.project &&
      record.campaignGrant.any fun campaign => campaign.admission.campaignId == campaignId

/-- The reservation `verify_campaign` compares with: the one there is, or a new one. -/
def Origins.campaignReservation (o : Origins) (w : World) (p : Payload) (root : String) (known : Event)
    (authorization : CampaignCapsule) (admission : Admission) (digest : String) :
    Except String CampaignReservation :=
  match known.campaignGrant with
  | some reservation => return reservation
  | none => do
      let dead := "campaign has no live native admission reservation"
      refuseIf (!p.consume || w.past 1 known.proof.expires) dead
      let matched ← orRefuse (w.scopeMatches root known.proof false)
        "campaign capsule or canonical context is unreadable"
      refuseIf (!matched) dead
      refuseIf (o.campaignTaken known admission.campaignId)
        "campaign identity belongs to another original operator event"
      return ⟨admission, digest, w.clock 2, authorization.expiresAt⟩

/-- What `verify_campaign` requires of the campaign the project has. -/
def CampaignState.check (admission : Admission) (consume : Bool) : CampaignState → Except String Unit
  | .absent => refuseIf (!consume) "campaign outcome is unresolved; no executable state was committed"
  | .corrupt => .error "canonical campaign state is corrupt"
  | .current campaignId held terminal =>
      if campaignId = admission.campaignId then
        refuseIf (terminal || held != some admission)
          "canonical campaign is terminal or changed admission"
      else refuseIf (!terminal) "another live campaign still owns this project"

/-- What `verify_campaign` requires of the Source it is given. -/
def World.campaignSource (w : World) (root : String) (p : Payload) (known : Event) :
    Except String Unit := do
  let notOriginal := "campaign Source is not the original exact native instruction"
  if p.receipt != .null then
    refuseIf (known.receipt.isSome && p.receipt != jsonText known.receipt) notOriginal
    let canonical ← orRefuse (w.source root p.receipt known.proof)
      "campaign capsule or canonical context is unreadable"
    refuseIf (!canonical) notOriginal

/-- `verify_campaign`. -/
def Origins.verifyCampaign (o : Origins) (w : World) (p : Payload) (peer : ℤ) :
    Except String (Origins × Reply) := do
  let outside := "campaign capsule is expired, consumed or outside its native scope"
  let exceeds := "campaign admission exceeds the exact goal or resource bounds"
  let unreadable := "campaign capsule or canonical context is unreadable"
  let known ← orRefuse (o.record w p.proof) "campaign operator issuer is unavailable or revoked"
  let proof := known.proof
  let text ← orRefuse p.requestText unreadable
  let authorization ← orRefuse (w.parseCampaign text) unreadable
  let root ← orRefuse (w.resolve p.project) unreadable
  let current ← orRefuse (w.context root) unreadable
  refuseIf (w.ingressDigest text != proof.requestDigest || ! ["start", "goal"].contains proof.action)
    outside
  let project ← orRefuse (w.projectIdentity root) unreadable
  refuseIf (project != proof.scope.project) outside
  let target ← orRefuse (w.projectIdentity authorization.targetProject) unreadable
  refuseIf (target != proof.scope.project || current.lineage != proof.scope.lineage ||
      authorization.projectLineage != proof.scope.lineage || authorization.host != proof.scope.host ||
      authorization.session != proof.scope.session || authorization.goalIngress != proof.scope.goal ||
      authorization.authoritySource != proof.scope.budget ||
      current.goal != authorization.goalIngress || current.budget != authorization.authoritySource ||
      !(w.clock 0 < authorization.expiresAt) || known.goalGrant.isSome)
    outside
  refuseIf (!o.isGoalWorker w peer proof authorization.goalIngress authorization.authoritySource)
    "campaign caller is not a registered worker in the original native session"
  refuseIf (p.requestedScope != .null &&
      !authorization.scopes.any fun scope => p.requestedScope == .str scope)
    "campaign operation has no declared permission"
  let admission ← orRefuse p.admission exceeds
  let digest ← orRefuse p.carrierDigest exceeds
  refuseIf (!validateAdmission admission authorization || !isHexOf 64 digest) exceeds
  w.campaignSource root p known
  let reservation ← o.campaignReservation w p root known authorization admission digest
  refuseIf (reservation.admission != admission || reservation.carrierDigest != digest ||
      !(w.elapsed 3 reservation.startedAt < admission.budget.maxWallSeconds))
    "campaign grant was changed, reused or exhausted"
  let state ← orRefuse (w.campaignState root) unreadable
  state.check admission p.consume
  let verdict : Reply := .campaign authorization admission digest
  if p.consume then
    let receipt := if p.receipt == .null then known.receipt else p.receipt.str?
    return (o.put { known with campaignGrant := some reservation, receipt := receipt }, verdict)
  else return (o, verdict)

/-- The reservation of a debt. -/
def World.reserve (w : World) (authorization : String) (record : DebtRecord) : DebtReservation where
  operation := record.registrationOpId
  recordId := record.recordId
  authorization := authorization
  recordSha256 := w.debtSha256 record
  record := record

/-- The record `prepare_debt` registers again after the attempt that was reserved has aborted. -/
def World.retry (w : World) (old : DebtReservation) : DebtRecord :=
  let retry : DebtRecord :=
    { old.record with
      registrationAttempt := old.record.registrationAttempt + 1, retryOf := some old.operation }
  let retry := { retry with registrationOpId := w.debtOperationId retry }
  let retry := { retry with journalOpId := retry.registrationOpId }
  { retry with integrityDigest := w.debtDigest retry }

/-- `prepare_debt` of an event that has reserved a debt. -/
def Origins.renewDebt (o : Origins) (w : World) (root : String) (known : Event)
    (authorization : String) (record : DebtRecord) (old : DebtReservation) :
    Except String (Origins × Reply) := do
  let unreadable := "native Decision B scope is unreadable or invalid"
  refuseIf (w.debtIntent old.record != w.debtIntent record)
    "Decision B is already reserved for another effect"
  let status ← orRefuse (w.debtStatus root old.operation) unreadable
  if status = some "ABORTED" then
    refuseIf (w.debtTarget root record.recordId) "the aborted acceptance target is no longer absent"
    let (_, actual) ← orRefuse (w.debtEvidence root record.events) unreadable
    refuseIf (actual != record.evidence) "history changed after the approved attempt aborted"
    let retry := w.retry old
    return (o.put { known with debtGrant := some (w.reserve authorization retry) }, .debt retry)
  else return (o, .debt old.record)

/-- What `prepare_debt` does once `verify` has accepted the delivery. -/
def Origins.registerDebt (o : Origins) (w : World) (root : String) (known : Event)
    (authorization : String) (record : DebtRecord) : Except String (Origins × Reply) := do
  let expired := "Decision B expired or names another registration"
  let unreadable := "native Decision B scope is unreadable or invalid"
  let next ← orRefuse (w.nextDebtRecord root) unreadable
  refuseIf (record.recordId != next) expired
  let project ← orRefuse (w.projectIdentity root) unreadable
  refuseIf (record.projectIdentity != project) expired
  let late ← orRefuse (w.debtExpired authorization) unreadable
  refuseIf late expired
  let (events, evidence) ← orRefuse (w.debtEvidence root record.events) unreadable
  refuseIf (events != record.events || evidence != record.evidence)
    "Decision B does not match the actual immutable history"
  let unchanged ← orRefuse (w.debtSuperseded root authorization) unreadable
  refuseIf (!unchanged) "the explicitly superseded historical record changed"
  return (o.put { known with debtGrant := some (w.reserve authorization record) }, .debt record)

/-- `prepare_debt`. -/
def Origins.prepareDebt (o : Origins) (w : World) (p : Payload) (peer : ℤ) :
    Except String (Origins × Reply) := do
  let differs := "Decision B registration differs from its original Source"
  let unreadable := "native Decision B scope is unreadable or invalid"
  let known ← orRefuse (o.record w p.proof) "a native Decision B intent is required"
  let proof := known.proof
  refuseIf (proof.action != "resolve-gate") "a native Decision B intent is required"
  let root ← orRefuse (w.resolve p.project) unreadable
  let record ← orRefuse p.record "Decision B needs a valid accepted-debt artifact"
  let (authorization, origin) ← orRefuse (w.debtShape root record) unreadable
  refuseIf (authorization != record.authorization || origin != some proof ||
      known.receipt != some record.authority || record.registrationOpId != w.debtOperationId record ||
      record.journalOpId != record.registrationOpId || record.integrityDigest != w.debtDigest record)
    differs
  match known.debtGrant with
  | some old => o.renewDebt w root known authorization record old
  | none =>
      refuseIf (record.registrationAttempt != 0 || record.retryOf.isSome)
        "a fresh Decision B cannot invent prior registration attempts"
      match o.verify w { proof := some proof
                         project := root
                         receipt := .str record.authority
                         existingOnly := true
                         requestDigest := some proof.requestDigest } peer with
      | .error _ => .error "Decision B has no current registered operator worker"
      -- the Source was bound before, so `verify` has left the event as it was
      | .ok (o, _) => return o.answer (o.registerDebt w root known authorization record)

/-- `verify_debt`. -/
def Origins.verifyDebt (o : Origins) (w : World) (p : Payload) : Except String (Origins × Reply) := do
  let unavailable := "the original Decision B reservation is unavailable"
  let unreadable := "the original Decision B operation is unreadable"
  let known ← orRefuse (o.record w p.proof) unavailable
  let reserved ← orRefuse known.debtGrant unavailable
  let root ← orRefuse (w.resolve p.project) unreadable
  let record ← orRefuse p.record unreadable
  let (authorization, _) ← orRefuse (w.debtShape root record) unreadable
  refuseIf (authorization != reserved.authorization || authorization != record.authorization ||
      record.recordId != reserved.recordId || record.registrationOpId != reserved.operation ||
      w.debtOperationId record != reserved.operation)
    "the acceptance no longer matches its original Decision B"
  let journal ← orRefuse (w.debtOperation root reserved.operation) unreadable
  let committed := journal.status == "COMMITTED"
  refuseIf (! ["PREPARED", "APPLYING", "VERIFIED", "COMMITTED"].contains journal.status ||
      (!committed && !p.pending) || journal.operation != "accepted_debt.register" ||
      journal.lineage != known.proof.scope.lineage || journal.semanticHash != reserved.recordSha256)
    "the original acceptance operation is absent or changed"
  refuseIf (!journal.targetIsArtifact) "the canonical acceptance target is not the reserved artifact"
  return (o, .debtVerdict reserved.operation authorization committed)

/-- A call. -/
inductive Call where
  | issue (native : Native) (nonce : Hex)
  | registerWorker (proof : Option Proof) (hostPid pid : ℤ)
  | verify (payload : Payload) (peer : ℤ)
  | receivedSource (payload : Payload)
  | prepareGoal (payload : Payload) (peer : ℤ)
  | verifyGoal (payload : Payload) (peer : ℤ)
  | verifyCampaign (payload : Payload) (peer : ℤ)
  | prepareDebt (payload : Payload) (peer : ℤ)
  | verifyDebt (payload : Payload)
  | revoke (proof : Option Proof) (hostPid : ℤ)

/-- The proof a call presents. -/
def Call.proof : Call → Option Proof
  | .issue _ _ => none
  | .registerWorker proof _ _ | .revoke proof _ => proof
  | .verify p _ | .receivedSource p | .prepareGoal p _ | .verifyGoal p _ | .verifyCampaign p _
  | .prepareDebt p _ | .verifyDebt p => p.proof

/-- The checks of a call. -/
def Origins.run (o : Origins) (w : World) : Call → Except String (Origins × Reply)
  | .issue native nonce => o.issue w native nonce
  | .registerWorker proof hostPid pid => o.registerWorker w proof hostPid pid
  | .verify p peer => o.verify w p peer
  | .receivedSource p => o.receivedSource w p
  | .prepareGoal p peer => o.prepareGoal w p peer
  | .verifyGoal p peer => o.verifyGoal w p peer
  | .verifyCampaign p peer => o.verifyCampaign w p peer
  | .prepareDebt p peer => o.prepareDebt w p peer
  | .verifyDebt p => o.verifyDebt w p
  | .revoke proof hostPid => o.revoke w proof hostPid

/-- A call and its answer. -/
def Origins.call (o : Origins) (w : World) (c : Call) : Origins × Reply := o.answer (o.run w c)

end Saipen.OperatorOrigin
