import Saipen.HostAuthority.Authority
import Saipen.Json
import Mathlib.Logic.Function.Basic

/-! # Operator events

`OperatorOrigins` keeps one record for each native event it issued: the sealed proof, whether it was
revoked, the Source receipt it is bound to, and its reservations for a goal, a campaign and an accepted
debt. A call is a sequence of checks, the first of which to fail refuses it, and at its end changes
one record. What the calls read from the project, from the process table and from the clock is given
with each of them. -/

namespace Saipen.OperatorOrigin

open Binary64 HostAuthority

/-! ### The records -/

/-- `context`: the current scope of a project. -/
structure Context where
  project : String
  lineage : String
  task : String
  goal : String
  budget : String
deriving DecidableEq

/-- What a proof binds an event to. -/
structure Scope extends Context where
  session : String
  host : String
  model : String
  provider : String
deriving DecidableEq

/-- What is sealed of an operator event. -/
structure Sealed where
  scope : Scope
  eventId : String
  nonce : Hex
  action : String
  requestDigest : String
  issued : ℚ
  expires : Value
  hostPid : ℤ
  hostBirth : ℚ
deriving DecidableEq

/-- What the ledger puts under a payload it seals. -/
structure Provenance where
  kid : String
  alg : String
  mac : String
deriving DecidableEq

/-- A sealed proof of an operator event. -/
structure Proof extends Sealed where
  provenance : Provenance
deriving DecidableEq

/-- The identity of a native event. -/
structure Key where
  project : String
  host : String
  session : String
  eventId : String
deriving DecidableEq

/-- The identity of the event a proof is for. -/
def Proof.key (p : Proof) : Key := ⟨p.scope.project, p.scope.host, p.scope.session, p.eventId⟩

/-- A process the system reports. -/
structure Fact where
  pid : ℤ
  ppid : ℤ
  created : Option ℚ
deriving DecidableEq

/-- The fields of a goal grant. -/
structure GoalGrant where
  continuationAuthority : String
  authoritySource : String
  authorityUntil : String
  safetyValveMode : String
  goalIngress : String
deriving DecidableEq

/-- `grant_fields`, with the goal they are for. -/
def grantFields (source goalIngress : String) : GoalGrant where
  continuationAuthority := "operator_persistent"
  authoritySource := source
  authorityUntil := "goal_complete"
  safetyValveMode := "checkpoint"
  goalIngress := goalIngress

/-- `goal_grant`. -/
structure GoalReservation where
  operation : String
  semanticHash : String
  grant : GoalGrant
deriving DecidableEq

/-- The capsule an existing goal is authorised with: its grant and the other fields it has. -/
structure GoalCapsule extends GoalGrant where
  others : List (String × String)
deriving DecidableEq

/-- The bounds of a campaign. -/
structure Budget where
  maxGenerations : ℤ
  maxCycles : ℤ
  maxWallSeconds : ℚ
deriving DecidableEq

/-- `admission` of a campaign. -/
structure Admission where
  campaignId : String
  goalIngress : String
  authoritySource : String
  budget : Budget
deriving DecidableEq

/-- The capsule a campaign is authorised with. -/
structure CampaignCapsule where
  targetProject : String
  projectLineage : String
  host : String
  session : String
  goalIngress : String
  authoritySource : String
  scopes : List String
  budget : Budget
  expiresAt : ℚ
deriving DecidableEq

/-- `campaign_grant`. -/
structure CampaignReservation where
  admission : Admission
  carrierDigest : String
  startedAt : ℚ
  expiresAt : ℚ
deriving DecidableEq

/-- An artifact of accepted debt: what of it the calls read. -/
structure DebtRecord where
  recordId : String
  authority : String
  authorization : String
  registrationOpId : String
  journalOpId : String
  integrityDigest : String
  projectIdentity : String
  registrationAttempt : ℕ
  retryOf : Option String
  events : String
  evidence : String
deriving DecidableEq

/-- `debt_grant`. -/
structure DebtReservation where
  operation : String
  recordId : String
  authorization : String
  recordSha256 : String
  record : DebtRecord
deriving DecidableEq

/-- The record of an event. -/
structure Event where
  proof : Proof
  revoked : Bool := false
  receipt : Option String := none
  goalTarget : String
  goalGrant : Option GoalReservation := none
  authorization : Option GoalCapsule := none
  campaignGrant : Option CampaignReservation := none
  debtGrant : Option DebtReservation := none
deriving DecidableEq

/-- `OperatorOrigins`: the nonce of each event, the record under each nonce, and the nonce each
registered process is bound to. -/
structure Origins where
  events : Key → Option Hex := fun _ => none
  records : List (String × Event) := []
  workers : ℤ × ℚ → Option Hex := fun _ => none

/-! ### What a call is given -/

/-- The body and the provenance of a canonical Source. -/
structure Source where
  body : String
  witness : String
  origin : Option Proof
  comparedDigest : String

/-- The state of the campaign a project has. -/
inductive CampaignState where
  | absent
  | corrupt
  | current (campaignId : String) (admission : Option Admission) (terminal : Bool)

/-- A goal operation in the journal. -/
structure GoalOperation where
  status : String
  operation : String
  semanticHash : String
  lineage : String
  witness : String
  origin : Option Proof
  comparedDigest : String
  scope : Option GoalCapsule
  authorizationReceipt : Option String

/-- An operation of accepted debt in the journal: its status, what else it says, and whether its only
target is the artifact. -/
structure DebtOperation where
  status : String
  operation : String
  lineage : String
  semanticHash : String
  targetIsArtifact : Bool

/-- What the project, the process table and the clock answer one call; `none` where reading raises.
The clock is given reading by reading. -/
structure World where
  ttl : ℤ
  clock : ℕ → ℚ
  ancestry : ℤ → Option (List Fact)
  provenance : Sealed → Provenance
  resolve : String → Option String
  context : String → Option Context
  projectIdentity : String → Option String
  lineage : String → Option (Option String)
  readBody : String → String → Option (Option Source)
  ingressDigest : String → String
  goalTarget : String → String → String
  parseGoal : String → Option GoalCapsule
  currentGoal : String → Option GoalCapsule
  goalState : String → Option (String × Option GoalGrant)
  goalOperation : String → String → Bool → Option GoalOperation
  parseCampaign : String → Option CampaignCapsule
  campaignState : String → Option CampaignState
  debtShape : String → DebtRecord → Option (String × Option Proof)
  debtOperationId : DebtRecord → String
  debtDigest : DebtRecord → String
  debtSha256 : DebtRecord → String
  debtIntent : DebtRecord → String
  debtStatus : String → String → Option (Option String)
  debtOperation : String → String → Option DebtOperation
  debtTarget : String → String → Bool
  debtEvidence : String → String → Option (String × String)
  nextDebtRecord : String → Option String
  debtExpired : String → Option Bool
  debtSuperseded : String → String → Option Bool

/-- What `issue` is given: the scope and the process the broker observed, and the native event. A
value of another type than text reads as the empty text. -/
structure Native where
  root : String
  session : String
  host : String
  model : String
  provider : String
  hostPid : ℤ
  text : String
  eventId : String
  action : String

/-- The payload of a call. A proof, grant, authorization, admission or record of another shape than
the one that is looked for is `none`, as is a text that is none. -/
structure Payload where
  proof : Option Proof := none
  project : String := ""
  receipt : Json := .null
  requestDigest : Option String := none
  session : Json := .null
  existingOnly : Bool := false
  grant : Option GoalGrant := none
  operation : Option String := none
  semanticHash : Option String := none
  authorization : Option GoalCapsule := none
  requestText : Option String := none
  requestedScope : Json := .null
  admission : Option Admission := none
  carrierDigest : Option String := none
  consume : Bool := false
  record : Option DebtRecord := none
  pending : Bool := false

/-- What a call answers. -/
inductive Reply where
  | refused (detail : String)
  | issued (proof : Proof) (reused : Bool)
  | worker (pid : ℤ)
  | done
  | verdict (project requestDigest action : String)
  | source (project receipt requestDigest action : String)
  | goal (operation : String) (grant : GoalGrant)
  | campaign (authorization : CampaignCapsule) (admission : Admission) (carrierDigest : String)
  | debt (record : DebtRecord)
  | debtVerdict (operation scope : String) (committed : Bool)

/-- Whether a reply says `ok`. -/
def Reply.ok : Reply → Bool
  | .refused _ => false
  | _ => true

/-! ### Checks -/

/-- The facts of a chain above `below`, with their births: each was born no later than the one below
it, which names it as its parent. The walk ends at the first birth that cannot be read; a contradiction
voids it. -/
def chainFrom : Option (Fact × ℚ) → List Fact → Option (List (Fact × ℚ))
  | _, [] => some []
  | below, fact :: facts =>
      match fact.created with
      | none => some []
      | some born =>
          if below.any fun (child, childBorn) => childBorn < born || child.ppid != fact.pid then none
          else (chainFrom (some (fact, born)) facts).map ((fact, born) :: ·)

/-- `_chain`; `none` where the process table cannot be read. -/
def World.chain (w : World) (pid : ℤ) : Option (List (Fact × ℚ)) :=
  if pid ≤ 0 then some []
  else (w.ancestry pid).map fun facts =>
    if facts.head?.map Fact.pid = some pid then (chainFrom none facts).getD [] else []

/-- The record under a nonce. -/
def Origins.find (o : Origins) (nonce : Hex) : Option Event := o.records.lookup nonce.text

/-- The record of an event, written under its nonce. -/
def Origins.put (o : Origins) (e : Event) : Origins :=
  { o with records := Assoc.set e.proof.nonce.text e o.records }

/-- `_record`: the record of a proof that is not revoked and that the ledger verifies. -/
def Origins.record (o : Origins) (w : World) (proof : Option Proof) : Option Event :=
  proof.bind fun proof =>
    (o.find proof.nonce).filter fun known =>
      !known.revoked && known.proof == proof && w.provenance proof.toSealed == proof.provenance

/-- The nonce the first registered process of a chain is bound to. -/
def Origins.owner (o : Origins) (facts : List (Fact × ℚ)) : Option Hex :=
  facts.findSome? fun (fact, born) => o.workers (fact.pid, born)

/-- `_worker`. -/
def Origins.isWorker (o : Origins) (w : World) (peer : ℤ) (nonce : Hex) : Bool :=
  (w.chain peer).bind o.owner == some nonce

/-- `_goal_worker`, for the goal and the budget source that were reserved. -/
def Origins.isGoalWorker (o : Origins) (w : World) (peer : ℤ) (proof : Proof)
    (goalIngress authoritySource : String) : Bool :=
  o.isWorker w peer proof.nonce ||
    match ((w.chain peer).bind o.owner).bind o.find with
    | none => false
    | some current =>
        let event := current.proof
        (o.record w (some event)).isSome &&
          event.scope.project == proof.scope.project && event.scope.lineage == proof.scope.lineage &&
          event.scope.host == proof.scope.host && event.scope.session == proof.scope.session &&
          event.scope.model == proof.scope.model && event.scope.provider == proof.scope.provider &&
          event.hostPid == proof.hostPid && event.hostBirth == proof.hostBirth &&
          event.scope.goal == goalIngress && event.scope.budget == authoritySource

/-- The request inside the body of a Source. -/
def requestText (body : String) : Option String :=
  if Text.startsWith body "# User request\n" then
    let sep := "\n## Request\n".toList
    (body.toList.tails.find? fun cs => sep.isPrefixOf cs).map fun cs =>
      String.ofList (cs.drop sep.length)
  else some body

/-- `SRC-\d+`. -/
def isReceipt (s : String) : Bool :=
  Text.startsWith s "SRC-" && s.toList.drop 4 != [] && (s.toList.drop 4).all Text.isDecimal

/-- `E-[1-9]\d*`. -/
def isEventName (s : String) : Bool :=
  Text.startsWith s "E-" &&
    match s.toList.drop 2 with
    | c :: cs => ('1' ≤ c && c ≤ '9') && cs.all Text.isDecimal
    | [] => false

/-- `[0-9a-f]{n}`. -/
def isHexOf (n : ℕ) (s : String) : Bool := s.length == n && s.toList.all Text.isLowerHex

/-- `_source`; `none` where the Source cannot be read. -/
def World.source (w : World) (root : String) (receipt : Json) (proof : Proof) : Option Bool :=
  match receipt.str? with
  | none => some false
  | some receipt =>
      if isReceipt receipt then
        (w.readBody root receipt).map fun found =>
          match found with
          | none => false
          | some found =>
              found.witness == "operator_carrier" && found.origin == some proof &&
                found.comparedDigest == proof.requestDigest &&
                (requestText found.body).map w.ingressDigest == some proof.requestDigest
      else some false

/-- `_scope_matches`; `none` where the scope cannot be read. -/
def World.scopeMatches (w : World) (root : String) (proof : Proof) (boundRetirement : Bool) :
    Option Bool :=
  (w.context root).map fun current =>
    current.project == proof.scope.project && current.lineage == proof.scope.lineage &&
      (boundRetirement || current.task == proof.scope.task) && current.goal == proof.scope.goal &&
      (! ["continue", "resolve-gate", "retire"].contains proof.action ||
        current.budget == proof.scope.budget)

/-- Whether a reading of the clock is past an expiry. -/
def World.past (w : World) (reading : ℕ) (expires : Value) : Bool :=
  expires.lt (.finite (w.clock reading))

/-- The time between a moment and a reading of the clock. -/
def World.elapsed (w : World) (reading : ℕ) (since : ℚ) : ℚ := Binary64.round (w.clock reading - since)

/-- A text or its absence, as a payload has it. -/
def jsonText (value : Option String) : Json := value.elim .null .str

end Saipen.OperatorOrigin
