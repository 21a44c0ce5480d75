import Saipen.Assoc
import Saipen.HostAuthority.Verification

/-! # Admission

`Broker._admission`: the ledger of a project keeps one record for each session. A record that this
broker can prove and that is not stale is answered with the capability it was written with; otherwise
a capability is minted and a record written. `staleness` compares what was proven and the host, and
the labels of model and provider only where both sides have one. -/

namespace Saipen.HostAuthority

open Binary64

/-- The body of a ledger record. -/
structure RecordBody where
  schema : ℤ := 1
  session : String
  host : String
  model : Option String
  provider : Option String
  proofs : List (String × String)
  binding : Binding
  issued : ℚ
  expires : ℚ
  capability : String
  generation : String
  adapter : String
  authority : String
deriving DecidableEq

/-- A ledger record: its body and its provenance. -/
structure Record where
  body : RecordBody
  kid : String
  alg : String
  mac : String
deriving DecidableEq

/-- The scope of a request, each part as the payload has it. -/
structure Payload where
  project : Option String := none
  session : Option String := none
  host : Option String := none
  model : Option String := none
  provider : Option String := none
  profile : Option String := none
  fresh : Bool := false
  capability : Option String := none
deriving DecidableEq

/-- `_scope`: what a request is about once it has been read. -/
structure Scope where
  root : String
  session : String
  host : String
  model : Option String
  provider : Option String
  profile : Option String
deriving DecidableEq

/-- What the broker asks the system and the digests it takes. -/
structure World where
  resolve : String → Option String
  isProject : String → Bool
  normcase : String → String
  normPath : String → String
  fingerprint : String → String
  ledgerName : String → String
  generation : List (String × String) → String
  adapter : String → String
  authorityDigest : List (String × String) → String
  provenance : RecordBody → Hex

/-- What `_components` finds at a request. -/
structure Components where
  problems : List String := []
  proofs : List (String × String) := []
deriving DecidableEq

/-- A broker: its authority and the ledger files, by project root and name of the session. -/
structure Broker where
  authority : Authority
  ledger : String × String → Option Record := fun _ => none

/-- The state of a session before the handshake. -/
inductive AdmissionState where
  | binding
  | admitted
  | stale
deriving DecidableEq

/-- What `_admission` answers when it admits. -/
structure Admitted where
  capability : String
  previousState : AdmissionState
  stale : List String
  recordWritten : Bool
deriving DecidableEq

/-- What a request is answered. -/
inductive Reply where
  | admitted (answer : Admitted)
  | refused (code detail : String)
  | problems (problems : List String)
  | verdict (verdict : Except Raised Verdict)
  | done
  | raised

/-- `str(label or "")`. -/
def label (value : Option String) : String := value.getD ""

/-- `binding`. -/
def World.binding (w : World) (scope : Scope) : Binding where
  project := w.fingerprint (w.normcase scope.root)
  session := w.fingerprint scope.session
  host := scope.host
  model := label scope.model
  provider := label scope.provider

/-- `_scope`. -/
def World.scope (w : World) (payload : Payload) : Except (String × String) Scope :=
  let refuse (detail : String) : Except (String × String) Scope :=
    .error ("BROKER_BAD_REQUEST", detail)
  let session := label payload.session
  let host := label payload.host
  let project := label payload.project
  if session = "" then refuse "session is required"
  else if host = "" then refuse "host is required"
  else if project = "" then refuse "project is required"
  else match w.resolve project with
    | none => refuse "project path is unreadable"
    | some root =>
      if w.isProject root then
        .ok { root := root
              session := session
              host := host
              model := payload.model
              provider := payload.provider
              profile := payload.profile }
      else refuse ("not a bound SAIPEN project: " ++ root)

/-- The file of a session's record. -/
def World.ledgerPath (w : World) (root session : String) : String × String :=
  (root, w.ledgerName session)

/-- `Ledger.read`. -/
def Broker.readRecord (w : World) (b : Broker) (scope : Scope) : Option Record :=
  (b.ledger (w.ledgerPath scope.root scope.session)).filter fun record =>
    record.body.schema == 1 && record.body.session == scope.session

/-- `Ledger.verify`. -/
def Broker.proves (w : World) (b : Broker) (record : Record) : Bool :=
  record.kid == b.authority.instanceId && record.alg == "hmac-sha256" &&
    record.mac == (w.provenance record.body).text

/-- A label that both sides have and that differs. -/
def labelChanged (before now : Option String) : Bool :=
  label before != "" && label now != "" && before != now

/-- `staleness`. -/
def staleness (record : RecordBody) (scope : Scope) (proofs : List (String × String)) :
    List String :=
  let names := ((proofs ++ record.proofs).map (·.1)).dedup.mergeSort (· ≤ ·)
  let changed := names.filter fun name => record.proofs.lookup name != proofs.lookup name
  let changed := if labelChanged record.model scope.model then changed ++ ["model"] else changed
  let changed :=
    if labelChanged record.provider scope.provider then changed ++ ["provider"] else changed
  if record.host != scope.host then changed ++ ["host-identity"] else changed

/-- The record `_admission` looks at, when this broker can prove it. -/
def Broker.proven (w : World) (b : Broker) (scope : Scope) : Option Record :=
  (b.readRecord w scope).filter (b.proves w)

/-- The scope with the profile the host was observed to use. -/
def World.withProfile (w : World) (scope : Scope) (proven : Option String) :
    Except (String × String) Scope :=
  if label proven = "" then .ok scope
  else if label scope.profile ≠ "" ∧ w.normPath (label scope.profile) ≠ w.normPath (label proven) then
    .error ("BROKER_BINDING_MISMATCH",
      "requested profile differs from the host's observed profile")
  else .ok { scope with profile := proven }

/-- What a request is about, as `_admission` reads it. -/
def World.read (w : World) (payload : Payload) (profile : Option String) :
    Except (String × String) Scope :=
  (w.scope payload).bind fun scope => w.withProfile scope profile

/-- The record `_admission` writes with a new capability, sealed by the broker. -/
def World.record (w : World) (instanceId : String) (scope : Scope) (proofs : List (String × String))
    (minted : Minted) : Record :=
  let body : RecordBody :=
    { session := scope.session
      host := scope.host
      model := scope.model
      provider := scope.provider
      proofs := proofs
      binding := w.binding scope
      issued := minted.fields.issued
      expires := minted.fields.expires
      capability := minted.capability
      generation := w.generation proofs
      adapter := w.adapter scope.host
      authority := w.authorityDigest proofs }
  { body := body, kid := instanceId, alg := "hmac-sha256", mac := (w.provenance body).text }

/-- `_admission` with a new capability: it is minted, sealed and written. -/
def Broker.handshake (w : World) (b : Broker) (scope : Scope) (found : Components) (now : ℚ)
    (capabilityId : Hex) (written : Bool) (state : AdmissionState) (stale : List String) :
    Reply × Broker × Option Minted :=
  match b.authority.mint (w.binding scope) (w.generation found.proofs) (w.adapter scope.host)
      (w.authorityDigest found.proofs) now capabilityId with
  | none => (.raised, b, none)
  | some (authority', minted) =>
      (.admitted ⟨minted.capability, state, stale, written⟩,
        { authority := authority'
          ledger :=
            if written then
              Function.update b.ledger (w.ledgerPath scope.root scope.session)
                (some (w.record b.authority.instanceId scope found.proofs minted))
            else b.ledger },
        some minted)

/-- `_admission` of a scope whose components have no problem. -/
def Broker.settle (w : World) (b : Broker) (scope : Scope) (found : Components) (now : ℚ)
    (capabilityId : Hex) (written : Bool) : Reply × Broker × Option Minted :=
  match b.proven w scope with
  | some record =>
      let stale := staleness record.body scope found.proofs
      if stale = [] then (.admitted ⟨record.body.capability, .admitted, [], false⟩, b, none)
      else b.handshake w scope found now capabilityId written .stale stale
  | none => b.handshake w scope found now capabilityId written .binding []

/-- `Ledger.remove`, which may fail. -/
def Broker.remove (w : World) (b : Broker) (scope : Scope) (removed : Bool) : Broker :=
  if removed then
    { b with ledger := Function.update b.ledger (w.ledgerPath scope.root scope.session) none }
  else b

/-- The broker `_admission` decides with: a fresh context drops the record first. -/
def Broker.renewed (w : World) (b : Broker) (payload : Payload) (scope : Scope) (removed : Bool) :
    Broker := if payload.fresh then b.remove w scope removed else b

/-- `_admission`, for a client whose observed profile is `profile`. -/
def Broker.admission (w : World) (b : Broker) (payload : Payload) (profile : Option String)
    (found : Components) (now : ℚ) (capabilityId : Hex) (removed written : Bool) :
    Reply × Broker × Option Minted :=
  match w.read payload profile with
  | .error (code, detail) => (.refused code detail, b, none)
  | .ok scope =>
      let b := b.renewed w payload scope removed
      if found.problems ≠ [] then (.problems found.problems, b, none)
      else b.settle w scope found now capabilityId written

/-- `_invalidate`. -/
def Broker.invalidate (w : World) (b : Broker) (payload : Payload) (removed : Bool) : Reply × Broker :=
  match w.scope payload with
  | .error (code, detail) => (.refused code detail, b)
  | .ok scope => (.done, b.remove w scope removed)

/-- `_authorize`. -/
def Broker.authorize (w : World) (b : Broker) (payload : Payload) (now now' : ℚ) : Reply :=
  match w.scope payload with
  | .error (code, detail) => .refused code detail
  | .ok scope =>
      if label payload.capability = "" then .done
      else .verdict (b.authority.verify payload.capability (w.binding scope) now now')

end Saipen.HostAuthority
