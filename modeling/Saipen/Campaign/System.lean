import Mathlib.Logic.Function.Basic
import Saipen.Run
import Saipen.Campaign.Controller

/-! # Campaigns under many controllers

Any number of controllers share one project. What a controller does under the campaign lock is one
step: an admission, a cancellation, `step` as far as it holds the lock, the commit of an outcome. In
between its worker runs, which may end, fail to leave an outcome, or be left behind by its controller,
and the steps of the others fall in any order around it. Nobody but the controller that started a
worker writes its outcome file, and nobody but a controller saves a record; either may be damaged from
outside.

The state carries three histories no controller reads: the admissions, the starts, and what each
worker returned. -/

namespace Saipen.Campaign

open Function

/-- Where a started worker is. -/
inductive Phase where
  /-- It runs, and its controller waits for it. -/
  | attended
  /-- It runs, and its controller is gone. -/
  | orphaned
  /-- It is back, and its outcome is not committed. -/
  | returned
deriving DecidableEq

/-- A worker that was started, the number of the admission it was started under, and its attempt. -/
structure Worker where
  admission : ℕ
  binding : Binding
  phase : Phase
deriving DecidableEq

/-- The worker still runs. -/
def Worker.runs (w : Worker) : Bool := w.phase = .attended || w.phase = .orphaned

/-- The start of a worker generation. -/
structure Start where
  admission : ℕ
  binding : Binding
deriving DecidableEq

/-- A project under its controllers. -/
structure System where
  file : StateFile
  /-- `.saipen/campaign/attempts/`, by attempt. -/
  outcomes : String → OutcomeFile
  /-- `.saipen/campaign/history/`, by digest. -/
  history : String → Option CampaignState
  /-- The workers that were started and are not done with, by attempt. -/
  workers : String → Option Worker
  /-- The records as they were admitted. -/
  admitted : List CampaignState
  started : List Start
  /-- What the worker of an attempt returned, with the error its controller noted. -/
  returned : String → Option (Json × Option String)

namespace System

/-- Nothing was ever admitted here. -/
def initial : System where
  file := .absent
  outcomes _ := .missing
  history _ := none
  workers _ := none
  admitted := []
  started := []
  returned _ := none

/-- `save_campaign_state`, where there is something to save. -/
def save (σ : System) (s : Option CampaignState) : System := { σ with file := (s.map .saved).getD σ.file }

/-- Archive a record, where there is one to archive. -/
def archive (σ : System) : Option (String × CampaignState) → System
  | none => σ
  | some (digest, s) => { σ with history := update σ.history digest (some s) }

/-- Note an admission. -/
def enter (σ : System) : Option CampaignState → System
  | none => σ
  | some s => { σ with file := .saved s, admitted := σ.admitted ++ [s] }

/-- Claim an attempt and start its worker. -/
def start (σ : System) (s : CampaignState) (a : Attempt) : System :=
  { σ with
    file := .saved s
    workers := update σ.workers a.binding.attemptId
      (some ⟨σ.admitted.length - 1, a.binding, .attended⟩)
    started := σ.started ++ [⟨σ.admitted.length - 1, a.binding⟩] }

/-- The worker of an attempt is back with a result. -/
def comeBack (σ : System) (id : String) (result : Json) (error : Option String) (w : Option Worker) : System :=
  { σ with workers := update σ.workers id w, returned := update σ.returned id (some (result, error)) }

/-- Write an outcome file, unless there is one. -/
def writeOutcome (σ : System) (o : Outcome) : System :=
  { σ with outcomes := update σ.outcomes o.binding.attemptId (.kept o) }

/-- A worker moves on, or is gone. -/
def setWorker (σ : System) (id : String) (w : Option Worker) : System :=
  { σ with workers := update σ.workers id w }

/-- The starts under an admission. -/
def startsOf (σ : System) (k : ℕ) : List Start := σ.started.filter (·.admission = k)

end System

/-- One step of the project. -/
inductive Step (digest : CampaignState → String) : System → System → Prop
  | admission (σ : System) (c : AdmitCall) :
      Step digest σ
        ((σ.archive (admitCampaign digest σ.history σ.file c).archived).enter
          (admitCampaign digest σ.history σ.file c).saved)
  /-- The controller is interrupted between the archive and the new record. -/
  | cutShort (σ : System) (c : AdmitCall) :
      Step digest σ (σ.archive (admitCampaign digest σ.history σ.file c).archived)
  | cancel (σ : System) (reason : String) : Step digest σ (σ.save (cancel σ.file reason).1)
  | reply (σ : System) (ask : Answers) {saved : Option CampaignState} {reply : Reply}
      (h : step ask σ.outcomes σ.file = .replied saved reply) : Step digest σ (σ.save saved)
  /-- A worker is started under an identity nobody had. -/
  | start (σ : System) (ask : Answers) {saved : CampaignState} {attempt : Attempt}
      (h : step ask σ.outcomes σ.file = .started saved attempt)
      (hfresh : ∀ e ∈ σ.started, e.binding.attemptId ≠ ask.attemptId) :
      Step digest σ (σ.start saved attempt)
  /-- The worker is back and its controller leaves the outcome. -/
  | finish (σ : System) {w : Worker} (hw : σ.workers w.binding.attemptId = some w)
      (hphase : w.phase = .attended) (o : Outcome) (hbinding : o.binding = w.binding)
      (hmissing : σ.outcomes w.binding.attemptId = .missing) :
      Step digest σ ((σ.comeBack w.binding.attemptId o.result o.error
        (some { w with phase := .returned })).writeOutcome o)
  /-- The worker is back and its controller cannot leave the outcome. -/
  | unheard (σ : System) {w : Worker} (hw : σ.workers w.binding.attemptId = some w)
      (hphase : w.phase = .attended) (result : Json) (error : Option String) :
      Step digest σ (σ.comeBack w.binding.attemptId result error none)
  | commit (σ : System) {w : Worker} (hw : σ.workers w.binding.attemptId = some w)
      (hphase : w.phase = .returned) (grant : String → GrantAnswer) (now : ℤ) {s : CampaignState}
      (hs : inspectCampaignState σ.file = .valid s) :
      Step digest σ ((σ.save (commitWorkerOutcome grant now σ.outcomes s w.binding).1).setWorker
        w.binding.attemptId none)
  /-- The controller dies, or finds the lock taken or the record unreadable after its worker. -/
  | abandon (σ : System) {w : Worker} (hw : σ.workers w.binding.attemptId = some w) :
      Step digest σ (σ.setWorker w.binding.attemptId
        (if w.phase = .attended then some { w with phase := .orphaned } else none))
  | damageRecord (σ : System) (status : String) : Step digest σ { σ with file := .damaged status }
  | damageOutcome (σ : System) (id : String) :
      Step digest σ { σ with outcomes := update σ.outcomes id .damaged }

/-- The systems a project comes to. -/
abbrev Reachable (digest : CampaignState → String) (σ : System) : Prop :=
  Run.Runs (Step digest) System.initial σ

end Saipen.Campaign
