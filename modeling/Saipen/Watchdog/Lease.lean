import Saipen.Text
import Mathlib.Data.List.Basic
import Mathlib.Logic.Function.Basic

/-! # The worker lease

The lease file of a project and what each function of the watchdog does with it between its reads
and its write: `acquire_lease` writes a new generation, `heartbeat` refreshes the one it read,
`fence` closes it and keeps a record, `observe` reads its health off the clock. Moments are
microseconds; a moment written to the file is cut to seconds. -/

namespace Saipen.Watchdog

/-- The health states. -/
inductive Health where
  | healthy
  | suspect
  | expired
  | terminal
  | unknown
deriving DecidableEq, Repr

/-- What `_binding` proves about the run a lease is taken for. -/
structure RunBinding where
  projectRoot : String
  projectLineage : Option String
  runBinding : Option String
deriving DecidableEq, Repr

/-- The record `fence` keeps of a generation. -/
structure FencedRecord where
  workerId : String
  leaseGeneration : Nat
  binding : Option RunBinding
  fencedAt : Int
deriving DecidableEq, Repr

/-- The payload of the lease file. -/
structure Lease where
  workerId : String
  leaseGeneration : Nat
  heartbeatAt : Int
  status : Health := .healthy
  binding : Option RunBinding := none
  fencedAt : Option Int := none
  fencedGenerations : List FencedRecord := []
deriving DecidableEq, Repr

/-- What `_load` asks of a payload: a generation and a worker that is not blank. -/
def Lease.readable (l : Lease) : Bool := 1 ≤ l.leaseGeneration && Text.strip l.workerId != ""

/-- `_load`. -/
def load (file : Option Lease) : Option Lease := file.filter Lease.readable

/-- `_is_fenced`. -/
def Lease.isFenced (l : Lease) : Bool := l.status == .expired && l.fencedAt.isSome

/-- `_utc`: the second a moment lies in. -/
def utc (moment : Int) : Int := moment / 1000000

/-- `now or datetime.now()`. -/
def moment (now : Option Int) (clock : Int) : Int := now.getD clock

/-- The ages at which a heartbeat is late and at which it has timed out. -/
structure Thresholds where
  suspectAfter : Int := 30000000
  expireAfter : Int := 120000000
deriving DecidableEq, Repr

/-- `WatchdogStatus`. -/
structure WatchdogStatus where
  state : Health
  workerId : Option String := none
  leaseGeneration : Option Nat := none
  heartbeatAt : Option Int := none
  age : Option Int := none
  reason : String
deriving DecidableEq, Repr

/-- `observe`. -/
def observe (file : Option Lease) (now : Int) (limits : Thresholds := {}) : WatchdogStatus :=
  match load file with
  | none => { state := .unknown, reason := "missing_or_corrupt_runtime_state" }
  | some current =>
      let age := max 0 (now - current.heartbeatAt * 1000000)
      let verdict : Health × String :=
        if current.status = .terminal then (.terminal, "worker_terminal")
        else if current.isFenced then (.expired, "fenced")
        else if limits.expireAfter ≤ age then (.expired, "heartbeat_timeout")
        else if limits.suspectAfter ≤ age then (.suspect, "heartbeat_late")
        else (.healthy, "heartbeat_current")
      { state := verdict.1
        workerId := some current.workerId
        leaseGeneration := some current.leaseGeneration
        heartbeatAt := some current.heartbeatAt
        age := some age
        reason := verdict.2 }

/-- Whether a status is of a lease that is not to be stolen. -/
def WatchdogStatus.live (status : WatchdogStatus) : Bool :=
  status.state == .healthy || status.state == .suspect

/-- The payload `acquire_lease` writes after it has loaded `current`. -/
def acquired (current : Option Lease) (workerId : String) (binding : Option RunBinding)
    (now : Int) : Lease where
  workerId := workerId
  leaseGeneration := match current with
    | some current => current.leaseGeneration + 1
    | none => 1
  heartbeatAt := utc now
  status := .healthy
  binding := binding
  fencedGenerations := (current.map Lease.fencedGenerations).getD []

/-- Whether a lease is the one a caller of `heartbeat` or `fence` names. -/
def Lease.named (l : Lease) (workerId : String) (leaseGeneration : Nat) : Bool :=
  l.workerId == workerId && l.leaseGeneration == leaseGeneration

/-- The payload `heartbeat` writes. -/
def Lease.beat (l : Lease) (now : Int) : Lease := { l with heartbeatAt := utc now, status := .healthy }

/-- The record `fence` keeps of a lease. -/
def Lease.record (l : Lease) (fencedAt : Int) : FencedRecord where
  workerId := l.workerId
  leaseGeneration := l.leaseGeneration
  binding := l.binding
  fencedAt := fencedAt

/-- The payload `fence` writes. -/
def Lease.fenced (l : Lease) (now : Int) : Lease :=
  let fencedAt := l.fencedAt.getD (utc now)
  { l with
    status := .expired
    fencedAt := some fencedAt
    fencedGenerations :=
      if l.fencedGenerations.any (·.leaseGeneration == l.leaseGeneration) then l.fencedGenerations
      else l.fencedGenerations ++ [l.record fencedAt] }

/-- The answer of `mutation_allowed` from its two reads. -/
def admits (current : Option Lease) (status : WatchdogStatus) (workerId : String)
    (leaseGeneration : Nat) : Bool :=
  match current with
  | none => false
  | some current => status.state == .healthy && current.named workerId leaseGeneration

/-! ### What a payload keeps -/

section Payload

variable {l : Lease} {now : Int}

theorem load_eq_some_iff {file : Option Lease} :
    load file = some l ↔ file = some l ∧ l.readable = true := by
  simp [load, Option.filter_eq_some_iff]

@[simp] theorem beat_leaseGeneration : (l.beat now).leaseGeneration = l.leaseGeneration := rfl

@[simp] theorem beat_fencedGenerations :
    (l.beat now).fencedGenerations = l.fencedGenerations := rfl

/-- A heartbeat leaves no lease fenced. -/
@[simp] theorem beat_isFenced : (l.beat now).isFenced = false := rfl

@[simp] theorem fenced_leaseGeneration : (l.fenced now).leaseGeneration = l.leaseGeneration := rfl

@[simp] theorem fenced_isFenced : (l.fenced now).isFenced = true := rfl

/-- The records of a fenced lease are its own and the one `fence` added. -/
theorem mem_fenced {r : FencedRecord} (h : r ∈ (l.fenced now).fencedGenerations) :
    r ∈ l.fencedGenerations ∨ r.leaseGeneration = l.leaseGeneration := by
  rw [Lease.fenced] at h
  split at h
  · exact .inl h
  · rcases List.mem_append.mp h with h | h
    · exact .inl h
    · obtain rfl := List.mem_singleton.mp h
      exact .inr rfl

/-- `fence` drops no record. -/
theorem subset_fenced : l.fencedGenerations ⊆ (l.fenced now).fencedGenerations := by
  intro r hr
  rw [Lease.fenced]
  split
  · exact hr
  · exact List.mem_append_left _ hr

/-- A fenced lease has a record of its own generation. -/
theorem fenced_recorded :
    ∃ r ∈ (l.fenced now).fencedGenerations, r.leaseGeneration = l.leaseGeneration := by
  rw [Lease.fenced]
  split
  · next hany =>
    obtain ⟨r, hr, hgeneration⟩ := List.any_eq_true.mp hany
    exact ⟨r, hr, beq_iff_eq.mp hgeneration⟩
  · exact ⟨_, List.mem_append_right _ (List.mem_singleton_self _), rfl⟩

@[simp] theorem acquired_isFenced {current : Option Lease} {workerId : String}
    {binding : Option RunBinding} : (acquired current workerId binding now).isFenced = false := rfl

/-- A lease that is observed healthy can be loaded and is not fenced. -/
theorem observe_healthy {file : Option Lease} {limits : Thresholds}
    (h : (observe file now limits).state = .healthy) :
    ∃ l, file = some l ∧ l.isFenced = false := by
  cases hload : load file with
  | none => simp [observe, hload] at h
  | some l =>
    refine ⟨l, (load_eq_some_iff.mp hload).1, ?_⟩
    by_contra hfenced
    have hfenced : l.isFenced = true := by simpa using hfenced
    have hexpired : l.status ≠ .terminal := by
      intro hterminal
      simp [Lease.isFenced, hterminal] at hfenced
    simp [observe, hload, hfenced, hexpired] at h

end Payload

end Saipen.Watchdog
