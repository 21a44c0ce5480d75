import Saipen.Watchdog.Lease

/-! # Workers and supervisors of one project

Every call reads the lease file and later writes it, and other calls may run in between.
`acquire_lease` and `fence` hold the project mutex from before their first read until after their
write; `heartbeat`, `observe` and `mutation_allowed` do not. A process is the statement its call has
reached, and `advance` is one access of one process. -/

namespace Saipen.Watchdog

/-- The functions a process may call. `run_slice` is `mutation_allowed` and then `heartbeat`;
`replace_worker` is `observe`, then `fence`, then `acquire_lease`. -/
inductive Call where
  | acquireLease (workerId runId : String)
  | heartbeat (workerId : String) (leaseGeneration : Nat)
  | fence (workerId : String) (leaseGeneration : Nat)
  | replaceWorker (newWorkerId runId : String) (limits : Thresholds)
  | mutationAllowed (workerId : String) (leaseGeneration : Nat)
  | runSlice (workerId : String) (leaseGeneration : Nat)
deriving DecidableEq

/-- Who a lease is acquired for, and in which run. -/
structure Successor where
  workerId : String
  runId : String
deriving DecidableEq

/-- The next access of a process. -/
inductive Stage where
  /-- No call is running. -/
  | idle
  /-- `acquire_lease`: the mutex, `_load`, the `_load` of `observe`, `_save`. -/
  | acquiring (next : Successor)
  | loading (next : Successor)
  | checking (next : Successor) (current : Lease)
  | saving (next : Successor) (current : Option Lease)
  /-- `fence`: the mutex, `_load`, `_save`; `next` is acquired when the call is `replace_worker`. -/
  | fencing (workerId : String) (leaseGeneration : Nat) (next : Option Successor)
  | fenceLoading (workerId : String) (leaseGeneration : Nat) (next : Option Successor)
  | fenceSaving (current : Lease) (next : Option Successor)
  /-- The mutex is given up. -/
  | releasing (next : Option Successor)
  /-- `heartbeat`: `_load`, `_save`. -/
  | beating (workerId : String) (leaseGeneration : Nat)
  | beatSaving (current : Lease)
  /-- `replace_worker`: its own `observe`. -/
  | replacing (next : Successor) (limits : Thresholds)
  /-- `mutation_allowed`: `_load`, the `_load` of `observe`; `slice` when `run_slice` called it. -/
  | admitting (workerId : String) (leaseGeneration : Nat) (slice : Bool)
  | observing (workerId : String) (leaseGeneration : Nat) (slice : Bool) (current : Option Lease)
deriving DecidableEq

/-- A process: its next access and the `now` its call was given. -/
structure Process where
  stage : Stage := .idle
  now : Option Int := none
deriving DecidableEq

/-- The lease file, the holder of the project mutex, the processes. -/
structure Project (π : Type) where
  file : Option Lease
  writer : Option π
  processes : π → Process

/-- What a process does next: a call, the next access of its call at a reading of the clock, or the
end of the call by an error or by the death of the process. -/
inductive Event where
  | call (call : Call) (now : Option Int)
  | step (clock : Int)
  | abort
deriving DecidableEq

/-- What a call answers. -/
inductive Outcome where
  | lease (payload : Lease)
  | allowed (answer : Bool)
  | refused (code : String)
deriving DecidableEq

/-- The first access of a call. -/
def Call.start : Call → Stage
  | .acquireLease workerId runId => .acquiring ⟨workerId, runId⟩
  | .heartbeat workerId leaseGeneration => .beating workerId leaseGeneration
  | .fence workerId leaseGeneration => .fencing workerId leaseGeneration none
  | .replaceWorker newWorkerId runId limits => .replacing ⟨newWorkerId, runId⟩ limits
  | .mutationAllowed workerId leaseGeneration => .admitting workerId leaseGeneration false
  | .runSlice workerId leaseGeneration => .admitting workerId leaseGeneration true

variable {π : Type} [DecidableEq π]

/-- Process `p` moves on to `stage`. -/
def Project.at (s : Project π) (p : π) (stage : Stage) : Project π where
  file := s.file
  writer := s.writer
  processes := Function.update s.processes p { s.processes p with stage := stage }

/-- `_save`. -/
def Project.save (s : Project π) (payload : Lease) : Project π := { s with file := some payload }

/-- The mutex changes hands. -/
def Project.hold (s : Project π) (writer : Option π) : Project π := { s with writer := writer }

/-- The stage after the mutex was given up. -/
def afterRelease : Option Successor → Stage
  | some next => .acquiring next
  | none => .idle

/-- One access of process `p`; `none` where the mutex is not free or no such event belongs to the
stage. `binding` is `_binding` for the project. -/
def advance (binding : String → RunBinding) (s : Project π) (p : π) (e : Event) :
    Option (Project π × Option Outcome) :=
  let now := (s.processes p).now
  match (s.processes p).stage, e with
  | .idle, .call call now =>
      some ({ s with
        processes := Function.update s.processes p { stage := call.start, now := now } }, none)
  | .idle, _ => none
  | _, .call _ _ => none
  -- the system frees the mutex of a process that died, `finally` that of a call that raised
  | _, .abort => some ((s.hold (if s.writer = some p then none else s.writer)).at p .idle, none)
  | .acquiring next, .step _ =>
      if s.writer = none then some ((s.hold (some p)).at p (.loading next), none) else none
  | .loading next, .step _ =>
      match load s.file with
      | some current => some (s.at p (.checking next current), none)
      | none => some (s.at p (.saving next none), none)
  | .checking next current, .step clock =>
      if (observe s.file (moment now clock)).live then
        some (s.at p (.releasing none), some (.refused "LIVE_LEASE_PRESENT"))
      else some (s.at p (.saving next (some current)), none)
  | .saving next current, .step clock =>
      let payload := acquired current next.workerId
        (if next.runId = "" then none else some (binding next.runId)) (moment now clock)
      some ((s.save payload).at p (.releasing none), some (.lease payload))
  | .fencing workerId leaseGeneration next, .step _ =>
      if s.writer = none then
        some ((s.hold (some p)).at p (.fenceLoading workerId leaseGeneration next), none)
      else none
  | .fenceLoading workerId leaseGeneration next, .step _ =>
      match load s.file with
      | none => some (s.at p (.releasing none), some (.refused "UNKNOWN_LEASE"))
      | some current =>
          if current.named workerId leaseGeneration then
            some (s.at p (.fenceSaving current next), none)
          else some (s.at p (.releasing none), some (.refused "FENCED_LEASE_GENERATION"))
  | .fenceSaving current next, .step clock =>
      let payload := current.fenced (moment now clock)
      some ((s.save payload).at p (.releasing next), some (.lease payload))
  | .releasing next, .step _ => some ((s.hold none).at p (afterRelease next), none)
  | .beating workerId leaseGeneration, .step _ =>
      match load s.file with
      | none => some (s.at p .idle, some (.refused "UNKNOWN_LEASE"))
      | some current =>
          if current.named workerId leaseGeneration && !current.isFenced then
            some (s.at p (.beatSaving current), none)
          else some (s.at p .idle, some (.refused "FENCED_LEASE_GENERATION"))
  | .beatSaving current, .step clock =>
      let payload := current.beat (moment now clock)
      some ((s.save payload).at p .idle, some (.lease payload))
  | .replacing next limits, .step clock =>
      let status := observe s.file (moment now clock) limits
      match status.workerId, status.leaseGeneration with
      | some workerId, some leaseGeneration =>
          if status.live then some (s.at p .idle, some (.refused "LIVE_LEASE_PRESENT"))
          else
            -- `fence` and `acquire_lease` are given the moment of this reading
            some ({ s with
              processes := Function.update s.processes p
                { stage := .fencing workerId leaseGeneration (some next)
                  now := some (moment now clock) } }, none)
      | _, _ => some (s.at p .idle, some (.refused "AMBIGUOUS_AUTHORITY"))
  | .admitting workerId leaseGeneration slice, .step _ =>
      some (s.at p (.observing workerId leaseGeneration slice (load s.file)), none)
  | .observing workerId leaseGeneration slice current, .step clock =>
      let answer := admits current (observe s.file (moment now clock)) workerId leaseGeneration
      let next := if slice && answer then .beating workerId leaseGeneration else .idle
      some (s.at p next, some (.allowed answer))

/-- One access of one process. -/
def Step (binding : String → RunBinding) (s : Project π) (p : π) (e : Event) (s' : Project π)
    (outcome : Option Outcome) : Prop := advance binding s p e = some (s', outcome)

/-- No lease was ever taken and no call is running. -/
structure Project.Initial (s : Project π) : Prop where
  file : s.file = none
  writer : s.writer = none
  idle : ∀ p, (s.processes p).stage = .idle

/-- The generation in the lease file; 0 without one. -/
def Project.generation (s : Project π) : Nat := (s.file.map Lease.leaseGeneration).getD 0

/-- The records in the lease file. -/
def Project.records (s : Project π) : List FencedRecord :=
  (s.file.map Lease.fencedGenerations).getD []

end Saipen.Watchdog
