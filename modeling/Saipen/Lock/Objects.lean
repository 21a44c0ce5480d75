import Saipen.Lock.Registry
import Mathlib.Data.List.Basic

/-! # Lock objects

`FileWriterLock`, `WriterLock` and `ProducerLock` acquire and release in the same steps: reserve the
path, open the file, promote the reservation to the file's identity, take the operating-system lock,
and undo whatever was done when one of them fails. A lock object is its fields and the point its
thread has reached; `advance` is one step of one object, and `Step` lets the steps of all of them
interleave. Which file a path opens and whether the system grants a lock is decided by the events,
so aliases, replaced files and a lock that is re-entrant inside a process are all covered. -/

namespace Saipen.Lock

/-- What `fstat` identifies an open file by. -/
structure FileIdentity where
  dev : Nat
  ino : Nat
deriving DecidableEq

/-- The keys of a registry: `path:` and a normalised path, or `inode:` and an identity. -/
inductive Key where
  | path (normalised : String)
  | inode (file : FileIdentity)
deriving DecidableEq

/-- The three lock classes. Each keeps its holders in a dictionary of its own. -/
inductive LockClass where
  | file
  | writer
  | producer
deriving DecidableEq

/-- A registry is found by the process it lives in and the class it serves. -/
@[ext] structure Domain where
  process : Nat
  lockClass : LockClass
deriving DecidableEq

/-- The next statement of the thread that drives a lock object. -/
inductive Stage where
  /-- Outside `acquire` and `release`. -/
  | idle
  /-- `_open_owned_lock`, the path reserved. -/
  | opening
  /-- `_promote_reservation`. -/
  | promoting (file : FileIdentity)
  /-- `self._holder_key = inode_key`. -/
  | keying (file : FileIdentity)
  /-- `_os_lock`. -/
  | locking
  /-- `_write_holder_record`, for the project lock. -/
  | recording
  /-- `self._acquired = True`. -/
  | entering
  /-- The handler of a failed `acquire`: the handle, the path, the key, the field. -/
  | closingHandle
  | droppingPath
  | droppingKey
  | forgetting
  /-- `release`: the system's lock, the handle, the flag, the reservation, the field. -/
  | unlocking
  | closing
  | leaving
  | dropping
  | clearing
deriving DecidableEq

/-- A lock object. `osLocked` says whether its open handle carries the system's lock. -/
structure LockObject where
  domain : Domain
  path : String
  handle : Option FileIdentity := none
  osLocked : Bool := false
  acquired : Bool := false
  holderKey : Option Key := none
  stage : Stage := .idle
deriving DecidableEq

/-- What the platform decides for every lock: the spelling `os.path.normcase` gives a path, and
whether a process that locked a file is granted another lock of it. -/
structure Platform where
  normcase : String → String
  reentrant : Bool

/-- What happens at a step: a call, the file an open found, or how the statement ended. -/
inductive Event where
  | acquire
  | release
  | opened (file : FileIdentity)
  | done
  | fails
deriving DecidableEq

/-- All lock objects and the registries they share. -/
structure LockState (ω : Type) where
  objects : ω → LockObject
  registries : Domain → Registry Key ω

variable {ω : Type} [DecidableEq ω]

/-- The key `acquire` reserves first. -/
def LockObject.reservation (p : Platform) (l : LockObject) : Key := .path (p.normcase l.path)

/-- Object `o` becomes `l`, and the registry of its domain `registry`. -/
def LockState.put (s : LockState ω) (o : ω) (l : LockObject) (registry : Registry Key ω) :
    LockState ω where
  objects := Function.update s.objects o l
  registries := Function.update s.registries (s.objects o).domain registry

/-- The registry object `o` uses. -/
def LockState.registryOf (s : LockState ω) (o : ω) : Registry Key ω :=
  s.registries (s.objects o).domain

/-- One step of object `o`; `none` when the event does not belong to the statement it has reached. -/
def advance (p : Platform) (s : LockState ω) (o : ω) (e : Event) : Option (LockState ω) :=
  let l := s.objects o
  let registry := s.registryOf o
  match l.stage, e with
  | .idle, .acquire =>
      if l.acquired then some s
      else match registry.reserve (l.reservation p) o with
        | none => some s
        | some registry => some (s.put o { l with stage := .opening } registry)
  | .opening, .opened file =>
      some (s.put o { l with handle := some file, osLocked := false, stage := .promoting file } registry)
  | .opening, .fails => some (s.put o { l with stage := .closingHandle } registry)
  | .promoting file, .done =>
      match registry.promoteReservation (l.reservation p) (.inode file) o with
      | (true, registry) => some (s.put o { l with stage := .keying file } registry)
      | (false, registry) => some (s.put o { l with stage := .closingHandle } registry)
  | .keying file, .done =>
      some (s.put o { l with holderKey := some (.inode file), stage := .locking } registry)
  | .locking, .done =>
      -- only the project lock writes a record of its holder
      let next := if l.domain.lockClass = .writer then .recording else .entering
      some (s.put o { l with osLocked := true, stage := next } registry)
  | .locking, .fails => some (s.put o { l with stage := .closingHandle } registry)
  | .recording, .done => some (s.put o { l with stage := .entering } registry)
  | .recording, .fails => some (s.put o { l with stage := .closingHandle } registry)
  | .entering, .done => some (s.put o { l with acquired := true, stage := .idle } registry)
  | .closingHandle, .done =>
      some (s.put o { l with handle := none, osLocked := false, stage := .droppingPath } registry)
  | .droppingPath, .done =>
      some (s.put o { l with stage := .droppingKey }
        (registry.dropReservation (some (l.reservation p)) o))
  | .droppingKey, .done =>
      some (s.put o { l with stage := .forgetting } (registry.dropReservation l.holderKey o))
  | .forgetting, .done => some (s.put o { l with holderKey := none, stage := .idle } registry)
  | .idle, .release =>
      if l.acquired = true ∧ l.handle.isSome then some (s.put o { l with stage := .unlocking } registry)
      else some s
  | .unlocking, .done => some (s.put o { l with osLocked := false, stage := .closing } registry)
  -- an unlock that raises still runs the `finally` block
  | .unlocking, .fails => some (s.put o { l with stage := .closing } registry)
  | .closing, .done =>
      some (s.put o { l with handle := none, osLocked := false, stage := .leaving } registry)
  | .leaving, .done => some (s.put o { l with acquired := false, stage := .dropping } registry)
  | .dropping, .done =>
      some (s.put o { l with stage := .clearing } (registry.dropReservation l.holderKey o))
  | .clearing, .done => some (s.put o { l with holderKey := none, stage := .idle } registry)
  | _, _ => none

/-- The system grants a lock of a file when no other handle has it, and, where locks are re-entrant,
when every other handle that has it belongs to the same process. -/
def Grants (p : Platform) (s : LockState ω) (o : ω) : Prop :=
  ∀ other, other ≠ o → (s.objects other).osLocked = true →
    (s.objects other).handle = (s.objects o).handle →
      p.reentrant = true ∧ (s.objects other).domain.process = (s.objects o).domain.process

/-- One step of one object, as the system allows it. -/
def Step (p : Platform) (s : LockState ω) (o : ω) (e : Event) (s' : LockState ω) : Prop :=
  advance p s o e = some s' ∧ ((s.objects o).stage = .locking → e = .done → Grants p s o)

/-- The steps of one object, event by event. -/
inductive Runs (p : Platform) (o : ω) : LockState ω → List Event → LockState ω → Prop where
  | nil {s} : Runs p o s [] s
  | cons {s s' s'' e es} : Step p s o e s' → Runs p o s' es s'' → Runs p o s (e :: es) s''

/-- Nobody has called anything yet. -/
structure LockState.Initial (s : LockState ω) : Prop where
  fresh : ∀ o, s.objects o = { domain := (s.objects o).domain, path := (s.objects o).path }
  empty : ∀ d k, s.registries d k = none

/-- The states any interleaving of steps leads to. -/
inductive Reachable (p : Platform) : LockState ω → Prop where
  | start {s} : s.Initial → Reachable p s
  | step {s o e s'} : Reachable p s → Step p s o e s' → Reachable p s'

/-- An object holds a file from the return of `acquire` until `release` unlocks it. -/
def LockObject.Holds (l : LockObject) (file : FileIdentity) : Prop :=
  l.acquired = true ∧ l.handle = some file ∧ (l.stage = .idle ∨ l.stage = .unlocking)

instance (l : LockObject) (file : FileIdentity) : Decidable (l.Holds file) :=
  inferInstanceAs (Decidable (_ ∧ _ ∧ _))

end Saipen.Lock
