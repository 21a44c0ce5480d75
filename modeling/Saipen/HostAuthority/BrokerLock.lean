import Mathlib.Logic.Function.Basic
import Mathlib.Logic.Relation
import Mathlib.Tactic.SplitIfs
import Mathlib.Tactic.ByContra

/-! # The singleton lock of the broker

`acquire_lock` creates the lock file exclusively and then writes its pid into it; `release_lock` unlinks
whatever is at the path. Between any two of their file steps the steps of other processes may come. The lock
excludes as long as no unlink meets the file of another process that is about to write or holds the lock. -/

namespace Saipen.BrokerLock

/-! ### Files and processes -/

/-- `broker.lock`. -/
structure LockFile where
  /-- The process that created the file. Nothing reads it. -/
  creator : Nat
  /-- The pid a reader finds in the file, 0 when it finds none. -/
  pid : Nat
deriving DecidableEq

/-- Where a process is. In the loop of `acquire_lock` it has so many attempts behind the one it is at. -/
inductive Point where
  | outside
  | creating (left : Nat)
  | reading (left : Nat)
  | checking (pid left : Nat)
  | unlinking (left : Nat)
  | writing
  | holding
  | gone
deriving DecidableEq

/-- The lock file and the processes, by their pids. -/
structure State where
  file : Option LockFile
  point : Nat → Point

/-- A step of a process. A flag says whether the system call of the step works. -/
inductive Action where
  | begin
  | create (ok : Bool)
  | read (ok : Bool)
  | check
  | unlink (ok : Bool)
  | write (ok : Bool)
  | release (ok : Bool)
  | retire (ok : Bool)
  | exit
  | start
deriving DecidableEq

/-- `_pid_alive`. -/
def State.pidAlive (s : State) (pid : Nat) : Bool := s.point pid ≠ .gone

/-- A process goes on to another point. -/
def State.goTo (s : State) (p : Nat) (point : Point) : State := { s with point := Function.update s.point p point }

@[simp] theorem State.goTo_file (s : State) (p : Nat) (point : Point) : (s.goTo p point).file = s.file := rfl

@[simp] theorem State.goTo_self (s : State) (p : Nat) (point : Point) : (s.goTo p point).point p = point :=
  Function.update_self ..

theorem State.goTo_of_ne (s : State) {p q : Nat} (point : Point) (hne : q ≠ p) :
    (s.goTo p point).point q = s.point q :=
  Function.update_of_ne hne ..

/-- `path.unlink()` with its errors suppressed. -/
def State.unlink (s : State) (ok : Bool) : State := if ok then { s with file := none } else s

/-- The record reaches the file that the process created, which may be at the path no longer. -/
def State.record (s : State) (p : Nat) : State :=
  { s with file := s.file.map fun f => if f.creator = p then { f with pid := p } else f }

/-- One step of a process in `acquire_lock`, in `release_lock`, or outside of both. -/
def step (s : State) (p : Nat) : Action → Option State
  | .begin => if s.point p = .outside then some (s.goTo p (.creating 1)) else none
  | .create ok =>
      match s.point p with
      | .creating left =>
          if ok = false then some (s.goTo p .outside)
          else
            match s.file with
            | some _ => some (s.goTo p (.reading left))
            | none => some ({ s with file := some ⟨p, 0⟩ }.goTo p .writing)
      | _ => none
  | .read ok =>
      match s.point p with
      | .reading left =>
          let pid := if ok then (s.file.map (·.pid)).getD 0 else 0
          some (s.goTo p (.checking pid left))
      | _ => none
  | .check =>
      match s.point p with
      | .checking pid left =>
          if pid ≠ 0 ∧ s.pidAlive pid = true then some (s.goTo p .outside) else some (s.goTo p (.unlinking left))
      | _ => none
  | .unlink ok =>
      match s.point p with
      | .unlinking left =>
          -- the second attempt is the last one
          some ((s.unlink ok).goTo p (match left with | 0 => .outside | left + 1 => .creating left))
      | _ => none
  | .write ok =>
      if s.point p = .writing then
        if ok then some ((s.record p).goTo p .holding) else some (s.goTo p .outside)
      else none
  | .release ok => if s.point p = .holding then some ((s.unlink ok).goTo p .outside) else none
  -- the client calls `release_lock` for a broker that it ended
  | .retire ok => if s.point p = .outside then some (s.unlink ok) else none
  | .exit => if s.point p = .gone then none else some (s.goTo p .gone)
  | .start => if s.point p = .gone then some (s.goTo p .outside) else none

/-- No process is in a call. -/
def State.Initial (s : State) : Prop := ∀ p, s.point p = .outside ∨ s.point p = .gone

/-- A process that has created its file and has not released it. -/
def State.Claims (s : State) (p : Nat) : Prop := s.point p = .writing ∨ s.point p = .holding

/-- `path.unlink()` is called in the step. -/
def Action.unlinks : Action → Bool
  | .unlink _ | .release _ | .retire _ => true
  | _ => false

/-- An unlink meets no file of another process that is about to write its record or holds the lock. -/
def SparesOthers (s : State) (p : Nat) (a : Action) : Prop :=
  a.unlinks = true → ∀ f ∈ s.file, f.creator ≠ p → ¬ s.Claims f.creator

/-- The states that runs of such steps come to. -/
inductive Runs (s₀ : State) : State → Prop
  | refl : Runs s₀ s₀
  | snoc {s s' : State} {p : Nat} {a : Action} (h : Runs s₀ s) (hspares : SparesOthers s p a)
      (hstep : step s p a = some s') : Runs s₀ s'

/-- A process between an `acquire_lock` that returned acquired and its `release_lock`. -/
def State.Holds (s : State) (p : Nat) : Prop := s.point p = .holding

/-! ### The file of the one that claims it -/

/-- Whoever claims the lock created the file at the path. -/
def Owned (s : State) : Prop := ∀ p, s.Claims p → ∃ f ∈ s.file, f.creator = p

variable {s s' : State} {p q : Nat} {a : Action}

theorem State.Initial.owned (h : s.Initial) : Owned s := by
  rintro p (hp | hp)
  all_goals
    rcases h p with hout | hgone
    · rw [hp] at hout
      cases hout
    · rw [hp] at hgone
      cases hgone

/-- The claims of the others stay what they are. -/
theorem claims_goTo {point : Point} (hne : q ≠ p) : (s.goTo p point).Claims q ↔ s.Claims q := by
  rw [State.Claims, State.Claims, State.goTo_of_ne s point hne]

/-- A process that goes to a point without a claim leaves the file to the others. -/
theorem Owned.goTo {point : Point} (h : Owned s) (hw : point ≠ .writing) (hh : point ≠ .holding) :
    Owned (s.goTo p point) := by
  intro q hq
  by_cases hqp : q = p
  · subst hqp
    rw [State.Claims, State.goTo_self] at hq
    exact absurd hq (not_or.mpr ⟨hw, hh⟩)
  · exact h q ((claims_goTo hqp).mp hq)

/-- Where no one claims the file at the path, it can go. -/
theorem Owned.unlink {ok : Bool} (h : Owned s) (hfree : ∀ f ∈ s.file, ¬ s.Claims f.creator) :
    Owned (s.unlink ok) := by
  cases ok with
  | false => exact h
  | true =>
    intro q hq
    obtain ⟨f, hf, rfl⟩ := h q hq
    exact absurd hq (hfree f hf)

theorem Owned.record (h : Owned s) : Owned (s.record p) := by
  intro q hq
  obtain ⟨f, hf, hcreator⟩ := h q hq
  refine ⟨_, Option.mem_map_of_mem _ hf, ?_⟩
  split_ifs <;> exact hcreator

/-- A process that claims the file at the path has it for itself. -/
theorem Owned.goTo_claim {point : Point} (h : Owned s) (hp : ∃ f ∈ s.file, f.creator = p) :
    Owned (s.goTo p point) := by
  intro q hq
  by_cases hqp : q = p
  · exact hqp ▸ hp
  · exact h q ((claims_goTo hqp).mp hq)

/-- Only the process that claims the file at the path is in the way of an unlink. -/
theorem Owned.unlink_goTo {ok : Bool} {point : Point} (h : Owned s)
    (hothers : ∀ f ∈ s.file, f.creator ≠ p → ¬ s.Claims f.creator) (hw : point ≠ .writing)
    (hh : point ≠ .holding) : Owned ((s.unlink ok).goTo p point) := by
  cases ok with
  | false => exact h.goTo hw hh
  | true =>
    intro q hq
    by_cases hqp : q = p
    · subst hqp
      rw [State.Claims, State.goTo_self] at hq
      exact absurd hq (not_or.mpr ⟨hw, hh⟩)
    · -- another process that claims the lock has its file at the path, which is spared
      have hclaims : s.Claims q := (claims_goTo hqp).mp hq
      obtain ⟨f, hf, rfl⟩ := h q hclaims
      exact absurd hclaims (hothers f hf hqp)

/-- One step keeps the file with whoever claims it. -/
theorem Owned.step (h : Owned s) (hspares : SparesOthers s p a) (hstep : step s p a = some s') : Owned s' := by
  cases a with
  | begin =>
    rw [BrokerLock.step] at hstep
    split_ifs at hstep
    obtain rfl := Option.some.inj hstep
    exact h.goTo (by simp) (by simp)
  | create ok =>
    rw [BrokerLock.step] at hstep
    split at hstep
    · split_ifs at hstep
      · obtain rfl := Option.some.inj hstep
        exact h.goTo (by simp) (by simp)
      · split at hstep
        · obtain rfl := Option.some.inj hstep
          exact h.goTo (by simp) (by simp)
        · next hfile =>
          obtain rfl := Option.some.inj hstep
          -- the path was free, so nobody claimed the lock
          intro q hq
          by_cases hqp : q = p
          · exact ⟨⟨p, 0⟩, rfl, hqp.symm⟩
          · obtain ⟨f, hf, -⟩ := h q ((claims_goTo (s := { s with file := _ }) hqp).mp hq)
            rw [hfile] at hf
            cases hf
    · cases hstep
  | read ok =>
    rw [BrokerLock.step] at hstep
    split at hstep
    · obtain rfl := Option.some.inj hstep
      exact h.goTo (by simp) (by simp)
    · cases hstep
  | check =>
    rw [BrokerLock.step] at hstep
    split at hstep
    · split_ifs at hstep
      all_goals
        obtain rfl := Option.some.inj hstep
        exact h.goTo (by simp) (by simp)
    · cases hstep
  | unlink ok =>
    rw [BrokerLock.step] at hstep
    split at hstep
    · next left hpoint =>
      obtain rfl := Option.some.inj hstep
      cases left <;> exact h.unlink_goTo (hspares rfl) (by simp) (by simp)
    · cases hstep
  | write ok =>
    rw [BrokerLock.step] at hstep
    split_ifs at hstep with hwriting hok
    · obtain rfl := Option.some.inj hstep
      exact h.record.goTo_claim (h.record p (.inl hwriting))
    · obtain rfl := Option.some.inj hstep
      exact h.goTo (by simp) (by simp)
  | release ok =>
    rw [BrokerLock.step] at hstep
    split_ifs at hstep
    obtain rfl := Option.some.inj hstep
    exact h.unlink_goTo (hspares rfl) (by simp) (by simp)
  | retire ok =>
    rw [BrokerLock.step] at hstep
    split_ifs at hstep with houtside
    obtain rfl := Option.some.inj hstep
    refine h.unlink fun f hf => ?_
    by_cases hown : f.creator = p
    · rw [hown, State.Claims, houtside]
      simp
    · exact hspares rfl f hf hown
  | exit =>
    rw [BrokerLock.step] at hstep
    split_ifs at hstep
    obtain rfl := Option.some.inj hstep
    exact h.goTo (by simp) (by simp)
  | start =>
    rw [BrokerLock.step] at hstep
    split_ifs at hstep
    obtain rfl := Option.some.inj hstep
    exact h.goTo (by simp) (by simp)

theorem Runs.owned {s₀ : State} (hinit : s₀.Initial) (hrun : Runs s₀ s) : Owned s := by
  induction hrun with
  | refl => exact hinit.owned
  | snoc _ hspares hstep ih => exact ih.step hspares hstep

/-- **Exclusion.** In a run whose unlinks spare the files of the others, at most one process holds the lock. -/
theorem singleton_excludes {s₀ : State} (hinit : s₀.Initial) (hrun : Runs s₀ s) (hp : s.Holds p)
    (hq : s.Holds q) : p = q := by
  obtain ⟨f, hf, rfl⟩ := hrun.owned hinit p (.inr hp)
  obtain ⟨g, hg, rfl⟩ := hrun.owned hinit q (.inr hq)
  rw [Option.some.inj (hf.symm.trans hg)]

/-! ### Two holders -/

/-- The steps of a run, one after the other. -/
def runs (s : State) : List (Nat × Action) → Option State
  | [] => some s
  | (p, a) :: rest => (step s p a).bind (runs · rest)

/-- No lock file and no process in a call. -/
def quiet : State := ⟨none, fun _ => .outside⟩

/-- The second process meets the file before the first has written its pid, takes it for a stale one and
creates its own. Both return acquired. -/
theorem two_holders : quiet.Initial ∧ ∃ s : State, runs quiet [(1, .begin), (1, .create true), (2, .begin),
      (2, .create true), (2, .read true), (2, .check), (2, .unlink true), (2, .create true), (2, .write true),
      (1, .write true)] = some s ∧ s.Holds 1 ∧ s.Holds 2 :=
  ⟨fun _ => .inl rfl, _, rfl, rfl, rfl⟩

theorem Runs.quietly {s₀ : State} (h : Runs s₀ s) (ha : a.unlinks = false) (hstep : step s p a = some s') :
    Runs s₀ s' :=
  h.snoc (fun hunlinks => absurd (ha.symm.trans hunlinks) Bool.false_ne_true) hstep

/-- A process takes over the file of one that died in `acquire_lock`, and holds the lock alone. -/
theorem stale_file_reclaimed : ∃ s : State, Runs quiet s ∧ s.Holds 2 ∧ ∀ p, s.Holds p → p = 2 := by
  have hdead : Runs quiet _ :=
    ((Runs.refl.quietly (p := 1) (a := .begin) rfl rfl).quietly (p := 1) (a := .create true) rfl rfl).quietly
      (p := 1) (a := .exit) rfl rfl
  have hstale : Runs quiet _ :=
    (((hdead.quietly (p := 2) (a := .begin) rfl rfl).quietly (p := 2) (a := .create true) rfl rfl).quietly
      (p := 2) (a := .read true) rfl rfl).quietly (p := 2) (a := .check) rfl rfl
  have hfree : Runs quiet _ := hstale.snoc (p := 2) (a := .unlink true) (fun _ f hf _ => by
    obtain rfl := Option.some.inj hf
    exact fun hclaims => by rcases hclaims with h | h <;> cases h) rfl
  have hheld : Runs quiet _ := (hfree.quietly (p := 2) (a := .create true) rfl rfl).quietly
    (p := 2) (a := .write true) rfl rfl
  exact ⟨_, hheld, rfl, fun p hp => singleton_excludes (fun _ => .inl rfl) hheld hp rfl⟩

end Saipen.BrokerLock
