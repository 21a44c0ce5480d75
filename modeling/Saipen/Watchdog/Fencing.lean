import Saipen.Watchdog.Interleaving
import Saipen.Run

/-! # Lease fencing

`heartbeat` writes back the lease it read, without the mutex, so a heartbeat that was overtaken by a
`fence` or an acquisition undoes it; `mutation_allowed` takes the generation from its first read and
the health from its second. Where neither happens, and no acquisition finds a lease it cannot read,
generations grow, records stay and a fenced generation is not accepted again. -/

namespace Saipen.Watchdog

open Run

variable {π : Type} {binding : String → RunBinding}

/-! ### What fencing rests on -/

/-- The part of a lease that only the holder of the mutex may change. -/
def Lease.mark (l : Lease) : Nat × Bool × List FencedRecord :=
  (l.leaseGeneration, l.isFenced, l.fencedGenerations)

/-- The mark of the lease file. -/
def Project.mark (s : Project π) : Option (Nat × Bool × List FencedRecord) := s.file.map Lease.mark

/-- The steps that leave fencing intact. A heartbeat is written over the lease it was read from: no
fence and no acquisition came between. An acquisition that could load no lease finds no file, or the
first generation with no record. The second read of `mutation_allowed` does not find a healthy lease
of another generation. -/
def Steady (s : Project π) (p : π) (e : Event) : Prop :=
  match (s.processes p).stage, e with
  | .beatSaving current, .step _ => s.mark = some current.mark
  | .saving _ none, .step _ =>
      ∀ l ∈ s.file, l.leaseGeneration = 1 ∧ l.fencedGenerations = []
  | .observing _ _ _ (some current), .step clock =>
      (observe s.file (moment (s.processes p).now clock)).state = .healthy →
        ∀ l ∈ s.file, l.leaseGeneration = current.leaseGeneration
  | _, _ => True

instance (s : Project π) (p : π) (e : Event) : Decidable (Steady s p e) := by
  unfold Steady
  split <;> infer_instance

/-- A record is of a generation no later than the lease's, and of the lease's own only when the
lease is fenced. -/
def Lease.Consistent (l : Lease) : Prop :=
  ∀ r ∈ l.fencedGenerations,
    r.leaseGeneration ≤ l.leaseGeneration ∧
      (r.leaseGeneration = l.leaseGeneration → l.isFenced = true)

/-- What a process may rely on at each stage. -/
def Project.Told (s : Project π) (p : π) : Prop :=
  match (s.processes p).stage with
  | .loading _ | .fenceLoading .. | .releasing _ | .saving _ none => s.writer = some p
  | .checking _ current | .saving _ (some current) | .fenceSaving current _ =>
      s.writer = some p ∧ s.mark = some current.mark
  | .beatSaving current => current.isFenced = false
  | _ => True

/-- What holds in every state a steady run leads to. -/
structure Invariant (s : Project π) : Prop where
  consistent : ∀ l, s.file = some l → l.Consistent
  told : ∀ p, s.Told p

theorem Project.Initial.invariant {s : Project π} (h : s.Initial) : Invariant s where
  consistent l hl := by simp [h.file] at hl
  told p := by simp [Project.Told, h.idle p]

/-! ### One step -/

section Moves

variable {s s' : Project π} {p q : π} {stage : Stage}

@[simp] theorem hold_file {w : Option π} : (s.hold w).file = s.file := rfl

@[simp] theorem hold_writer {w : Option π} : (s.hold w).writer = w := rfl

@[simp] theorem hold_processes {w : Option π} : (s.hold w).processes = s.processes := rfl

@[simp] theorem save_file {l : Lease} : (s.save l).file = some l := rfl

@[simp] theorem save_writer {l : Lease} : (s.save l).writer = s.writer := rfl

@[simp] theorem save_processes {l : Lease} : (s.save l).processes = s.processes := rfl

/-- Another process may rely on the same things while the mutex and the mark are left to it. -/
theorem Project.Told.frame (h : s.Told q) (hq : s'.processes q = s.processes q)
    (hleft : s.writer = some q → s'.writer = some q ∧ s'.mark = s.mark) : s'.Told q := by
  unfold Project.Told at h ⊢
  rw [hq]
  cases hst : (s.processes q).stage with
  | loading next => simp only [hst] at h; exact (hleft h).1
  | fenceLoading w g next => simp only [hst] at h; exact (hleft h).1
  | releasing next => simp only [hst] at h; exact (hleft h).1
  | checking next current =>
    simp only [hst] at h
    exact ⟨(hleft h.1).1, (hleft h.1).2.trans h.2⟩
  | fenceSaving current next =>
    simp only [hst] at h
    exact ⟨(hleft h.1).1, (hleft h.1).2.trans h.2⟩
  | saving next current =>
    cases current with
    | none => simp only [hst] at h; exact (hleft h).1
    | some current =>
      simp only [hst] at h
      exact ⟨(hleft h.1).1, (hleft h.1).2.trans h.2⟩
  | beatSaving current => simpa only [hst] using h
  | _ => trivial

variable [DecidableEq π]

@[simp] theorem at_file : (s.at p stage).file = s.file := rfl

@[simp] theorem at_mark : (s.at p stage).mark = s.mark := rfl

@[simp] theorem at_writer : (s.at p stage).writer = s.writer := rfl

@[simp] theorem at_stage : ((s.at p stage).processes p).stage = stage := by simp [Project.at]

theorem at_of_ne (h : q ≠ p) : (s.at p stage).processes q = s.processes q :=
  Function.update_of_ne h _ _

/-- What a step of `p` has to show. -/
theorem Invariant.move (h : Invariant s) (hothers : ∀ q, q ≠ p → s'.processes q = s.processes q)
    (hleft : ∀ q, q ≠ p → s.writer = some q → s'.writer = some q ∧ s'.mark = s.mark)
    (hconsistent : ∀ l, s'.file = some l → l.Consistent) (hp : s'.Told p) : Invariant s' where
  consistent := hconsistent
  told q := by
    by_cases hq : q = p
    · exact hq ▸ hp
    · exact (h.told q).frame (hothers q hq) (hleft q hq)

/-- A step that leaves the lease file as it is. -/
theorem Invariant.quiet (h : Invariant s) (hfile : s'.file = s.file)
    (hothers : ∀ q, q ≠ p → s'.processes q = s.processes q)
    (hwriter : ∀ q, q ≠ p → s.writer = some q → s'.writer = some q) (hp : s'.Told p) :
    Invariant s' :=
  h.move hothers (fun q hq hw => ⟨hwriter q hq hw, by rw [Project.mark, hfile, Project.mark]⟩)
    (fun l hl => h.consistent l (hfile ▸ hl)) hp

/-- A step that only moves `p` on. -/
theorem Invariant.at (h : Invariant s) (hp : (s.at p stage).Told p) : Invariant (s.at p stage) :=
  h.quiet rfl (fun _ hq => at_of_ne hq) (fun _ _ hw => hw) hp

/-- A step that gives `p` the mutex. -/
theorem Invariant.lock (h : Invariant s) (hfree : s.writer = none)
    (hp : ((s.hold (some p)).at p stage).Told p) : Invariant ((s.hold (some p)).at p stage) :=
  h.quiet rfl (fun _ hq => at_of_ne hq) (fun _ _ hw => by simp [hfree] at hw) hp

/-- The holder of the mutex writes a lease. -/
theorem Invariant.save (h : Invariant s) {l : Lease} (hwriter : s.writer = some p)
    (hl : l.Consistent) (hp : ((s.save l).at p stage).Told p) :
    Invariant ((s.save l).at p stage) := by
  refine h.move (fun _ hq => at_of_ne hq) (fun q hq hw => ?_) (fun l' hl' => ?_) hp
  · exact absurd (Option.some.inj (hw.symm.trans hwriter)) hq
  · obtain rfl := Option.some.inj hl'
    exact hl

end Moves

/-- From one state to the next the generation does not go down and no record goes. -/
structure Grows (s s' : Project π) : Prop where
  generation : s.generation ≤ s'.generation
  records : s.records ⊆ s'.records

theorem Grows.of_file {s s' : Project π} (h : s'.file = s.file) : Grows s s' where
  generation := by rw [Project.generation, Project.generation, h]
  records := by rw [Project.records, Project.records, h]; exact List.Subset.refl _

/-- What a mark says about the state it was read in. -/
theorem Project.mark_eq {s : Project π} {l : Lease} (h : s.mark = some l.mark) :
    s.generation = l.leaseGeneration ∧ s.records = l.fencedGenerations ∧
      ∃ l', s.file = some l' ∧ l'.mark = l.mark := by
  obtain ⟨l', hfile, hmark⟩ := Option.map_eq_some_iff.mp h
  obtain ⟨hgeneration, -, hrecords⟩ : l'.leaseGeneration = l.leaseGeneration ∧
      l'.isFenced = l.isFenced ∧ l'.fencedGenerations = l.fencedGenerations := by
    simpa [Lease.mark] using hmark
  refine ⟨?_, ?_, l', hfile, hmark⟩
  · rw [Project.generation, hfile]
    exact hgeneration
  · rw [Project.records, hfile]
    exact hrecords

/-- What `_load` finds has the mark of the file. -/
theorem Project.mark_of_load {s : Project π} {l : Lease} (h : load s.file = some l) :
    s.mark = some l.mark := by
  rw [Project.mark, (load_eq_some_iff.mp h).1]
  rfl

theorem Lease.Consistent.of_mark {l l' : Lease} (h : l.Consistent) (hmark : l.mark = l'.mark) :
    l'.Consistent := by
  obtain ⟨hgeneration, hfenced, hrecords⟩ : l.leaseGeneration = l'.leaseGeneration ∧
      l.isFenced = l'.isFenced ∧ l.fencedGenerations = l'.fencedGenerations := by
    simpa [Lease.mark] using hmark
  unfold Lease.Consistent
  rw [← hgeneration, ← hfenced, ← hrecords]
  exact h

/-- The lease a stage holds is as consistent as the file it was read from. -/
theorem Invariant.current {s : Project π} (h : Invariant s) {l : Lease}
    (hmark : s.mark = some l.mark) : l.Consistent := by
  obtain ⟨-, -, l', hfile, hl⟩ := Project.mark_eq hmark
  exact (h.consistent l' hfile).of_mark hl

/-- A fenced lease is consistent. -/
theorem Lease.Consistent.fenced {l : Lease} (h : l.Consistent) (now : Int) :
    (l.fenced now).Consistent := by
  intro r hr
  refine ⟨?_, fun _ => fenced_isFenced⟩
  rcases mem_fenced hr with hr | hr
  · exact (h r hr).1
  · exact hr.le

/-- A refreshed lease is consistent: it was not fenced, so no record is of its generation. -/
theorem Lease.Consistent.beat {l : Lease} (h : l.Consistent) (hopen : l.isFenced = false)
    (now : Int) : (l.beat now).Consistent := by
  intro r hr
  refine ⟨(h r hr).1, fun hown => ?_⟩
  have hfenced := (h r hr).2 hown
  simp [hopen] at hfenced

/-- A new generation is consistent: every record is older. -/
theorem Lease.Consistent.acquired {l : Lease} (h : l.Consistent) (workerId : String)
    (binding : Option RunBinding) (now : Int) :
    (Watchdog.acquired (some l) workerId binding now).Consistent := by
  intro r hr
  have hle : r.leaseGeneration ≤ l.leaseGeneration := (h r hr).1
  refine ⟨Nat.le_succ_of_le hle, fun hown => ?_⟩
  have hnew : r.leaseGeneration = l.leaseGeneration + 1 := hown
  omega

variable [DecidableEq π]

/-- Any call may be ended; the mutex is given up with it. -/
theorem Invariant.abort {s : Project π} (h : Invariant s) (p : π) :
    Invariant ((s.hold (if s.writer = some p then none else s.writer)).at p .idle) := by
  refine h.quiet rfl (fun _ hq => at_of_ne hq) (fun q hq hw => ?_) (by simp [Project.Told])
  simp [hw, hq]

/-- An idle process starts a call. -/
theorem Invariant.call {s : Project π} (h : Invariant s) (p : π) {stage : Stage} {now : Option Int}
    (hfree : ∀ s' : Project π, (s'.processes p).stage = stage → s'.Told p) :
    Invariant { s with processes := Function.update s.processes p { stage := stage, now := now } } :=
  h.quiet (p := p) rfl (fun _ hq => Function.update_of_ne hq _ _) (fun _ _ hw => hw)
    (hfree _ (by simp))

/-- A call starts only where none is running. -/
theorem Step.of_call {s s' : Project π} {p : π} {call : Call} {now : Option Int}
    {outcome : Option Outcome} (h : Step binding s p (.call call now) s' outcome) :
    s' = { s with
      processes := Function.update s.processes p { stage := call.start, now := now } } := by
  unfold Step advance at h
  cases hst : (s.processes p).stage with
  | idle =>
    simp only [hst] at h
    exact (Prod.mk.inj (Option.some.inj h)).1.symm
  | _ => simp [hst] at h

theorem Step.of_abort {s s' : Project π} {p : π} {outcome : Option Outcome}
    (h : Step binding s p .abort s' outcome) :
    s' = (s.hold (if s.writer = some p then none else s.writer)).at p .idle := by
  unfold Step advance at h
  cases hst : (s.processes p).stage with
  | idle => simp [hst] at h
  | _ =>
    simp only [hst] at h
    exact (Prod.mk.inj (Option.some.inj h)).1.symm

/-- What `acquire_lease` writes after it loaded a lease that is still in the file, or none. -/
theorem Invariant.save_acquired {s : Project π} (h : Invariant s) {p : π} {current : Option Lease}
    {workerId : String} {run : Option RunBinding} {now : Int} (hwriter : s.writer = some p)
    (hcurrent : ∀ l, current = some l → s.mark = some l.mark)
    (hnone : current = none → ∀ l, s.file = some l →
      l.leaseGeneration = 1 ∧ l.fencedGenerations = []) :
    Invariant ((s.save (acquired current workerId run now)).at p (.releasing none)) ∧
      Grows s ((s.save (acquired current workerId run now)).at p (.releasing none)) := by
  have hp : ∀ l : Lease, ((s.save l).at p (.releasing none)).Told p := fun l => by
    simpa [Project.Told] using hwriter
  cases current with
  | some l =>
    obtain ⟨hgeneration, hrecords, -⟩ := Project.mark_eq (hcurrent l rfl)
    refine ⟨h.save hwriter ((h.current (hcurrent l rfl)).acquired workerId run now) (hp _), ?_, ?_⟩
    · rw [hgeneration]
      exact Nat.le_succ _
    · rw [hrecords]
      exact List.Subset.refl _
  | none =>
    refine ⟨h.save hwriter (fun r hr => by simp [acquired] at hr) (hp _), ?_, ?_⟩
    · cases hfile : s.file with
      | none => simp [Project.generation, hfile]
      | some l => simp [Project.generation, hfile, acquired, (hnone rfl l hfile).1]
    · cases hfile : s.file with
      | none => simp [Project.records, hfile]
      | some l => simp [Project.records, hfile, (hnone rfl l hfile).2]

/-- What `fence` writes while the lease it loaded is still in the file. -/
theorem Invariant.save_fenced {s : Project π} (h : Invariant s) {p : π} {l : Lease} {now : Int}
    {next : Option Successor} (hwriter : s.writer = some p) (hmark : s.mark = some l.mark) :
    Invariant ((s.save (l.fenced now)).at p (.releasing next)) ∧
      Grows s ((s.save (l.fenced now)).at p (.releasing next)) := by
  obtain ⟨hgeneration, hrecords, -⟩ := Project.mark_eq hmark
  refine ⟨h.save hwriter ((h.current hmark).fenced now) (by simpa [Project.Told] using hwriter),
    ?_, ?_⟩
  · rw [hgeneration]
    exact le_rfl
  · rw [hrecords]
    exact subset_fenced

/-- What `heartbeat` writes while the lease it loaded is still in the file. -/
theorem Invariant.save_beat {s : Project π} (h : Invariant s) {p : π} {l : Lease} {now : Int}
    (hopen : l.isFenced = false) (hmark : s.mark = some l.mark) :
    Invariant ((s.save (l.beat now)).at p .idle) ∧ Grows s ((s.save (l.beat now)).at p .idle) := by
  obtain ⟨hgeneration, hrecords, -⟩ := Project.mark_eq hmark
  -- the heartbeat holds no mutex, but the mark is what the holder of the mutex left
  have hkept : (s.save (l.beat now)).mark = s.mark := by
    rw [hmark]
    simp [Project.mark, Lease.mark, hopen]
  refine ⟨h.move (fun _ hq => at_of_ne hq) (fun q _ hw => ⟨hw, hkept⟩) (fun l' hl' => ?_)
    (by simp [Project.Told]), ?_, ?_⟩
  · obtain rfl := Option.some.inj hl'
    exact (h.current hmark).beat hopen now
  · rw [hgeneration]
    exact le_rfl
  · rw [hrecords]
    exact List.Subset.refl _

/-- **One access.** Every stage keeps the invariant, the generation and the records. -/
theorem Invariant.access {s s' : Project π} {p : π} {clock : Int} {outcome : Option Outcome}
    (h : Invariant s) (hsteady : Steady s p (.step clock))
    (hstep : Step binding s p (.step clock) s' outcome) : Invariant s' ∧ Grows s s' := by
  have htold := h.told p
  unfold Step advance at hstep
  unfold Project.Told at htold
  unfold Steady at hsteady
  cases hst : (s.processes p).stage with
  | idle => simp [hst] at hstep
  | acquiring next =>
    simp only [hst, Option.ite_none_right_eq_some, Option.some.injEq, Prod.mk.injEq] at hstep
    obtain ⟨hfree, rfl, -⟩ := hstep
    exact ⟨h.lock hfree (by simp [Project.Told]), .of_file rfl⟩
  | loading next =>
    simp only [hst] at hstep htold
    cases hload : load s.file with
    | some current =>
      simp only [hload, Option.some.injEq, Prod.mk.injEq] at hstep
      obtain ⟨rfl, -⟩ := hstep
      have hmark := Project.mark_of_load hload
      exact ⟨h.at (by simpa [Project.Told] using ⟨htold, hmark⟩), .of_file rfl⟩
    | none =>
      simp only [hload, Option.some.injEq, Prod.mk.injEq] at hstep
      obtain ⟨rfl, -⟩ := hstep
      exact ⟨h.at (by simpa [Project.Told] using htold), .of_file rfl⟩
  | checking next current =>
    simp only [hst] at hstep htold
    split at hstep
    · obtain ⟨rfl, -⟩ := Prod.mk.inj (Option.some.inj hstep)
      exact ⟨h.at (by simpa [Project.Told] using htold.1), .of_file rfl⟩
    · obtain ⟨rfl, -⟩ := Prod.mk.inj (Option.some.inj hstep)
      exact ⟨h.at (by simpa [Project.Told] using htold), .of_file rfl⟩
  | saving next current =>
    simp only [hst] at hstep htold hsteady
    obtain ⟨rfl, -⟩ := Prod.mk.inj (Option.some.inj hstep)
    cases current with
    | some l =>
      exact h.save_acquired htold.1 (fun _ hl => Option.some.inj hl ▸ htold.2)
        fun hnone => by simp at hnone
    | none => exact h.save_acquired htold (fun _ hl => by simp at hl) fun _ => hsteady
  | fencing workerId leaseGeneration next =>
    simp only [hst, Option.ite_none_right_eq_some, Option.some.injEq, Prod.mk.injEq] at hstep
    obtain ⟨hfree, rfl, -⟩ := hstep
    exact ⟨h.lock hfree (by simp [Project.Told]), .of_file rfl⟩
  | fenceLoading workerId leaseGeneration next =>
    simp only [hst] at hstep htold
    cases hload : load s.file with
    | none =>
      simp only [hload, Option.some.injEq, Prod.mk.injEq] at hstep
      obtain ⟨rfl, -⟩ := hstep
      exact ⟨h.at (by simpa [Project.Told] using htold), .of_file rfl⟩
    | some current =>
      simp only [hload] at hstep
      split at hstep
      · obtain ⟨rfl, -⟩ := Prod.mk.inj (Option.some.inj hstep)
        have hmark := Project.mark_of_load hload
        exact ⟨h.at (by simpa [Project.Told] using ⟨htold, hmark⟩), .of_file rfl⟩
      · obtain ⟨rfl, -⟩ := Prod.mk.inj (Option.some.inj hstep)
        exact ⟨h.at (by simpa [Project.Told] using htold), .of_file rfl⟩
  | fenceSaving current next =>
    simp only [hst] at hstep htold
    obtain ⟨rfl, -⟩ := Prod.mk.inj (Option.some.inj hstep)
    exact h.save_fenced htold.1 htold.2
  | releasing next =>
    simp only [hst] at hstep htold
    obtain ⟨rfl, -⟩ := Prod.mk.inj (Option.some.inj hstep)
    refine ⟨h.quiet rfl (fun _ hq => at_of_ne hq) (fun q hq hw => ?_) ?_, .of_file rfl⟩
    · exact absurd (Option.some.inj (hw.symm.trans htold)) hq
    · cases next <;> simp [Project.Told, afterRelease]
  | beating workerId leaseGeneration =>
    simp only [hst] at hstep
    cases hload : load s.file with
    | none =>
      simp only [hload, Option.some.injEq, Prod.mk.injEq] at hstep
      obtain ⟨rfl, -⟩ := hstep
      exact ⟨h.at (by simp [Project.Told]), .of_file rfl⟩
    | some current =>
      simp only [hload] at hstep
      split at hstep
      · next hnamed =>
        obtain ⟨rfl, -⟩ := Prod.mk.inj (Option.some.inj hstep)
        have hopen : current.isFenced = false := by simpa using (Bool.and_eq_true_iff.mp hnamed).2
        exact ⟨h.at (by simpa [Project.Told] using hopen), .of_file rfl⟩
      · obtain ⟨rfl, -⟩ := Prod.mk.inj (Option.some.inj hstep)
        exact ⟨h.at (by simp [Project.Told]), .of_file rfl⟩
  | beatSaving current =>
    simp only [hst] at hstep htold hsteady
    obtain ⟨rfl, -⟩ := Prod.mk.inj (Option.some.inj hstep)
    exact h.save_beat htold hsteady
  | replacing next limits =>
    simp only [hst] at hstep
    split at hstep
    · split at hstep
      · obtain ⟨rfl, -⟩ := Prod.mk.inj (Option.some.inj hstep)
        exact ⟨h.at (by simp [Project.Told]), .of_file rfl⟩
      · obtain ⟨rfl, -⟩ := Prod.mk.inj (Option.some.inj hstep)
        exact ⟨h.call p fun s' hs' => by simp [Project.Told, hs'], .of_file rfl⟩
    · obtain ⟨rfl, -⟩ := Prod.mk.inj (Option.some.inj hstep)
      exact ⟨h.at (by simp [Project.Told]), .of_file rfl⟩
  | admitting workerId leaseGeneration slice =>
    simp only [hst] at hstep
    obtain ⟨rfl, -⟩ := Prod.mk.inj (Option.some.inj hstep)
    exact ⟨h.at (by simp [Project.Told]), .of_file rfl⟩
  | observing workerId leaseGeneration slice current =>
    simp only [hst] at hstep
    obtain ⟨rfl, -⟩ := Prod.mk.inj (Option.some.inj hstep)
    refine ⟨h.at ?_, .of_file rfl⟩
    split <;> simp [Project.Told]

/-- **One step.** -/
theorem Invariant.step {s s' : Project π} {p : π} {e : Event} {outcome : Option Outcome}
    (h : Invariant s) (hsteady : Steady s p e) (hstep : Step binding s p e s' outcome) :
    Invariant s' ∧ Grows s s' := by
  cases e with
  | call call now =>
    obtain rfl := hstep.of_call
    exact ⟨h.call p fun s' hs' => by cases call <;> simp [Project.Told, hs', Call.start],
      .of_file rfl⟩
  | abort =>
    obtain rfl := hstep.of_abort
    exact ⟨h.abort p, .of_file rfl⟩
  | step clock => exact h.access hsteady hstep

/-! ### Runs -/

/-- A step of some process that leaves fencing intact. -/
def SteadyStep (binding : String → RunBinding) (s s' : Project π) : Prop :=
  ∃ p e outcome, Steady s p e ∧ Step binding s p e s' outcome

theorem Invariant.steadyStep {s s' : Project π} (h : Invariant s)
    (hstep : SteadyStep binding s s') : Invariant s' ∧ Grows s s' := by
  obtain ⟨p, e, outcome, hsteady, hstep⟩ := hstep
  exact h.step hsteady hstep

theorem Invariant.run {s s' : Project π} (h : Invariant s) (hrun : Runs (SteadyStep binding) s s') :
    Invariant s' :=
  keeps (fun _ _ hs hstep => (hs.steadyStep hstep).1) hrun h

theorem Invariant.grows {s s' : Project π} (h : Invariant s)
    (hrun : Runs (SteadyStep binding) s s') : Grows s s' := by
  have hkeep : ∀ s s' : Project π, Invariant s → SteadyStep binding s s' → Invariant s' :=
    fun _ _ hs hstep => (hs.steadyStep hstep).1
  refine ⟨Run.grows hkeep (fun _ _ hs hstep => (hs.steadyStep hstep).2.generation) hrun h, ?_⟩
  have hset : ({r | r ∈ s.records} : Set FencedRecord) ≤ {r | r ∈ s'.records} :=
    Run.grows (f := fun s : Project π => ({r | r ∈ s.records} : Set FencedRecord)) hkeep
      (fun _ _ hs hstep _ hr => (hs.steadyStep hstep).2.records hr) hrun h
  exact fun _ hr => hset hr

/-- The generation a stage is about to fence. -/
def Stage.fences : Stage → Option Nat
  | .fenceSaving current _ => some current.leaseGeneration
  | _ => none

/-- The generation a stage is about to answer `mutation_allowed` for. -/
def Stage.admits : Stage → Option Nat
  | .observing _ leaseGeneration _ _ => some leaseGeneration
  | _ => none

/-- Process `p` writes the payload with which `fence` closes generation `g`. -/
def Fences (binding : String → RunBinding) (s : Project π) (p : π) (g : Nat) (s' : Project π) :
    Prop :=
  (s.processes p).stage.fences = some g ∧ ∃ clock outcome, Step binding s p (.step clock) s' outcome

/-- A call of `mutation_allowed` by process `p` for generation `g` answers that it may mutate. -/
def Admits (binding : String → RunBinding) (s : Project π) (p : π) (g : Nat) (clock : Int)
    (s' : Project π) : Prop :=
  (s.processes p).stage.admits = some g ∧ Step binding s p (.step clock) s' (some (.allowed true))

theorem fences_eq_some_iff {stage : Stage} {g : Nat} :
    stage.fences = some g ↔
      ∃ current next, stage = .fenceSaving current next ∧ current.leaseGeneration = g := by
  cases stage <;> simp [Stage.fences]

theorem admits_eq_some_iff {stage : Stage} {g : Nat} :
    stage.admits = some g ↔
      ∃ workerId slice current, stage = .observing workerId g slice current := by
  cases stage <;> simp [Stage.admits]

/-- A generation has a record once it was fenced. -/
def Project.Recorded (s : Project π) (g : Nat) : Prop := ∃ r ∈ s.records, r.leaseGeneration = g

theorem Fences.recorded {s s' : Project π} {p : π} {g : Nat} (h : Fences binding s p g s') :
    s'.Recorded g := by
  obtain ⟨hfences, clock, outcome, hstep⟩ := h
  obtain ⟨current, next, hst, rfl⟩ := fences_eq_some_iff.mp hfences
  unfold Step advance at hstep
  simp only [hst] at hstep
  obtain ⟨rfl, -⟩ := Prod.mk.inj (Option.some.inj hstep)
  exact fenced_recorded

/-- Every fence is a steady step. -/
theorem Fences.steady {s s' : Project π} {p : π} {g : Nat} (h : Fences binding s p g s') :
    SteadyStep binding s s' := by
  obtain ⟨hfences, clock, outcome, hstep⟩ := h
  obtain ⟨current, next, hst, -⟩ := fences_eq_some_iff.mp hfences
  exact ⟨p, .step clock, outcome, by simp [Steady, hst], hstep⟩

/-- A generation with a record is not accepted where both reads are of one generation. -/
theorem Invariant.not_admits {s s' : Project π} {p : π} {g : Nat} {clock : Int} (h : Invariant s)
    (hrecorded : s.Recorded g) (hsteady : Steady s p (.step clock)) :
    ¬ Admits binding s p g clock s' := by
  rintro ⟨hadmits, hstep⟩
  obtain ⟨workerId, slice, current, hst⟩ := admits_eq_some_iff.mp hadmits
  obtain ⟨r, hr, hg⟩ := hrecorded
  unfold Step advance at hstep
  simp only [hst] at hstep
  have hanswer := Outcome.allowed.inj (Option.some.inj (Prod.mk.inj (Option.some.inj hstep)).2)
  cases current with
  | none => simp [admits] at hanswer
  | some current =>
    simp only [admits, Lease.named, Bool.and_eq_true, beq_iff_eq] at hanswer
    obtain ⟨hhealthy, -, hcurrent⟩ := hanswer
    obtain ⟨l, hfile, hopen⟩ := observe_healthy hhealthy
    simp only [Steady, hst] at hsteady
    have hsame : l.leaseGeneration = g := (hsteady hhealthy l hfile).trans hcurrent
    have hmem : r ∈ l.fencedGenerations := by simpa [Project.records, hfile] using hr
    have hfenced := (h.consistent l hfile r hmem).2 (hg.trans hsame.symm)
    simp [hopen] at hfenced

/-- **Lease fencing.** Along every run of steady steps the generation does not go down; once a
generation was fenced its record stays in the file, and no later call accepts it. -/
theorem lease_fencing {start s : Project π} (hstart : start.Initial)
    (hrun : Runs (SteadyStep binding) start s) :
    (∀ t, Runs (SteadyStep binding) s t → s.generation ≤ t.generation) ∧
    ∀ p g s', Fences binding s p g s' → ∀ t, Runs (SteadyStep binding) s' t →
      t.Recorded g ∧
        ∀ q clock t', Steady t q (.step clock) → ¬ Admits binding t q g clock t' := by
  have hinv : Invariant s := hstart.invariant.run hrun
  refine ⟨fun t ht => (hinv.grows ht).generation, fun p g s' hfence t ht => ?_⟩
  have hinv' : Invariant s' := hinv.run (.single hfence.steady)
  obtain ⟨r, hr, hg⟩ := hfence.recorded
  have hrecorded : t.Recorded g := ⟨r, (hinv'.grows ht).records hr, hg⟩
  exact ⟨hrecorded, fun q clock t' hsteady => (hinv'.run ht).not_admits hrecorded hsteady⟩

/-! ### A late heartbeat -/

/-- Any step of some process. -/
def AnyStep (binding : String → RunBinding) (s s' : Project π) : Prop :=
  ∃ p e outcome, Step binding s p e s' outcome

/-- Steps of several processes, one after the other, each of them steady when `steady` asks it. -/
def drive (binding : String → RunBinding) (steady : Bool) (s : Project π) :
    List (π × Event) → Option (Project π)
  | [] => some s
  | (p, e) :: acts =>
      if steady && !decide (Steady s p e) then none
      else (advance binding s p e).bind fun next => drive binding steady next.1 acts

theorem drive_run {steady : Bool} {acts : List (π × Event)} : ∀ {s s' : Project π},
    drive binding steady s acts = some s' →
      Runs (AnyStep binding) s s' ∧ (steady = true → Runs (SteadyStep binding) s s') := by
  induction acts with
  | nil =>
    intro s s' h
    obtain rfl := Option.some.inj h
    exact ⟨.refl, fun _ => .refl⟩
  | cons act acts ih =>
    intro s s' h
    obtain ⟨p, e⟩ := act
    rw [drive] at h
    split at h
    · simp at h
    · next hsteady =>
      obtain ⟨⟨s₁, outcome⟩, hstep, h⟩ := Option.bind_eq_some_iff.mp h
      obtain ⟨hany, hsteadyRun⟩ := ih h
      refine ⟨hany.head ⟨p, e, outcome, hstep⟩, fun hs => ?_⟩
      have hp : Steady s p e := by simpa [hs] using hsteady
      exact (hsteadyRun hs).head ⟨p, e, outcome, hp, hstep⟩

/-- A project of two processes in which nothing has happened. -/
def fresh : Project Bool where
  file := none
  writer := none
  processes _ := {}

theorem fresh_initial : fresh.Initial := ⟨rfl, rfl, fun _ => rfl⟩

/-- The runs of these examples carry no run id. -/
def noBinding (_ : String) : RunBinding := ⟨"", none, none⟩

/-- Several accesses of one process at one moment. -/
def accesses (p : Bool) (clock : Int) (n : Nat) : List (Bool × Event) :=
  List.replicate n (p, .step (clock * 1000000))

/-- A worker takes the lease; 20 seconds later it runs a slice and is stopped between the read and
the write of its heartbeat. At 125 seconds a supervisor has begun to replace it: the next write is
that of `fence`. -/
def overtaken : List (Bool × Event) :=
  (false, .call (.acquireLease "worker-a" "") none) :: accesses false 0 4 ++
    (false, .call (.runSlice "worker-a" 1) none) :: accesses false 20 3 ++
    (true, .call (.replaceWorker "worker-b" "" {}) none) :: accesses true 125 3

/-- The supervisor fences, acquires for `worker-b` and is done. -/
def replaced : List (Bool × Event) := accesses true 125 6

/-- The worker writes its heartbeat and asks whether it may go on. -/
def revived : List (Bool × Event) :=
  accesses false 126 1 ++ (false, .call (.mutationAllowed "worker-a" 1) none) :: accesses false 127 1

instance (s : Project π) (g : Nat) : Decidable (s.Recorded g) :=
  inferInstanceAs (Decidable (∃ r ∈ s.records, r.leaseGeneration = g))

/-- The heartbeat undoes the fence: the generation goes from 2 back to 1, the record is gone and the
fenced generation is accepted. -/
theorem late_heartbeat_revives :
    ∃ s s' t u v : Project Bool, Runs (AnyStep noBinding) fresh s ∧ Fences noBinding s true 1 s' ∧
      Runs (AnyStep noBinding) s' t ∧ Runs (AnyStep noBinding) t u ∧
      u.generation < t.generation ∧ ¬ u.Recorded 1 ∧ Admits noBinding u false 1 127000000 v := by
  have hruns : ∃ s s' t u v : Project Bool, ∃ written : Option Outcome,
      drive noBinding false fresh overtaken = some s ∧
      advance noBinding s true (.step 125000000) = some (s', written) ∧
      drive noBinding false s' replaced = some t ∧ drive noBinding false t revived = some u ∧
      advance noBinding u false (.step 127000000) = some (v, some (.allowed true)) ∧
      (s.processes true).stage.fences = some 1 ∧ u.generation < t.generation ∧ ¬ u.Recorded 1 ∧
      (u.processes false).stage.admits = some 1 :=
    ⟨_, _, _, _, _, _, rfl, rfl, rfl, rfl, rfl, by decide +kernel⟩
  obtain ⟨s, s', t, u, v, written, hs, hs', ht, hu, hv, hfences, hless, hgone, hadmits⟩ := hruns
  exact ⟨s, s', t, u, v, (drive_run hs).1, ⟨hfences, _, _, hs'⟩, (drive_run ht).1, (drive_run hu).1,
    hless, hgone, hadmits, hv⟩

/-- Where the worker stays stopped, the record stays and generation 1 is not accepted again. -/
theorem lease_fencing_replaced :
    ∃ s s' t : Project Bool, Fences noBinding s true 1 s' ∧ Runs (SteadyStep noBinding) s' t ∧
      t.generation = 2 ∧ t.Recorded 1 ∧
      ∀ q clock t', Steady t q (.step clock) → ¬ Admits noBinding t q 1 clock t' := by
  have hruns : ∃ s s' t : Project Bool, ∃ written : Option Outcome,
      drive noBinding true fresh overtaken = some s ∧
      advance noBinding s true (.step 125000000) = some (s', written) ∧
      drive noBinding true s' replaced = some t ∧
      (s.processes true).stage.fences = some 1 ∧ t.generation = 2 :=
    ⟨_, _, _, _, rfl, rfl, rfl, by decide +kernel⟩
  obtain ⟨s, s', t, written, hs, hs', ht, hfences, htwo⟩ := hruns
  have hrun := (drive_run ht).2 rfl
  have hfence : Fences noBinding s true 1 s' := ⟨hfences, _, _, hs'⟩
  obtain ⟨hrecorded, hrefused⟩ :=
    (lease_fencing fresh_initial ((drive_run hs).2 rfl)).2 true 1 s' hfence t hrun
  exact ⟨s, s', t, hfence, hrun, htwo, hrecorded, hrefused⟩

end Saipen.Watchdog
