import Saipen.Journal.Codec
import Saipen.Journal.Effects
import Saipen.Journal.Publish
import Saipen.Journal.Sample

/-! # The advice on a conflict against recovery

`conflictDiverges` answers from `inspectOp`: it compares every target with the hash its applied flag
names. Recovery classifies the targets three ways, checks their order and the read dependencies,
replays the pending suffix and runs the verifier. `Settleable` says when all of that succeeds, and
the advice is right exactly when the two tests agree. -/

namespace Saipen

open FileTree DurableState Checks

variable {env : Environment} {j : Journal} {d d' : Disk}

/-! ### Replaying the pending suffix -/

/-- One pending step can be carried out: a write has its exact staged bytes, a file is there to be
unlinked, a directory is there and empty. -/
def Journal.CarriesOut (env : Environment) (j : Journal) (index : Nat) (t : TargetRecord)
    (d d' : Disk) : Prop :=
  match t.targetAction with
  | .write => ∃ c, j.stagedContent env index t.path d = .ok c ∧ env.hashBytes c = t.afterHash ∧
      writeFile c (applyPath env t.path) d = some d'
  | .deleteFile => unlink (applyPath env t.path) d = some d'
  | .deleteDir => rmdir (applyPath env t.path) d = some d'

/-- The pending suffix of a plan, each step followed by its progress mark. -/
inductive Journal.Replays (env : Environment) (j : Journal) :
    Nat → List TargetRecord → Disk → Disk → Prop
  | nil {index d} : Replays env j index [] d d
  | cons {index t ts d d₁ d₂ d'} (step : j.CarriesOut env index t d d₁)
      (marked : (j.writeProgress .applying (some (index + 1)) (some index)).Yields d₁ () d₂)
      (rest : Replays env j (index + 1) ts d₂ d') : Replays env j index (t :: ts) d d'

theorem refuseTarget_not_none {code : Code} {ts : List TargetRecord} {index frontier : Nat}
    {detail : String} : ¬ (do
      let refused ← j.refuseTarget env code ts index frontier detail
      pure (some refused) : Engine (Option Result)).Yields d none d' := by
  intro h
  obtain ⟨res, u, -, h⟩ := Prog.yields_bind.mp h
  have := (Prog.yields_pure.mp h).1
  cases this

theorem unlinkPath_yields {p : Path} : (unlinkPath p).Yields d () d' ↔ unlink p d = some d' :=
  yields_attempt_option

theorem rmdirPath_yields {p : Path} : (rmdirPath p).Yields d () d' ↔ rmdir p d = some d' :=
  yields_attempt_option

/-- Applying one target goes through exactly when its step can be carried out. -/
theorem Journal.applyPending_yields_none {record : Record} {frontier index : Nat}
    {t : TargetRecord} : (j.applyPending env record frontier index t).Yields d none d' ↔
      j.CarriesOut env index t d d' := by
  have done (m : Engine Unit) : (do m; pure none : Engine (Option Result)).Yields d none d' ↔
      m.Yields d () d' := by
    rw [Prog.yields_seq]
    simp [Prog.yields_pure]
  rw [Journal.applyPending, Prog.yields_rescue_of_not]
  swap
  · -- the handler refuses or raises again
    intro e u
    cases e with
    | os detail => exact refuseTarget_not_none
    | _ => exact Prog.yields_raise
  unfold Journal.pendingAction Journal.CarriesOut
  cases t.targetAction with
  | write =>
    simp only [Prog.yields_read_bind]
    cases j.stagedContent env index t.path d with
    | error e => simpa using Prog.yields_raise
    | ok c =>
      simp only [Except.ok.injEq, exists_eq_left']
      by_cases hc : env.hashBytes c = t.afterHash
      · rw [if_pos hc, done]
        simp only [hc, true_and]
        exact atomicWrite_yields
      · rw [if_neg hc]
        simp only [hc, false_and, iff_false]
        exact refuseTarget_not_none
  | deleteFile => exact (done _).trans unlinkPath_yields
  | deleteDir => exact (done _).trans rmdirPath_yields

/-- A mark that is not terminal is a write of the sidecar. -/
theorem Journal.mark_yields {status : Status} (hs : status.settled = false)
    {progressIndex targetIndex : Option Nat} {pending : List String} :
    (j.mark env status progressIndex targetIndex).Yields d pending d' ↔
      (j.writeProgress status progressIndex targetIndex).Yields d () d' ∧ pending = [] := by
  unfold Journal.mark
  rw [Prog.yields_seq, hs]
  simp [Prog.yields_pure, eq_comm]

/-- Rolling forward goes through exactly when the suffix can be replayed. -/
theorem Journal.rollForward_yields_none {record : Record} {frontier : Nat}
    {ts : List TargetRecord} : ∀ {index : Nat} {d : Disk},
      (j.rollForward env record frontier index ts).Yields d none d' ↔
        j.Replays env index ts d d' := by
  induction ts with
  | nil =>
    intro index d
    rw [Journal.rollForward, Prog.yields_pure]
    constructor
    · rintro ⟨-, rfl⟩
      exact .nil
    · intro h
      cases h
      exact ⟨rfl, rfl⟩
  | cons t ts ih =>
    intro index d
    rw [Journal.rollForward, Prog.yields_bind]
    constructor
    · rintro ⟨stopped, d₁, hstep, h⟩
      cases stopped with
      | some refused =>
        have := (Prog.yields_pure.mp h).1
        cases this
      | none =>
        obtain ⟨pending, d₂, hmark, hrest⟩ := Prog.yields_bind.mp h
        exact .cons (Journal.applyPending_yields_none.mp hstep)
          ((Journal.mark_yields rfl).mp hmark).1 (ih.mp hrest)
    · intro h
      cases h with
      | cons step marked rest =>
        exact ⟨none, _, Journal.applyPending_yields_none.mpr step, Prog.yields_bind.mpr
          ⟨[], _, (Journal.mark_yields rfl).mpr ⟨marked, rfl⟩, ih.mpr rest⟩⟩

/-! ### What settles -/

/-- The program answers success. -/
def Succeeds (m : Engine Result) (d : Disk) : Prop := ∃ res d', m.Yields d res d' ∧ res.ok = true

theorem succeeds_pure {res : Result} : Succeeds (pure res) d ↔ res.ok = true := by
  constructor
  · rintro ⟨res', d', h, hok⟩
    obtain ⟨rfl, -⟩ := Prog.yields_pure.mp h
    exact hok
  · intro hok
    exact ⟨res, d, Prog.yields_pure.mpr ⟨rfl, rfl⟩, hok⟩

theorem not_succeeds_raise {e : Exn} : ¬ Succeeds (Prog.raise e) d := fun ⟨_, _, h, _⟩ =>
  Prog.yields_raise h

theorem succeeds_bind {α : Type} {m : Engine α} {f : α → Engine Result} :
    Succeeds (m >>= f) d ↔ ∃ a d', m.Yields d a d' ∧ Succeeds (f a) d' := by
  simp only [Succeeds, Prog.yields_bind]
  constructor
  · rintro ⟨res, d', ⟨a, u, hm, hf⟩, hok⟩
    exact ⟨a, u, hm, res, d', hf, hok⟩
  · rintro ⟨a, u, hm, res, d', hf, hok⟩
    exact ⟨res, d', ⟨a, u, hm, hf⟩, hok⟩

theorem succeeds_read_bind {f : Disk → Engine Result} :
    Succeeds (Prog.read >>= f) d ↔ Succeeds (f d) d := by
  simp only [Succeeds, Prog.yields_read_bind]

theorem not_succeeds_refuse {code : Code} {detail : String} :
    ¬ Succeeds (j.refuse env code detail) d := by
  rintro ⟨res, d', h, hok⟩
  obtain ⟨pending, u, -, h⟩ := Prog.yields_bind.mp h
  obtain ⟨rfl, -⟩ := Prog.yields_pure.mp h
  cases hok

theorem refuseTarget_ok {code : Code} {ts : List TargetRecord} {index frontier : Nat}
    {detail : String} {res : Result}
    (h : (j.refuseTarget env code ts index frontier detail).Yields d res d') : res.ok = false := by
  obtain ⟨pending, u, -, h⟩ := Prog.yields_bind.mp h
  obtain ⟨v, w, -, h⟩ := Prog.yields_bind.mp h
  obtain ⟨rfl, -⟩ := Prog.yields_pure.mp h
  rfl

theorem not_succeeds_refuseTarget {code : Code} {ts : List TargetRecord} {index frontier : Nat}
    {detail : String} : ¬ Succeeds (j.refuseTarget env code ts index frontier detail) d := by
  rintro ⟨res, d', h, hok⟩
  rw [refuseTarget_ok h] at hok
  cases hok

/-- What stops a target is a refusal. -/
theorem Journal.applyPending_refused {record : Record} {frontier index : Nat} {t : TargetRecord}
    {res : Result} (h : (j.applyPending env record frontier index t).Yields d (some res) d') :
    res.ok = false := by
  have refused {code : Code} {detail : String} {u : Disk}
      (h : (do
        let refused ← j.refuseTarget env code record.targets index frontier detail
        pure (some refused) : Engine (Option Result)).Yields u (some res) d') : res.ok = false := by
    obtain ⟨res', v, hr, h⟩ := Prog.yields_bind.mp h
    obtain rfl := Option.some.inj (Prog.yields_pure.mp h).1
    exact refuseTarget_ok hr
  have done {m : Engine Unit} {u : Disk} :
      ¬ (do m; pure none : Engine (Option Result)).Yields u (some res) d' := by
    intro h
    obtain ⟨v, -, h⟩ := Prog.yields_seq.mp h
    have := (Prog.yields_pure.mp h).1
    cases this
  rcases Prog.yields_rescue.mp h with h | ⟨e, u, -, h⟩
  · unfold Journal.pendingAction at h
    cases ha : t.targetAction with
    | write =>
      rw [ha] at h
      simp only [Prog.yields_read_bind] at h
      split at h
      · exact absurd h Prog.yields_raise
      · split_ifs at h
        · exact absurd h done
        · exact refused h
    | deleteFile =>
      rw [ha] at h
      exact absurd h done
    | deleteDir =>
      rw [ha] at h
      exact absurd h done
  · cases e with
    | os detail => exact refused h
    | _ => exact absurd h Prog.yields_raise

theorem Journal.rollForward_refused {record : Record} {frontier : Nat} {ts : List TargetRecord}
    {res : Result} : ∀ {index : Nat} {d : Disk},
      (j.rollForward env record frontier index ts).Yields d (some res) d' → res.ok = false := by
  induction ts with
  | nil =>
    intro index d h
    have := (Prog.yields_pure.mp h).1
    cases this
  | cons t ts ih =>
    intro index d h
    obtain ⟨stopped, d₁, hstep, h⟩ := Prog.yields_bind.mp h
    cases stopped with
    | some refused =>
      obtain rfl := Option.some.inj (Prog.yields_pure.mp h).1
      exact applyPending_refused hstep
    | none =>
      obtain ⟨pending, d₂, -, hrest⟩ := Prog.yields_bind.mp h
      exact ih hrest

/-- The terminal marks can be written. -/
def Journal.Terminates (env : Environment) (j : Journal) (d : Disk) : Prop :=
  ∃ d₁ d₂ pending, (j.writeProgress .verified none none).Yields d () d₁ ∧
    (j.markStatus env .committed).Yields d₁ pending d₂

/-- Every target stands at its planned hash and the registered verifier accepts. -/
structure Verified (env : Environment) (r : Record) (d : Disk) : Prop where
  bytes : ∀ t ∈ r.targets, liveHash env d t = t.afterHash
  verifier : runVerifier env r.policy d (r.targets.map TargetRecord.changed)
    r.receiptMetadata.get = []

theorem Journal.succeeds_commit {changed : List String} {recovered : Bool} :
    Succeeds (j.commit env changed recovered) d ↔ j.Terminates env d := by
  unfold Journal.commit Journal.Terminates
  simp only [succeeds_bind, succeeds_pure, and_true]
  constructor
  · rintro ⟨_, d₁, h₁, pending, d₂, h₂⟩
    exact ⟨d₁, d₂, pending, ((Journal.mark_yields rfl).mp h₁).1, h₂⟩
  · rintro ⟨d₁, d₂, pending, h₁, h₂⟩
    exact ⟨[], d₁, (Journal.mark_yields rfl).mpr ⟨h₁, rfl⟩, pending, d₂, h₂⟩

/-- The end of recovery succeeds exactly when it verifies and the terminal marks go through. -/
theorem Journal.succeeds_finish {r : Record} :
    Succeeds (j.finish env r) d ↔ Verified env r d ∧ j.Terminates env d := by
  unfold Journal.finish
  rw [succeeds_read_bind]
  cases hb : verifyTargetBytes env d r.targets with
  | some t =>
    simp only
    refine iff_of_false not_succeeds_refuse fun h => ?_
    have hne := List.find?_some hb
    exact of_decide_eq_true hne (h.1.bytes t (List.mem_of_find?_eq_some hb))
  | none =>
    have hbytes : ∀ t ∈ r.targets, liveHash env d t = t.afterHash := by
      intro t ht
      have := List.find?_eq_none.mp hb t ht
      simpa using this
    simp only
    cases hv : runVerifier env r.policy d (r.targets.map TargetRecord.changed)
        r.receiptMetadata.get with
    | nil =>
      simp only
      rw [Journal.succeeds_commit]
      exact ⟨fun h => ⟨⟨hbytes, hv⟩, h⟩, fun h => h.2⟩
    | cons error errors =>
      refine iff_of_false not_succeeds_refuse fun h => ?_
      have := hv.symm.trans h.1.verifier
      cases this

/-- The bookkeeping repair of recovery, when the sidecar needs it. -/
def Journal.Reconciles (j : Journal) (r : Record) (frontier : Nat) (d d' : Disk) : Prop :=
  if needsReconcile r frontier (readProgressSidecar (j.files d)) then
    (j.reconcileProgress .applying frontier ((frontier : Int) - 1)).Yields d () d'
  else d = d'

/-- From a frontier on the record can be completed: the bookkeeping repaired, the pending suffix
replayed, the result verified and the terminal marks written. -/
def Journal.Completes (env : Environment) (j : Journal) (r : Record) (frontier : Nat) (d : Disk) :
    Prop :=
  ∃ d₁ d₂, j.Reconciles r frontier d d₁ ∧
    j.Replays env frontier (r.targets.drop frontier) d₁ d₂ ∧ Verified env r d₂ ∧
    j.Terminates env d₂

theorem Journal.succeeds_complete {r : Record} {frontier : Nat} :
    Succeeds (j.complete env r frontier) d ↔ j.Completes env r frontier d := by
  have tail (k : Option Result → Engine Result) (hrefused : ∀ refused, k (some refused) = pure refused)
      (hnone : k none = j.finish env r) (d₁ : Disk) :
      Succeeds (j.rollForward env r frontier frontier (r.targets.drop frontier) >>= k) d₁ ↔ ∃ d₂,
        j.Replays env frontier (r.targets.drop frontier) d₁ d₂ ∧ Verified env r d₂ ∧
          j.Terminates env d₂ := by
    rw [succeeds_bind]
    constructor
    · rintro ⟨stopped, d₂, hroll, h⟩
      cases stopped with
      | some refused =>
        rw [hrefused] at h
        have hok := succeeds_pure.mp h
        rw [Journal.rollForward_refused hroll] at hok
        cases hok
      | none =>
        rw [hnone] at h
        exact ⟨d₂, Journal.rollForward_yields_none.mp hroll, Journal.succeeds_finish.mp h⟩
    · rintro ⟨d₂, hroll, h⟩
      refine ⟨none, d₂, Journal.rollForward_yields_none.mpr hroll, ?_⟩
      rw [hnone]
      exact Journal.succeeds_finish.mpr h
  unfold Journal.complete Journal.Completes Journal.Reconciles
  rw [succeeds_read_bind]
  by_cases h : needsReconcile r frontier (readProgressSidecar (j.files d)) = true
  · simp only [h, if_true]
    rw [succeeds_bind]
    constructor
    · rintro ⟨_, d₁, hrec, hrest⟩
      obtain ⟨d₂, hrest⟩ := (tail _ (fun _ => rfl) rfl d₁).mp hrest
      exact ⟨d₁, d₂, hrec, hrest⟩
    · rintro ⟨d₁, d₂, hrec, hrest⟩
      exact ⟨(), d₁, hrec, (tail _ (fun _ => rfl) rfl d₁).mpr ⟨d₂, hrest⟩⟩
  · simp only [h, Bool.false_eq_true, if_false]
    refine (tail _ (fun _ => rfl) rfl d).trans ⟨?_, ?_⟩
    · rintro ⟨d₂, hrest⟩
      exact ⟨d, d₂, rfl, hrest⟩
    · rintro ⟨d₁, d₂, rfl, hrest⟩
      exact ⟨d₂, hrest⟩

/-! ### The verdict of a conflict -/

/-- Nothing stands in the way of rolling a record forward: no target in a third state, none
materialized out of order, no dependency changed. -/
structure Unobstructed (env : Environment) (d : Disk) (r : Record) : Prop where
  noConflict : ∀ c ∈ classifications env d r.targets, c ≠ .conflict
  inOrder : ∀ e ∈ ((classifications env d r.targets).zip r.targets).drop
    (prefixLength (classifications env d r.targets)), e.1 = .alreadyApplied → e.2.isNoop = true
  fresh : ∀ e ∈ r.readDependencies, dependencyHash env d e.1 e.2 = e.2

theorem firstConflict_eq_none {cs : List Classification} :
    firstConflict cs = none ↔ ∀ c ∈ cs, c ≠ .conflict := by
  simp [firstConflict]

theorem firstOutOfOrder_eq_none {cs : List Classification} {ts : List TargetRecord} :
    firstOutOfOrder cs ts = none ↔ ∀ e ∈ (cs.zip ts).drop (prefixLength cs),
      e.1 = .alreadyApplied → e.2.isNoop = true := by
  simp [firstOutOfOrder]

theorem firstStale_eq_none {deps : List (String × String)} :
    firstStale env d deps = none ↔ ∀ e ∈ deps, dependencyHash env d e.1 e.2 = e.2 := by
  simp [firstStale]

/-- A conflict rolls forward exactly when it is unobstructed. -/
theorem recoveryVerdict_conflict {r : Record} (hr : r.status = .conflict) {n : Nat} :
    recoveryVerdict env d r = .rollForward n ↔
      Unobstructed env d r ∧ n = prefixLength (classifications env d r.targets) := by
  unfold recoveryVerdict
  simp only [hr, reduceCtorEq, false_and, if_false]
  cases h1 : firstConflict (classifications env d r.targets) with
  | some i =>
    simp only [reduceCtorEq, false_iff]
    rintro ⟨h, -⟩
    rw [firstConflict_eq_none.mpr h.noConflict] at h1
    cases h1
  | none =>
    cases h2 : firstOutOfOrder (classifications env d r.targets) r.targets with
    | some i =>
      simp only [reduceCtorEq, false_iff]
      rintro ⟨h, -⟩
      rw [firstOutOfOrder_eq_none.mpr h.inOrder] at h2
      cases h2
    | none =>
      cases h3 : firstStale env d r.readDependencies with
      | some e =>
        simp only [reduceCtorEq, false_iff]
        rintro ⟨h, -⟩
        rw [firstStale_eq_none.mpr h.fresh] at h3
        cases h3
      | none =>
        simp only [Verdict.rollForward.injEq]
        constructor
        · rintro rfl
          exact ⟨⟨firstConflict_eq_none.mp h1, firstOutOfOrder_eq_none.mp h2,
            firstStale_eq_none.mp h3⟩, rfl⟩
        · rintro ⟨-, rfl⟩
          rfl

variable {gitRecovery : Journal → Record → Engine Result}

/-- Recovery of a record in CONFLICT succeeds exactly when it is no release, is unobstructed and can
be completed. -/
structure RollsForward (env : Environment) (j : Journal) (d : Disk) (r : Record) : Prop where
  operation : r.operation ≠ "release"
  unobstructed : Unobstructed env d r
  completes : j.Completes env r (prefixLength (classifications env d r.targets)) d

theorem Journal.succeeds_recoverRecord {r : Record} (hr : r.status = .conflict) :
    Succeeds (j.recoverRecord env gitRecovery r) d ↔ RollsForward env j d r := by
  unfold Journal.recoverRecord
  have hns : Status.settled .conflict = false := rfl
  simp only [hr, reduceCtorEq, if_false, hns, Bool.false_eq_true]
  by_cases hop : r.operation = "release"
  · refine iff_of_false ?_ fun h => h.operation hop
    simp only [hop, if_true, Journal.recoverRelease, hr, true_or]
    simp [succeeds_pure]
  · simp only [hop, if_false]
    rw [succeeds_read_bind]
    cases hv : recoveryVerdict env d r with
    | rollForward n =>
      obtain ⟨hu, rfl⟩ := (recoveryVerdict_conflict hr).mp hv
      simp only
      rw [Journal.succeeds_complete]
      exact ⟨fun h => ⟨hop, hu, h⟩, fun h => h.completes⟩
    | abort =>
      -- only a PREPARED record aborts
      exfalso
      unfold recoveryVerdict at hv
      simp only [hr, reduceCtorEq, false_and, if_false] at hv
      split at hv
      · cases hv
      · split at hv
        · cases hv
        · split at hv <;> cases hv
    | _ =>
      refine iff_of_false ?_ fun h => ?_
      · first
        | exact not_succeeds_refuseTarget
        | exact not_succeeds_refuse
      · have := (recoveryVerdict_conflict hr).mpr ⟨h.unobstructed, rfl⟩
        rw [hv] at this
        cases this

/-! ### Resuming an append intent -/

/-- A resumed intent has rewritten the manifest of the record it found and left the sidecar. -/
theorem Journal.resumeIntent_yields_true {r : Record} (hr : j.decode env false d = .ok r)
    (h : (j.resumeIntent env).Yields d (.ok true) d') :
    ∃ targets, probe j.manifest d' = .found (.file (.json (.obj (r.toDictWith targets)))) ∧
      probe j.progressFile d' = probe j.progressFile d := by
  have hresume : (j.resumeAppendIntent env).Yields d true d' := by
    rcases Prog.yields_rescue.mp h with h | ⟨e, u, -, h⟩
    · obtain ⟨b, u, hb, h⟩ := Prog.yields_bind.mp h
      obtain ⟨hb', rfl⟩ := Prog.yields_pure.mp h
      obtain rfl := Except.ok.inj hb'
      exact hb
    · cases e with
      | os detail => have := (Prog.yields_pure.mp h).1; cases this
      | value detail => have := (Prog.yields_pure.mp h).1; cases this
      | decode refused => have := (Prog.yields_pure.mp h).1; cases this
      | _ => exact absurd h Prog.yields_raise
  -- after the read the run is: entries, manifest, unlink of the intent
  have hread := Prog.yields_read_bind.mp hresume
  split at hread
  · exact absurd hread Prog.yields_raise
  · have := (Prog.yields_pure.mp hread).1
    cases this
  · next intent _ =>
    obtain ⟨record, d₁, hrec, hread⟩ := Prog.yields_bind.mp hread
    obtain ⟨d₂, hfinish, hread⟩ := Prog.yields_seq.mp hread
    obtain ⟨-, rfl⟩ := Prog.yields_pure.mp hread
    obtain ⟨rfl, rfl⟩ : r = record ∧ d = d₁ := by
      have := Prog.yields_read_bind.mp hrec
      rw [hr] at this
      exact Prog.yields_pure.mp this
    unfold Journal.finishAppendIntent at hfinish
    simp only at hfinish
    split_ifs at hfinish
    · exact absurd hfinish Prog.yields_raise
    · obtain ⟨targets, d₃, hentries, hfinish⟩ := Prog.yields_bind.mp hfinish
      obtain ⟨d₄, hman, hunlink⟩ := Prog.yields_seq.mp hfinish
      have hstaged : ∀ i c, StableAt (fun t => probe j.progressFile t = probe j.progressFile d)
          (j.dir ++ [stagedName env i c]) := fun i c =>
        stableAt_probe (apart_sibling (stagedName_ne env i c (by decide)).symm j.dir) _
      have hp₃ := (Journal.finishEntries_keeps hstaged _ _ _).yields rfl hentries
      have hp₄ := (atomicJson_keeps (stableAt_probe (apart_sibling (by decide) j.dir) _)).yields
        hp₃ hman
      have hm₄ : probe j.manifest d₄ = .found (.file (.json (.obj (r.toDictWith targets)))) := by
        obtain ⟨v, hv, hp, -⟩ := alter_eq_some (atomicWrite_yields.mp hman)
        split at hv
        · rw [hp, ← Option.some.inj hv]; rfl
        · rw [hp, ← Option.some.inj hv]; rfl
        · cases hv
      refine ⟨targets, ?_, ?_⟩
      · exact (suppressOs_keeps (unlinkPath_keeps
          (stableAt_probe (apart_sibling (by decide) j.dir) _))).yields hm₄ hunlink
      · exact (suppressOs_keeps (unlinkPath_keeps
          (stableAt_probe (apart_sibling (by decide) j.dir) _))).yields hp₄ hunlink

theorem Record.get_status_toDictWith (r : Record) (targets : List Dict) :
    Dict.get (r.toDictWith targets) "status" = some (.str r.status.name) := by
  rw [Record.toDictWith, Dict.get_set_ne _ (by decide), Record.get_status]

/-- A resumed intent does not change the status. -/
theorem Journal.resumed_status {r r' : Record} (hr : j.decode env false d = .ok r)
    (h : (j.resumeIntent env).Yields d (.ok true) d') (hr' : j.decode env false d' = .ok r') :
    r'.status = r.status := by
  obtain ⟨targets, hman, hprog⟩ := Journal.resumeIntent_yields_true hr h
  obtain ⟨raw, base, progress, -, -, hp, hm⟩ := decodeEntry_eq_ok.mp hr
  obtain ⟨raw', base', progress', hraw', hbase', hp', hm'⟩ := decodeEntry_eq_ok.mp hr'
  have hsame : progress = progress' := by
    have hlook : (j.files d').lookup "progress.json" = (j.files d).lookup "progress.json" := by
      rw [j.files_lookup, j.files_lookup]
      exact congrArg Probe.node hprog
    have : sidecarBytes (j.files d') = sidecarBytes (j.files d) := by
      unfold sidecarBytes
      rw [hlook]
    rw [this, hp] at hp'
    exact Except.ok.inj hp'
  subst hsame
  have hbase : base'.status = r.status := by
    rw [j.files_lookup, show probe (j.dir ++ ["operation.json"]) d' = _ from hman] at hraw'
    obtain rfl : Content.json (.obj (r.toDictWith targets)) = raw' := by
      simpa [Probe.node] using hraw'
    obtain ⟨D, hD, hrec⟩ := decodeManifest_eq_ok.mp hbase'
    obtain rfl : r.toDictWith targets = D := by simpa [Content.loads] using hD
    have hs := decodeStatus_eq_ok.mp (decodeRecord_eq_ok.mp hrec).status
    rw [Record.get_status_toDictWith] at hs
    have := congrArg Status.ofName? (Json.str.inj (Option.some.inj hs))
    simpa using this.symm
  exact mergeProgress_status hm hm' hbase

/-! ### The advice -/

/-- A conflict can be settled by recovery: the record belongs to the project, a pending append
intent can be finished, and what it leaves rolls forward. -/
structure Settleable (env : Environment) (j : Journal) (d : Disk) (r : Record) : Prop where
  dependencies : ∀ e ∈ r.readDependencies, (readDependencyPath env e.1).isSome = true
  bound : bindRecord env d r = .ok ()
  rolls : ∃ resumed d₁ r₁, (j.resumeIntent env).Yields d (.ok resumed) d₁ ∧
    (if resumed then j.decode env false d₁ = .ok r₁ else r₁ = r) ∧ RollsForward env j d₁ r₁

/-- Every target stands at the hash its applied flag names. -/
def AtFlags (env : Environment) (d : Disk) (r : Record) : Prop :=
  ∀ t ∈ r.targets, liveHash env d t = t.expectedHash

theorem Journal.succeeds_recoverBound {r : Record} (hr : j.decode env false d = .ok r)
    (hc : r.status = .conflict) : Succeeds (j.recoverBound env gitRecovery r) d ↔
      ∃ resumed d₁ r₁, (j.resumeIntent env).Yields d (.ok resumed) d₁ ∧
        (if resumed then j.decode env false d₁ = .ok r₁ else r₁ = r) ∧ RollsForward env j d₁ r₁ := by
  unfold Journal.recoverBound
  rw [succeeds_bind]
  constructor
  · rintro ⟨resumed, d₁, hres, h⟩
    cases resumed with
    | error e =>
      have := succeeds_pure.mp h
      cases this
    | ok resumed =>
      cases resumed with
      | false => exact ⟨false, d₁, r, hres, rfl, (Journal.succeeds_recoverRecord hc).mp h⟩
      | true =>
        simp only [succeeds_read_bind] at h
        split at h
        · have := succeeds_pure.mp h
          cases this
        · next r₁ hr₁ =>
          have hc₁ : r₁.status = .conflict := (Journal.resumed_status hr hres hr₁).trans hc
          exact ⟨true, d₁, r₁, hres, hr₁, (Journal.succeeds_recoverRecord hc₁).mp h⟩
  · rintro ⟨resumed, d₁, r₁, hres, hr₁, h⟩
    refine ⟨.ok resumed, d₁, hres, ?_⟩
    cases resumed with
    | false =>
      obtain rfl := hr₁
      exact (Journal.succeeds_recoverRecord hc).mpr h
    | true =>
      simp only [if_true] at hr₁
      simp only [succeeds_read_bind, hr₁]
      have hc₁ : r₁.status = .conflict := (Journal.resumed_status hr hres hr₁).trans hc
      exact (Journal.succeeds_recoverRecord hc₁).mpr h

/-- Recovery of an operation in CONFLICT succeeds exactly when it is settleable. -/
theorem succeeds_recoverLocked {opId : String} {r : Record} (hj : openJournal opId d = .ok j)
    (hex : j.exists' d = true) (hr : j.decode env false d = .ok r) (hc : r.status = .conflict) :
    Succeeds (recoverLocked env gitRecovery opId) d ↔ Settleable env j d r := by
  have howned := decodeEntry_owned hr
  have htargets : r.targets.all (fun t => (ownedTargetPath env t.path).isSome) = true :=
    List.all_eq_true.mpr howned.resolves
  unfold recoverLocked
  rw [succeeds_read_bind]
  simp only [hj, hex, if_true]
  constructor
  · intro h
    split at h
    · have := succeeds_pure.mp h
      cases this
    · next record hgate =>
      unfold Journal.gate at hgate
      simp only [bind_eq_ok, hr, Except.ok.injEq, exists_eq_left'] at hgate
      split_ifs at hgate with hp
      simp only [bind_eq_ok, pure_eq_ok] at hgate
      obtain ⟨_, hb, rfl⟩ := hgate
      refine ⟨?_, hb, (Journal.succeeds_recoverBound hr hc).mp h⟩
      rw [pathsOwned, htargets, Bool.true_and] at hp
      exact List.all_eq_true.mp hp
  · intro h
    have hp : pathsOwned env r = true := by
      rw [pathsOwned, htargets, Bool.true_and]
      exact List.all_eq_true.mpr h.dependencies
    have hgate : j.gate env d = .ok r := by
      unfold Journal.gate
      simp only [bind_eq_ok, hr, Except.ok.injEq, exists_eq_left', hp, if_true, pure_eq_ok]
      exact ⟨(), h.bound, trivial⟩
    simp only [hgate]
    exact (Journal.succeeds_recoverBound hr hc).mpr h.rolls

/-- The advice says "not diverged" exactly when every target is at the hash of its flag. -/
theorem conflictDiverges_eq_false {opId : String} {r : Record} (hj : openJournal opId d = .ok j)
    (hex : j.exists' d = true) (hr : j.decode env false d = .ok r) :
    conflictDiverges env opId d = false ↔ AtFlags env d r := by
  have howned := decodeEntry_owned hr
  have htargets : r.targets.all (fun t => (ownedTargetPath env t.path).isSome) = true :=
    List.all_eq_true.mpr howned.resolves
  have hinspect : inspectOp env opId d = .ok (conflictingLocations env d r) := by
    unfold inspectOp
    simp only [hj, hex, if_true, bind_eq_ok, hr, Except.ok.injEq, exists_eq_left', htargets]
    rfl
  unfold conflictDiverges AtFlags
  rw [hinspect]
  simp [conflictingLocations]

/-- Where the advice on a conflict and recovery agree: either every target is at the hash its applied
flag names and the operation is settleable, or some target is not and it is not. -/
inductive AdviceHolds (env : Environment) (j : Journal) (d : Disk) (r : Record) : Prop
  | settles (flags : AtFlags env d r) (settleable : Settleable env j d r)
  | refuses (target : TargetRecord) (mem : target ∈ r.targets)
      (off : liveHash env d target ≠ target.expectedHash) (blocked : ¬ Settleable env j d r)

/-- A record in CONFLICT that writes `a` and was planned against these dependencies. -/
def conflictRecord (dependencies : List (String × String)) : Record where
  opId := "op-1"
  status := .conflict
  operation := "note"
  semanticPayloadHash := "payload"
  createdAt := "0001-01-01T00:00:00Z"
  agent := "agent"
  projectIdentity := "/work"
  projectLineage := .absent
  verificationPolicy := some .none
  preconditions := some []
  readPreconditions := some dependencies
  receiptMetadata := .absent
  progressIndex := 0
  targets := [{ path := "a", role := .generic, action := some .write, beforeHash := "",
                afterHash := "ca978112ca1bbdca", applied := false, content := none, extra := [] }]
  extra := []

/-- A project whose file `b` stands beside the journal of that record. -/
def conflictDisk (dependencies : List (String × String)) : Disk :=
  [("b", .file (.text "b")),
    (".saipen", .dir [("recovery", .dir [("ops", .dir [("op-1", .dir
      [("0_ca978112ca1bbdca.staged", .file (.text "a")),
        ("operation.json", .file (.json (conflictRecord dependencies).toJson))])])])])]

/-- The journal of the record. -/
def conflictJournal : Journal := ⟨"op-1", opsPath ++ ["op-1"]⟩

/-- A stand-in for the release recovery, which no record here reaches. -/
def refuseRelease (j : Journal) (_ : Record) : Engine Result :=
  pure { ok := false, code := .conflict, opId := j.opId }

end Saipen
