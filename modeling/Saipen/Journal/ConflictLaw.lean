import Saipen.Journal.Conflict
import Saipen.Journal.Codec
import Saipen.Journal.Sample

/-! # What a refused resolution leaves behind

A roll-forward that is refused is undone exactly. Two refusals come later: the verifier's, whose undo
puts STATE back as the text that was read and not as the bytes that stood there, and the transfer of
the seat, after which nothing is undone at all. -/

namespace Saipen

open FileTree DurableState

variable {w : Resolver} {j : Journal} {record : Record} {d d₀ before : Disk}

/-! ### Rules for the effects -/

theorem wp_atomicWrite {path : Path} {c : Content} {Q : Except Exn Unit → Disk → Prop}
    {C : Disk → Prop} : wp (atomicWrite path c) Q C d ↔
      match writeFile c path d with
      | some u => C d ∧ Q (.ok ()) u
      | none => Q (.error (.value "unsafe topology")) d := by
  rw [atomicWrite, wp_attempt]
  cases writeFile c path d <;> rfl

theorem wp_catchOs {α : Type} {m : Engine α} {Q : Except Exn (Except String α) → Disk → Prop}
    {C : Disk → Prop} : wp (catchOs m) Q C d ↔
      wp m (fun r u => match r with
        | .ok a => Q (.ok (.ok a)) u
        | .error (.os detail) => Q (.ok (.error detail)) u
        | .error e => Q (.error e) u) C d := by
  rw [catchOs, wp_rescue, wp_bind]
  refine ⟨fun h => wp_mono h (fun r u hr => ?_) fun _ h => h,
    fun h => wp_mono h (fun r u hr => ?_) fun _ h => h⟩
  · rcases r with (_ | _ | _ | _ | _) | a
    · exact (wp_pure _).mp hr
    · exact (wp_raise _).mp hr
    · exact (wp_raise _).mp hr
    · exact (wp_raise _).mp hr
    · exact (wp_raise _).mp hr
    · exact (wp_pure _).mp hr
  · rcases r with (_ | _ | _ | _ | _) | a
    · exact (wp_pure _).mpr hr
    · exact (wp_raise _).mpr hr
    · exact (wp_raise _).mpr hr
    · exact (wp_raise _).mpr hr
    · exact (wp_raise _).mpr hr
    · exact (wp_pure _).mpr hr

/-! ### The undo stack runs -/

/-- `restore` does what the stack says, when the stack can be put back. -/
theorem restore_wp {stack : UndoStack} {u : Disk} (h : undo stack d = some u) :
    wp (restore stack) (fun r v => r = .ok () ∧ v = u) (fun _ => True) d := by
  induction stack generalizing d with
  | nil =>
    obtain rfl := Option.some.inj h
    exact (wp_pure ()).mpr ⟨rfl, rfl⟩
  | cons e stack ih =>
    obtain ⟨path, prior⟩ := e
    rw [undo, Option.bind_eq_some_iff] at h
    obtain ⟨t, hstep, hrest⟩ := h
    cases prior with
    | some c =>
      rw [restore, wp_bind, atomicWrite, wp_attempt]
      rw [show writeFile c path d = some t from hstep]
      exact ⟨trivial, ih hrest⟩
    | none =>
      obtain rfl := Option.some.inj hstep
      rw [restore, wp_bind, suppressOs, wp_rescue, unlinkPath, wp_attempt]
      cases hu : unlink path d with
      | some t =>
        rw [hu, Option.getD_some] at hrest
        exact ⟨trivial, ih hrest⟩
      | none =>
        rw [hu, Option.getD_none] at hrest
        exact (wp_pure ()).mpr (ih hrest)

/-- Putting back and refusing: the answer is the refusal, on the disk the stack says. -/
theorem undoAll_wp {α : Type} {stack : UndoStack} {u : Disk} {answer : Resolution}
    {Q : Except Exn (Except Resolution α) → Disk → Prop} (h : undo stack d = some u)
    (hQ : Q (.ok (.error answer)) u) : wp (undoAll stack answer) Q (fun _ => True) d := by
  rw [undoAll]
  refine wp_seq (R := fun _ v => v = u) (wp_mono (restore_wp h) ?_ fun _ h => h) ?_
  · rintro r v ⟨rfl, rfl⟩
    exact rfl
  · rintro ⟨⟩ v rfl
    exact (wp_pure _).mpr hQ

/-! ### The completed tree -/

/-- The tree with the pending targets from an index on completed. -/
def Journal.completed (w : Resolver) (j : Journal) (before : Disk) :
    Nat → List TargetRecord → Disk → Option Disk
  | _, [], d => some d
  | index, t :: ts, d =>
    if t.duePending w before then
      match j.stagedContent w.env index t.path d with
      | .ok staged =>
        if w.env.hashBytes staged = t.afterHash then
          (writeFile staged (applyPath w.env t.path) d).bind (j.completed w before (index + 1) ts)
        else none
      | .error _ => none
    else j.completed w before (index + 1) ts d

/-- The targets a repair completes. -/
def dueTargets (w : Resolver) (before : Disk) (ts : List TargetRecord) : List TargetRecord :=
  ts.filter (·.duePending w before)

/-- What the roll-forward from an index on ends with: the completed tree and a stack that undoes it,
or the tree it began with. -/
def RolledForward (w : Resolver) (j : Journal) (before d₀ d : Disk) (index : Nat)
    (ts : List TargetRecord) (stack : UndoStack) (rolled : List String) :
    Except Exn (Except Resolution (UndoStack × List String)) → Disk → Prop
  | .ok (.ok (stack', rolled')), u => j.completed w before index ts d = some u ∧
      Undoes stack' d₀ u ∧ rolled' = rolled ++ (dueTargets w before ts).map (·.path) ∧
      ∀ q, q ∈ stack'.map Prod.fst ↔ q ∈ stack.map Prod.fst ∨
        ∃ t ∈ dueTargets w before ts, applyPath w.env t.path = q
  | .ok (.error answer), u => j.completed w before index ts d = none ∧ SameLeaves d₀ u ∧
      answer.ok = false
  | .error _, _ => j.completed w before index ts d = none

theorem completeTargets_wp {ts : List TargetRecord} {index : Nat} {stack : UndoStack}
    {rolled : List String} (hstack : Undoes stack d₀ d) :
    wp (j.completeTargets w before index ts stack rolled)
      (RolledForward w j before d₀ d index ts stack rolled) (fun _ => True) d := by
  induction ts generalizing index stack rolled d with
  | nil =>
    rw [Journal.completeTargets, wp_pure]
    exact ⟨rfl, hstack, by simp [dueTargets], fun q => by simp [dueTargets]⟩
  | cons t ts ih =>
    rw [Journal.completeTargets]
    by_cases hdue : t.duePending w before = true
    · have hpaths : dueTargets w before (t :: ts) = t :: dueTargets w before ts :=
        List.filter_cons_of_pos hdue
      obtain ⟨u, hundo, hsame⟩ := hstack.undo_same (SameLeaves.refl d)
      rw [if_pos hdue, wp_bind, wp_read]
      dsimp only
      cases hstaged : j.stagedContent w.env index t.path d with
      | error e =>
        have hnone : j.completed w before index (t :: ts) d = none := by
          rw [Journal.completed, if_pos hdue, hstaged]
        cases e with
        | os detail => exact undoAll_wp hundo ⟨hnone, hsame, rfl⟩
        | _ => exact (wp_raise _).mpr hnone
      | ok staged =>
        dsimp only
        by_cases hhash : w.env.hashBytes staged = t.afterHash
        · have hstep : j.completed w before index (t :: ts) d =
              (writeFile staged (applyPath w.env t.path) d).bind
                (j.completed w before (index + 1) ts) := by
            rw [Journal.completed, if_pos hdue, hstaged]
            exact if_pos hhash
          rw [if_pos hhash, wp_bind, wp_catchOs, wp_atomicWrite]
          cases hwrite : writeFile staged (applyPath w.env t.path) d with
          | none =>
            show j.completed w before index (t :: ts) d = none
            rw [hstep, hwrite, Option.bind_none]
          | some v =>
            rw [hwrite, Option.bind_some] at hstep
            refine ⟨trivial, wp_mono (ih (hstack.write hwrite)) (fun r u hr => ?_) fun _ h => h⟩
            rcases r with _ | _ | ⟨stack', rolled'⟩
            · exact hstep.trans hr
            · exact ⟨hstep.trans hr.1, hr.2⟩
            · obtain ⟨hcomp, hund, hrolled, hmem⟩ := hr
              refine ⟨hstep.trans hcomp, hund, by rw [hrolled, hpaths]; simp, fun q => ?_⟩
              rw [hmem q, hpaths, List.map_cons, List.mem_cons]
              simp only [List.mem_cons, exists_eq_or_imp]
              rw [or_comm (a := q = _), or_assoc, eq_comm (a := q)]
        · rw [if_neg hhash]
          refine undoAll_wp hundo ⟨?_, hsame, rfl⟩
          rw [Journal.completed, if_pos hdue, hstaged]
          exact if_neg hhash
    · have hpaths : dueTargets w before (t :: ts) = dueTargets w before ts :=
        List.filter_cons_of_neg hdue
      have hstep : j.completed w before index (t :: ts) d = j.completed w before (index + 1) ts d := by
        rw [Journal.completed, if_neg hdue]
      rw [if_neg hdue]
      refine wp_mono (ih hstack) (fun r u hr => ?_) fun _ h => h
      rcases r with _ | _ | ⟨stack', rolled'⟩
      · exact hstep.trans hr
      · exact ⟨hstep.trans hr.1, hr.2⟩
      · rw [RolledForward, hpaths]
        exact ⟨hstep.trans hr.1, hr.2⟩

/-! ### The repaired tree -/

/-- The errors the verifier finds in a tree. -/
def Record.verdict (w : Resolver) (r : Record) (d : Disk) : List String :=
  runVerifier w.env r.policy d (r.targets.map TargetRecord.changed) r.receiptMetadata.get

/-- The cursor that is written, and the tree with it. -/
def Cursor.write (d : Disk) : Cursor → Option (Cursor × Disk)
  | .refused _ => none
  | .kept detail => some (.kept detail, d)
  | .moved prior patched detail =>
      (writeFile (.text patched) statePath d).map fun u => (.moved prior patched detail, u)

/-- The tree a repair makes of the project, and what becomes of the cursor; `none` when the repair
does not come to the verifier. -/
def Journal.repaired (w : Resolver) (j : Journal) (record : Record) (d : Disk) :
    Option (Cursor × Disk) :=
  (j.completed w d 0 record.targets d).bind fun t =>
    if (unlanded w t ((dueTargets w d record.targets).map (·.path)) record.targets).isSome then none
    else
      match w.cursorOf t with
      | .ok cursor => cursor.write t
      | .error _ => none

/-- What the undo of a refused repair leaves: the tree it began with, but for STATE when the cursor
was moved and STATE was not rolled forward. -/
def Undone (w : Resolver) (record : Record) (d : Disk) : Cursor → Disk → Prop
  | .moved prior _ _, u =>
      ((∃ t ∈ dueTargets w d record.targets, applyPath w.env t.path = statePath) → SameLeaves d u) ∧
      ((¬ ∃ t ∈ dueTargets w d record.targets, applyPath w.env t.path = statePath) →
        SameBut statePath (.text prior) d u)
  | _, u => SameLeaves d u

theorem rederiveStateCursor_wp {Q : Except Exn Cursor → Disk → Prop} :
    wp w.rederiveStateCursor Q (fun _ => True) d ↔
      match w.cursorOf d with
      | .error e => Q (.error e) d
      | .ok (.moved prior patched detail) =>
        (match writeFile (.text patched) statePath d with
        | some u => Q (.ok (.moved prior patched detail)) u
        | none => Q (.error (.value "unsafe topology")) d)
      | .ok cursor => Q (.ok cursor) d := by
  rw [Resolver.rederiveStateCursor, wp_bind, wp_read]
  dsimp only
  cases w.cursorOf d with
  | error e => exact wp_raise e
  | ok cursor =>
    cases cursor with
    | moved prior patched detail =>
      dsimp only
      rw [wp_bind, wp_atomicWrite]
      cases writeFile (.text patched) statePath d with
      | none => rfl
      | some u => exact (and_iff_right trivial).trans (wp_pure _)
    | _ => exact wp_pure _

/-- What a repair ends with. -/
def Reconciled (w : Resolver) (j : Journal) (record : Record) (d : Disk) :
    Except Exn (Except Resolution Repair) → Disk → Prop
  | .ok (.ok _), u => ∃ c, j.repaired w record d = some (c, u) ∧ record.verdict w u = []
  | .ok (.error answer), u => answer.ok = false ∧
      (j.repaired w record d = none ∧ SameLeaves d u ∨
        ∃ c v, j.repaired w record d = some (c, v) ∧ record.verdict w v ≠ [] ∧ Undone w record d c u)
  | .error _, _ => j.repaired w record d = none

/-- The end of a repair behind the byte verification. -/
theorem verify_wp {c : Cursor} {u v : Disk} {stack : UndoStack} {rolled : List String}
    (hrep : j.repaired w record d = some (c, v)) (hundo : undo (c.undo ++ stack) v = some u)
    (hundone : Undone w record d c u) :
    wp ((match record.verdict w v with
      | [] => pure (.ok ⟨rolled, c.detail⟩)
      | errors => undoAll (c.undo ++ stack) (refusedRepair j.opId errors (c.undo ++ stack)) :
        Engine (Except Resolution Repair))) (Reconciled w j record d) (fun _ => True) v := by
  cases hv : record.verdict w v with
  | nil => exact (wp_pure _).mpr ⟨c, hrep, hv⟩
  | cons e es =>
    refine undoAll_wp hundo ⟨rfl, .inr ⟨c, v, hrep, ?_, hundone⟩⟩
    rw [hv]
    exact List.cons_ne_nil e es

theorem reconcileAndVerify_wp :
    wp (j.reconcileAndVerify w record d) (Reconciled w j record d) (fun _ => True) d := by
  rw [Journal.reconcileAndVerify, wp_bind]
  refine wp_mono (completeTargets_wp (Undoes.nil d)) (fun r t hr => ?_) fun _ h => h
  rcases r with e | answer | ⟨stack, rolled⟩
  · show j.repaired w record d = none
    rw [Journal.repaired, show j.completed w d 0 record.targets d = none from hr, Option.bind_none]
  · refine (wp_pure _).mpr ⟨hr.2.2, .inl ⟨?_, hr.2.1⟩⟩
    rw [Journal.repaired, hr.1, Option.bind_none]
  · obtain ⟨hcomp, hstack, hrolled, hmem⟩ := hr
    rw [List.nil_append] at hrolled
    subst hrolled
    simp only [List.map_nil, List.not_mem_nil, false_or] at hmem
    obtain ⟨u, hundo, hsame⟩ := hstack.undo_same (SameLeaves.refl t)
    dsimp only
    rw [wp_bind, wp_read]
    dsimp only
    cases hland : unlanded w t ((dueTargets w d record.targets).map (·.path)) record.targets with
    | some t' =>
      refine undoAll_wp hundo ⟨rfl, .inl ⟨?_, hsame⟩⟩
      rw [Journal.repaired, hcomp, Option.bind_some, hland]
      rfl
    | none =>
      have hrep : j.repaired w record d = match w.cursorOf t with
          | .ok cursor => cursor.write t
          | .error _ => none := by
        rw [Journal.repaired, hcomp, Option.bind_some, hland]
        rfl
      dsimp only
      rw [wp_bind, wp_catchOs, rederiveStateCursor_wp]
      cases hcursor : w.cursorOf t with
      | error e =>
        rw [hcursor] at hrep
        cases e with
        | os detail => exact undoAll_wp hundo ⟨rfl, .inl ⟨hrep, hsame⟩⟩
        | _ => exact hrep
      | ok cursor =>
        rw [hcursor] at hrep
        cases cursor with
        | refused reason => exact undoAll_wp hundo ⟨rfl, .inl ⟨hrep, hsame⟩⟩
        | kept detail =>
          dsimp only
          rw [wp_bind, wp_read]
          exact verify_wp hrep hundo hsame
        | moved prior patched detail =>
          dsimp only
          cases hwrite : writeFile (.text patched) statePath t with
          | none =>
            have hfail : Cursor.write t (.moved prior patched detail) = none := by
              rw [Cursor.write, hwrite, Option.map_none]
            exact hrep.trans hfail
          | some v =>
            dsimp only
            rw [wp_bind, wp_read]
            have hmoved : Cursor.write t (.moved prior patched detail) =
                some (.moved prior patched detail, v) := by
              rw [Cursor.write, hwrite, Option.map_some]
            -- the text that was read goes back first, then the rest of the stack
            obtain ⟨v', hv'⟩ := writeFile_of_fileAt (.text prior) (fileAt_writeFile hwrite)
            have hbut : SameBut statePath (.text prior) t v' := by
              intro p
              rw [leafAt_writeFile hv', leafAt_writeFile hwrite]
              split <;> rfl
            obtain ⟨u', hu', hin, hout⟩ := hstack.undo_but hbut
            refine verify_wp (u := u') (hrep.trans hmoved) ?_ ⟨fun h => hin ((hmem _).mpr h),
              fun h => hout fun hq => h ((hmem _).mp hq)⟩
            show (writeFile (.text prior) statePath v).bind (undo stack) = some u'
            rw [hv', Option.bind_some, hu']

/-! ### What the repaired tree holds -/

/-- A leaf at no completed target's path is as it was. -/
theorem completed_leafAt {index : Nat} {ts : List TargetRecord} {u : Disk} {p : Path}
    (h : j.completed w before index ts d = some u)
    (hp : ∀ t ∈ dueTargets w before ts, applyPath w.env t.path ≠ p) : leafAt p u = leafAt p d := by
  induction ts generalizing index d with
  | nil =>
    obtain rfl := Option.some.inj h
    rfl
  | cons t ts ih =>
    have htail : ∀ t' ∈ dueTargets w before ts, applyPath w.env t'.path ≠ p := fun t' ht' =>
      hp t' (List.mem_filter.mpr ⟨List.mem_cons_of_mem t (List.mem_filter.mp ht').1,
        (List.mem_filter.mp ht').2⟩)
    rw [Journal.completed] at h
    split at h
    · next hdue =>
      split at h
      · next staged _ =>
        split at h
        · obtain ⟨v, hv, hrest⟩ := Option.bind_eq_some_iff.mp h
          rw [ih hrest htail, leafAt_writeFile hv, if_neg]
          exact (hp t (List.mem_filter.mpr ⟨List.mem_cons_self, hdue⟩)).symm
        · cases h
      · cases h
    · exact ih h htail

/-- A completed target holds bytes of its planned hash. -/
theorem completed_fileAt {index : Nat} {ts : List TargetRecord} {u : Disk} {t : TargetRecord}
    (h : j.completed w before index ts d = some u)
    (howned : ∀ t ∈ ts, (ownedTargetPath w.env t.path).isSome = true)
    (hnodup : (ts.map fun t => ownedTargetPath w.env t.path).Nodup)
    (ht : t ∈ dueTargets w before ts) :
    ∃ staged, w.env.hashBytes staged = t.afterHash ∧
      fileAt (applyPath w.env t.path) u = some staged := by
  induction ts generalizing index d with
  | nil => cases ht
  | cons t' ts ih =>
    rw [List.map_cons, List.nodup_cons] at hnodup
    have howned' : ∀ t ∈ ts, (ownedTargetPath w.env t.path).isSome = true := fun t ht =>
      howned t (List.mem_cons_of_mem t' ht)
    rw [Journal.completed] at h
    split at h
    · next hdue =>
      rw [dueTargets, List.filter_cons_of_pos hdue, List.mem_cons] at ht
      split at h
      · next staged _ =>
        split at h
        · next hhash =>
          obtain ⟨v, hv, hrest⟩ := Option.bind_eq_some_iff.mp h
          rcases ht with rfl | ht
          · refine ⟨staged, hhash, ?_⟩
            -- no later target is written to the same object
            rw [fileAt_congr (completed_leafAt hrest fun t' ht' heq => ?_), fileAt_writeFile hv]
            have hmem := (List.mem_filter.mp ht').1
            obtain ⟨p, hp⟩ := Option.isSome_iff_exists.mp (howned t List.mem_cons_self)
            obtain ⟨p', hp'⟩ := Option.isSome_iff_exists.mp (howned' t' hmem)
            rw [applyPath, applyPath, hp, hp', Option.getD_some, Option.getD_some] at heq
            exact hnodup.1 (List.mem_map.mpr ⟨t', hmem, by rw [hp, hp', heq]⟩)
          · exact ih hrest howned' hnodup.2 ht
        · cases h
      · cases h
    · next hdue =>
      rw [dueTargets, List.filter_cons_of_neg hdue] at ht
      exact ih h howned' hnodup.2 ht

/-- A write or the removal of a file is not due where its planned bytes stand. -/
theorem not_due_of_fileAt {t : TargetRecord} {staged : Content} (ht : t.targetAction ≠ .deleteDir)
    (howned : (ownedTargetPath w.env t.path).isSome = true)
    (hhash : w.env.hashBytes staged = t.afterHash)
    (hfile : fileAt (applyPath w.env t.path) d = some staged) : t.duePending w d = false := by
  obtain ⟨p, hp⟩ := Option.isSome_iff_exists.mp howned
  rw [applyPath, hp, Option.getD_some, fileAt_eq_some] at hfile
  have hlive : liveHash w.env d t = t.afterHash := by
    rw [liveHash, hp]
    show liveToken w.env t.targetAction (probe p d) = t.afterHash
    rw [hfile]
    cases haction : t.targetAction with
    | write => exact hhash
    | deleteFile => exact hhash
    | deleteDir => exact absurd haction ht
  rw [TargetRecord.duePending, hlive, classifyTarget, if_pos rfl]
  rfl

/-- A due target that is not the project's to notice: it is STATE's own, stands under `recovery/`, or
plans to remove a directory where the bytes it is given stand as a file. -/
def TargetRecord.Unnoticed (w : Resolver) (d u : Disk) (t : TargetRecord) : Prop :=
  applyPath w.env t.path = statePath ∨ recoveryPath <+: applyPath w.env t.path ∨
    (t.targetAction = .deleteDir ∧
      fileAt (applyPath w.env t.path) u = fileAt (applyPath w.env t.path) d)

/-- The cursor's write touches no leaf but STATE. -/
theorem Cursor.write_leafAt {c c' : Cursor} {t u : Disk} (h : c.write t = some (c', u)) {p : Path}
    (hp : p ≠ statePath) : leafAt p u = leafAt p t := by
  cases c with
  | refused reason => cases h
  | kept detail =>
    obtain ⟨-, rfl⟩ := Prod.mk.inj (Option.some.inj h)
    rfl
  | moved prior patched detail =>
    obtain ⟨v, hv, heq⟩ := Option.map_eq_some_iff.mp h
    obtain ⟨-, rfl⟩ := Prod.mk.inj heq
    rw [leafAt_writeFile hv, if_neg hp]

/-- A repair shows outside `recovery/` unless every target it completes goes unnoticed and STATE comes
out as it was. -/
theorem sameFiles_repaired_iff {c : Cursor} {u : Disk} (hrec : record.Owned w.env)
    (h : j.repaired w record d = some (c, u)) :
    SameFiles d u ↔ (∀ t ∈ dueTargets w d record.targets, t.Unnoticed w d u) ∧
      fileAt statePath u = fileAt statePath d := by
  obtain ⟨t, hcomp, hrest⟩ := Option.bind_eq_some_iff.mp h
  have hwrite : ∃ c', Cursor.write t c' = some (c, u) := by
    split at hrest
    · cases hrest
    · split at hrest
      · next c' _ => exact ⟨c', hrest⟩
      · cases hrest
  obtain ⟨c', hwrite⟩ := hwrite
  have hrecovery : ¬ recoveryPath <+: statePath := by decide
  constructor
  · refine fun hsame => ⟨fun t' ht' => ?_, hsame statePath hrecovery⟩
    by_cases hstate : applyPath w.env t'.path = statePath
    · exact .inl hstate
    by_cases hunder : recoveryPath <+: applyPath w.env t'.path
    · exact .inr (.inl hunder)
    have hfile := hsame _ hunder
    refine .inr (.inr ⟨?_, hfile⟩)
    by_contra haction
    obtain ⟨staged, hhash, hstaged⟩ := completed_fileAt hcomp hrec.resolves hrec.nodup ht'
    rw [fileAt_congr (Cursor.write_leafAt hwrite hstate), hstaged] at hfile
    have hmem := List.mem_filter.mp ht'
    have hnot := not_due_of_fileAt haction (hrec.resolves t' hmem.1) hhash hfile.symm
    rw [hnot] at hmem
    cases hmem.2
  · rintro ⟨hdue, hstate⟩ p hp
    rcases eq_or_ne p statePath with rfl | hne
    · exact hstate
    by_cases hpath : ∃ t' ∈ dueTargets w d record.targets, applyPath w.env t'.path = p
    · obtain ⟨t', ht', rfl⟩ := hpath
      rcases hdue t' ht' with h' | h' | h'
      · exact absurd h' hne
      · exact absurd h' hp
      · exact h'.2
    · rw [fileAt_congr (Cursor.write_leafAt hwrite hne)]
      exact fileAt_congr (completed_leafAt hcomp fun t' ht' heq => hpath ⟨t', ht', heq⟩)

/-! ### The transfer and the settlement -/

/-- The seat has to be transferred and the transfer fails, leaving `u`. -/
def Resolver.TransferFails (w : Resolver) (agent : String) (d u : Disk) : Prop :=
  w.handoverDue agent d = .ok true ∧ (w.handoverAgent agent d).failure = some u

/-- What the transfer ends with. -/
def Transferred (w : Resolver) (agent : String) (d : Disk) :
    Except Exn (Option Resolution) → Disk → Prop
  | .ok (some answer), u => answer.ok = false ∧ w.TransferFails agent d u
  | _, _ => ¬ ∃ u, w.TransferFails agent d u

theorem transferSeat_wp {agent : String} :
    wp (j.transferSeat w agent) (Transferred w agent d) (fun _ => True) d := by
  rw [Journal.transferSeat, wp_bind, wp_read]
  dsimp only
  cases hdue : w.handoverDue agent d with
  | error e =>
    refine (wp_raise e).mpr ?_
    rintro ⟨u, h, -⟩
    rw [hdue] at h
    cases h
  | ok due =>
    cases due with
    | false =>
      refine (wp_pure _).mpr ?_
      rintro ⟨u, h, -⟩
      rw [hdue] at h
      cases h
    | true =>
      dsimp only
      cases hrun : w.handoverAgent agent d with
      | done u =>
        dsimp only
        rw [wp_bind, wp_effect]
        refine ⟨trivial, (wp_pure _).mpr ?_⟩
        rintro ⟨v, -, h⟩
        rw [hrun] at h
        cases h
      | raised detail u =>
        dsimp only
        rw [wp_bind, wp_effect]
        exact ⟨trivial, (wp_pure _).mpr ⟨rfl, hdue, by rw [hrun]; rfl⟩⟩
      | refused message u =>
        dsimp only
        rw [wp_bind, wp_effect]
        exact ⟨trivial, (wp_pure _).mpr ⟨rfl, hdue, by rw [hrun]; rfl⟩⟩

/-- Every run satisfies the assertion that says nothing. -/
theorem wp_true {α : Type} (m : Engine α) : wp m (fun _ _ => True) (fun _ => True) d :=
  ⟨fun _ _ => trivial, trivial⟩

/-- A sequence that ends in a program with a post-condition, whatever comes before. -/
theorem wp_then {α β : Type} {m : Engine α} {f : α → Engine β} {P : β → Prop}
    (h : ∀ a u, wp (f a) (fun r _ => ∀ b, r = .ok b → P b) (fun _ => True) u) :
    wp (m >>= f) (fun r _ => ∀ b, r = .ok b → P b) (fun _ => True) d := by
  rw [wp_bind]
  refine wp_mono (wp_true m) (fun r u _ => ?_) fun _ h => h
  cases r with
  | error e =>
    intro b hb
    cases hb
  | ok a => exact h a u

/-- A settlement that returns says so. -/
theorem settleResolved_wp {choice : ResolutionClass} {agent : String} {applied skipped : List String}
    {repair : Option Repair} :
    wp (j.settleResolved w record choice agent applied skipped repair)
      (fun r _ => ∀ answer, r = .ok answer → answer.ok = true) (fun _ => True) d := by
  rw [Journal.settleResolved]
  refine wp_then fun _ u => wp_then fun _ v => wp_then fun s _ => wp_then fun cleanup _ => ?_
  refine (wp_pure _).mpr ?_
  rintro answer h
  rw [← Except.ok.inj h]

/-- What the resolution of a repaired project ends with. -/
def SettledConflict (w : Resolver) (agent : String) (d : Disk) (r : Except Exn Resolution)
    (u : Disk) : Prop :=
  (∀ v, w.TransferFails agent d v → (∃ answer, r = .ok answer ∧ answer.ok = false) ∧ u = v) ∧
    ((¬ ∃ v, w.TransferFails agent d v) → ∀ answer, r = .ok answer → answer.ok = true)

theorem settleConflict_wp {choice : ResolutionClass} {agent : String} {applied skipped : List String}
    {repair : Option Repair} :
    wp (j.settleConflict w record choice agent applied skipped repair)
      (SettledConflict w agent d) (fun _ => True) d := by
  rw [Journal.settleConflict, wp_bind]
  refine wp_mono transferSeat_wp (fun r u hr => ?_) fun _ h => h
  rcases r with e | _ | answer
  · exact ⟨fun v hv => absurd ⟨v, hv⟩ hr, fun _ answer h => by cases h⟩
  · refine wp_mono settleResolved_wp (fun r u h => ?_) fun _ h => h
    exact ⟨fun v hv => absurd ⟨v, hv⟩ hr, fun _ => h⟩
  · refine (wp_pure _).mpr ⟨fun v hv => ⟨⟨answer, rfl, hr.1⟩, ?_⟩, fun hnone => absurd ⟨u, hr.2⟩ hnone⟩
    exact Option.some.inj (hr.2.2.symm.trans hv.2)

/-! ### The resolution -/

/-- What a resolution by repair ends with. -/
def Resolved (w : Resolver) (j : Journal) (record : Record) (agent : String) (d : Disk)
    (r : Except Exn Resolution) (u : Disk) : Prop :=
  (j.repaired w record d = none → ∀ answer, r = .ok answer → SameLeaves d u) ∧
    ∀ c v, j.repaired w record d = some (c, v) →
      (record.verdict w v ≠ [] →
        (∃ answer, r = .ok answer ∧ answer.ok = false) ∧ Undone w record d c u) ∧
      (record.verdict w v = [] → SettledConflict w agent v r u)

theorem resolveRecord_wp {agent : String} :
    wp (j.resolveRecord w record .reconcile agent) (Resolved w j record agent d) (fun _ => True) d := by
  have hstable : record.targets.find? (fun t => decide (liveHash w.env d t ≠ liveHash w.env d t)) =
      none := by
    rw [List.find?_eq_none]
    simp
  rw [Journal.resolveRecord, wp_bind, wp_read]
  dsimp only
  rw [wp_bind, wp_read]
  dsimp only
  rw [hstable]
  dsimp only
  rw [if_pos rfl, wp_bind]
  refine wp_mono reconcileAndVerify_wp (fun r u hr => ?_) fun _ h => h
  rcases r with e | answer | repair
  · -- an exception says nothing, and the tree was not repaired
    refine ⟨fun _ answer h => (by cases h), fun c v hrep => ?_⟩
    rw [show j.repaired w record d = none from hr] at hrep
    cases hrep
  · refine (wp_pure _).mpr ?_
    obtain ⟨hok, ⟨hnone, hsame⟩ | ⟨c, v, hrep, hverdict, hundone⟩⟩ := hr
    · refine ⟨fun _ _ _ => hsame, fun c v hrep => ?_⟩
      rw [hnone] at hrep
      cases hrep
    · refine ⟨fun hnone => ?_, fun c' v' hrep' => ?_⟩
      · rw [hnone] at hrep
        cases hrep
      · obtain ⟨rfl, rfl⟩ := Prod.mk.inj (Option.some.inj (hrep.symm.trans hrep'))
        exact ⟨fun _ => ⟨⟨answer, rfl, hok⟩, hundone⟩, fun hnil => absurd hnil hverdict⟩
  · obtain ⟨c, hrep, hverdict⟩ := hr
    refine wp_mono settleConflict_wp (fun r v hsettled => ?_) fun _ h => h
    refine ⟨fun hnone => ?_, fun c' v' hrep' => ?_⟩
    · rw [hnone] at hrep
      cases hrep
    · obtain ⟨rfl, rfl⟩ := Prod.mk.inj (Option.some.inj (hrep.symm.trans hrep'))
      exact ⟨fun hne => absurd hverdict hne, fun _ => hsettled⟩

/-- The record that is resolved is decoded from the directory of the journal. -/
theorem conflictGate_decode {opId resolution : String} {choice : ResolutionClass}
    (h : w.conflictGate opId resolution d = .ok (j, record, choice)) :
    j.decode w.env false d = .ok record ∧ ResolutionClass.ofName? resolution = some choice := by
  unfold Resolver.conflictGate at h
  split at h
  · cases h
  split at h
  · split at h
    · cases h
    next r hdecode =>
    split at h
    · split at h
      · split at h
        · cases h
        next choice' hchoice =>
        split at h
        · cases h
        · obtain ⟨rfl, hrest⟩ := Prod.mk.inj (Except.ok.inj h)
          obtain ⟨rfl, rfl⟩ := Prod.mk.inj hrest
          exact ⟨hdecode, hchoice⟩
      · cases h
    · cases h
  · cases h

/-- The project comes to the verifier of a resolution by repair as `u`. -/
def Resolver.Repairs (w : Resolver) (opId : String) (d : Disk) (record : Record) (c : Cursor)
    (u : Disk) : Prop :=
  ∃ j, w.conflictGate opId "reconcile" d = .ok (j, record, .reconcile) ∧
    j.repaired w record d = some (c, u)

/-- The two late refusals are not reached with something to undo. A project the verifier refuses had
its cursor where it was, or rolled STATE forward, or has a STATE whose bytes are the encoding of its
text. A transfer fails only where the repair goes unnoticed. -/
structure Resolver.LeavesNoTrace (w : Resolver) (opId agent : String) (d : Disk) : Prop where
  verdict : ∀ record prior patched detail u,
    w.Repairs opId d record (.moved prior patched detail) u → record.verdict w u ≠ [] →
      (∃ t ∈ dueTargets w d record.targets, applyPath w.env t.path = statePath) ∨
        fileAt statePath d = some (.text prior)
  transfer : ∀ record c u v, w.Repairs opId d record c u → record.verdict w u = [] →
    w.TransferFails agent u v →
      (∀ t ∈ dueTargets w d record.targets, t.Unnoticed w d u) ∧
        fileAt statePath u = fileAt statePath d

/-- A refused repair is undone without a trace exactly when the cursor's snapshot is exact. -/
theorem sameFiles_undone_iff {c : Cursor} {u : Disk} (h : Undone w record d c u) :
    SameFiles d u ↔ ∀ prior patched detail, c = .moved prior patched detail →
      (∃ t ∈ dueTargets w d record.targets, applyPath w.env t.path = statePath) ∨
        fileAt statePath d = some (.text prior) := by
  have hleaves : SameLeaves d u → SameFiles d u := fun h p _ => fileAt_congr (h p)
  cases c with
  | moved prior patched detail =>
    have hrecovery : ¬ recoveryPath <+: statePath := by decide
    by_cases hdue : ∃ t ∈ dueTargets w d record.targets, applyPath w.env t.path = statePath
    · exact iff_of_true (hleaves (h.1 hdue)) fun _ _ _ _ => .inl hdue
    · have hbut := h.2 hdue
      have hstate : fileAt statePath u = some (.text prior) := by
        rw [fileAt_eq_some_leafAt, hbut statePath, if_pos rfl]
      constructor
      · rintro hsame prior' patched' detail' heq
        obtain ⟨rfl, -, -⟩ := Cursor.moved.inj heq
        exact .inr ((hsame statePath hrecovery).symm.trans hstate)
      · intro hprior p _
        rcases hprior prior patched detail rfl with h' | h'
        · exact absurd h' hdue
        rcases eq_or_ne p statePath with rfl | hne
        · rw [hstate, h']
        · exact fileAt_congr (by rw [hbut p, if_neg hne])
  | _ => exact iff_of_true (hleaves h) fun _ _ _ heq => by cases heq

/-- **A refused resolution leaves no trace, up to its two late refusals.** Every resolution by repair
that is refused leaves the files outside `recovery/` byte for byte as they were, if and only if
neither late refusal is reached with something to undo. -/
theorem refused_resolution_leaves_no_trace (w : Resolver) (opId agent : String) (d : Disk) :
    (∀ answer u, (resolveConflictLocked w opId "reconcile" agent).Yields d answer u →
        answer.ok = false → SameFiles d u) ↔ w.LeavesNoTrace opId agent d := by
  cases hgate : w.conflictGate opId "reconcile" d with
  | error answer =>
    have hnone : ∀ record c u, ¬ w.Repairs opId d record c u := by
      rintro record c u ⟨j, h, -⟩
      rw [hgate] at h
      cases h
    refine iff_of_true (fun answer' u h _ => ?_)
      ⟨fun record _ _ _ u h => absurd h (hnone record _ u), fun record c u _ h => absurd h (hnone record c u)⟩
    rw [resolveConflictLocked, Prog.yields_read_bind, hgate, Prog.yields_pure] at h
    rw [h.2]
    exact fun _ _ => rfl
  | ok found =>
    obtain ⟨j, record, choice⟩ := found
    obtain ⟨hdecode, hchoice⟩ := conflictGate_decode hgate
    obtain rfl : ResolutionClass.reconcile = choice := Option.some.inj hchoice
    have howned := decodeEntry_owned hdecode
    have hrun : ∀ answer u, (resolveConflictLocked w opId "reconcile" agent).Yields d answer u ↔
        (j.resolveRecord w record .reconcile agent).Yields d answer u := by
      intro answer u
      rw [resolveConflictLocked, Prog.yields_read_bind, hgate]
    have hrepairs : ∀ record' c u, w.Repairs opId d record' c u ↔
        record' = record ∧ j.repaired w record d = some (c, u) := by
      intro record' c u
      constructor
      · rintro ⟨j', hgate', hrep⟩
        obtain ⟨rfl, hpair⟩ := Prod.mk.inj (Except.ok.inj (hgate'.symm.trans hgate))
        obtain ⟨rfl, -⟩ := Prod.mk.inj hpair
        exact ⟨rfl, hrep⟩
      · rintro ⟨rfl, hrep⟩
        exact ⟨j, hgate, hrep⟩
    have hresolved : wp (j.resolveRecord w record .reconcile agent) (Resolved w j record agent d)
        (fun _ => True) d := resolveRecord_wp
    obtain ⟨-, hnone, hsome⟩ := hresolved
    constructor
    · intro hall
      refine ⟨?_, ?_⟩
      · intro record' prior patched detail u hrep hverdict
        obtain ⟨rfl, hrep⟩ := (hrepairs _ _ _).mp hrep
        obtain ⟨⟨answer, hres, hok⟩, hundone⟩ := (hsome _ _ hrep).1 hverdict
        have hsame := hall answer _ ((hrun _ _).mpr ⟨hres, rfl⟩) hok
        exact (sameFiles_undone_iff hundone).mp hsame prior patched detail rfl
      · intro record' c u v hrep hverdict hfails
        obtain ⟨rfl, hrep⟩ := (hrepairs _ _ _).mp hrep
        obtain ⟨⟨answer, hres, hok⟩, hfinal⟩ := ((hsome _ _ hrep).2 hverdict).1 v hfails
        have hsame := hall answer _ ((hrun _ _).mpr ⟨hres, hfinal⟩) hok
        -- the failed transfer wrote nothing, so it is the repair that has to go unnoticed
        refine (sameFiles_repaired_iff howned hrep).mp fun p hp => ?_
        rw [← w.handover_quiet agent u v hfails.2 p hp, hsame p hp]
    · rintro hquiet answer u hyields hok
      obtain ⟨hres, rfl⟩ := (hrun _ _).mp hyields
      cases hrep : j.repaired w record d with
      | none => exact fun p _ => fileAt_congr (hnone hrep answer hres p)
      | some found =>
        obtain ⟨c, v⟩ := found
        by_cases hverdict : record.verdict w v = []
        · have hsettled := (hsome c v hrep).2 hverdict
          by_cases hfails : ∃ l, w.TransferFails agent v l
          · obtain ⟨l, hl⟩ := hfails
            have hrepaired := (sameFiles_repaired_iff howned hrep).mpr
              (hquiet.transfer record c v l ((hrepairs _ _ _).mpr ⟨rfl, hrep⟩) hverdict hl)
            intro p hp
            rw [(hsettled.1 l hl).2, w.handover_quiet agent v l hl.2 p hp, hrepaired p hp]
          · rw [hsettled.2 hfails answer hres] at hok
            cases hok
        · refine (sameFiles_undone_iff ((hsome c v hrep).1 hverdict).2).mpr ?_
          rintro prior patched detail rfl
          exact hquiet.verdict record prior patched detail v ((hrepairs _ _ _).mpr ⟨rfl, hrep⟩) hverdict

/-! ### A transfer that is refused -/

/-- A world whose seat is not handed over. -/
noncomputable def deafResolver : Resolver where
  env := sampleEnvironment
  printable := Text.samplePrintable
  docText := fun _ _ => ""
  stateContractErrors := fun _ => []
  handoverAgent := fun _ d => .refused "active claim is live" d
  handover_quiet := by
    rintro agent d u h p _
    rw [Option.some.inj h]
  now := "0001-01-01T00:00:00Z"

/-- A conflict that still has to write `b`. -/
def stuckRecord : Record where
  opId := "op-1"
  status := .conflict
  operation := "checkpoint"
  semanticPayloadHash := "payload"
  createdAt := "0001-01-01T00:00:00Z"
  agent := "agent"
  projectIdentity := "/work"
  projectLineage := .absent
  verificationPolicy := some .none
  preconditions := some []
  readPreconditions := some []
  receiptMetadata := .absent
  progressIndex := 0
  targets := [{ path := "b", role := .generic, action := some .write, beforeHash := "",
                afterHash := "3e23e8160039594a", applied := false, content := none, extra := [] }]
  extra := []

/-- The project of the conflict; another agent has the seat. -/
def stuckDisk : Disk :=
  [(".saipen", .dir [("STATE.md", .file (.text "---\nagent: other\n---\n")),
    ("recovery", .dir [("ops", .dir [("op-1", .dir
      [("0_3e23e8160039594a.staged", .file (.text "b")),
        ("operation.json", .file (.json stuckRecord.toJson))])])])])]

/-- The transfer is refused behind the repair, and the file the repair wrote stays. -/
theorem refused_transfer_keeps_repair : ∃ answer u,
    (resolveConflictLocked deafResolver "op-1" "reconcile" "agent").Yields stuckDisk answer u ∧
      answer.ok = false ∧ ¬ SameFiles stuckDisk u := by
  have hrun : (resolveConflictLocked deafResolver "op-1" "reconcile" "agent" stuckDisk).result =
      .ok { ok := false, code := .validationFailed, opId := "op-1", uncommitted := true,
            detail := "conflict resolution blocked: required ownership handover to 'agent' failed " ++
              "before settlement: active claim is live" } := rfl
  refine ⟨_, _, ⟨hrun, rfl⟩, rfl, fun h => ?_⟩
  have hb : fileAt ["b"] (resolveConflictLocked deafResolver "op-1" "reconcile" "agent" stuckDisk).final =
      some (.text "b") := rfl
  cases hb.symm.trans (h ["b"] (by decide))

end Saipen
