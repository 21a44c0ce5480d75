import Saipen.FileTree.Leaf
import Saipen.Journal.Advice

/-! # Rolling forward, step by step

Recovery applies the pending suffix of a plan one target at a time, each followed by its progress
mark. `rollForward_wp` is the induction rule of that loop: an indexed invariant that every step
advances and no write of the sidecar disturbs holds in every state a crash can leave. The rest are
the facts the steps start from: what a verdict to roll forward says about each target, and that a
step changes the tree gently and at one path. -/

namespace Saipen

open FileTree DurableState

variable {env : Environment} {j : Journal} {d d' : Disk}

/-! ### The loop rule -/

section Loop

variable {record : Record} {frontier : Nat} {C P P' : Disk → Prop}

/-- A step was carried out or not: `P'` holds after it, `P` otherwise. -/
def Carried (P P' : Disk → Prop) : Except Exn (Option Result) → Disk → Prop
  | .ok none => P'
  | _ => P

/-- A refusal about a target writes the sidecar alone, and does not report that the target was
applied. -/
theorem refusedTarget_wp {code : Code} {index : Nat} {detail : String}
    (hmark : StableAt P j.progressFile) (hP : P d) (hC : ∀ u, P u → C u) :
    wp (do
      let refused ← j.refuseTarget env code record.targets index frontier detail
      pure (some refused) : Engine (Option Result)) (Carried P P') C d := by
  have hkeeps : (do
      let refused ← j.refuseTarget env code record.targets index frontier detail
      pure (some refused) : Engine (Option Result)).Keeps P :=
    Prog.Keeps.bind (Prog.Keeps.bind (j.mark_keeps hmark rfl none none) fun _ =>
      Prog.Keeps.bind Prog.Keeps.read fun _ => Prog.Keeps.pure _) fun _ => Prog.Keeps.pure _
  refine hkeeps.wp hP hC (fun res u hres hu => ?_) fun e u _ hu => hu
  cases res with
  | none => exact absurd hres refuseTarget_not_none
  | some refused => exact hu

/-- One effect at the path of a target: it is refused, or the step is carried out. -/
theorem effect_wp {f : Disk → Option Disk} {e : Exn} (hP : P d) (hC : ∀ u, P u → C u)
    (hstep : ∀ u, f d = some u → P' u) :
    wp (do
      Prog.attempt fun d => match f d with
        | some d' => .ok d'
        | none => .error e
      pure none : Engine (Option Result)) (Carried P P') C d := by
  rw [wp_bind, wp_attempt]
  cases hf : f d with
  | none => exact hP
  | some u => exact ⟨hC d hP, (wp_pure none).mpr (hstep u hf)⟩

theorem Journal.pendingAction_wp {index : Nat} {t : TargetRecord}
    (hmark : StableAt P j.progressFile) (hP : P d) (hC : ∀ u, P u → C u)
    (hstep : ∀ u, j.CarriesOut env index t d u → P' u) :
    wp (j.pendingAction env record frontier index t) (Carried P P') C d := by
  unfold Journal.pendingAction
  unfold Journal.CarriesOut at hstep
  cases ha : t.targetAction with
  | write =>
    simp only [ha] at hstep
    rw [wp_bind, wp_read]
    cases hs : j.stagedContent env index t.path d with
    | error e =>
      simp only [hs]
      exact (wp_raise e).mpr hP
    | ok c =>
      simp only [hs]
      by_cases hc : env.hashBytes c = t.afterHash
      · rw [if_pos hc]
        exact effect_wp hP hC fun u hu => hstep u ⟨c, hs, hc, hu⟩
      · rw [if_neg hc]
        exact refusedTarget_wp hmark hP hC
  | deleteFile =>
    simp only [ha] at hstep
    exact effect_wp hP hC hstep
  | deleteDir =>
    simp only [ha] at hstep
    exact effect_wp hP hC hstep

/-- One target: before its step `P` holds, after it `P'`, and a failure leaves `P`. -/
theorem Journal.applyPending_wp {index : Nat} {t : TargetRecord}
    (hmark : StableAt P j.progressFile) (hP : P d) (hC : ∀ u, P u → C u)
    (hstep : ∀ u, j.CarriesOut env index t d u → P' u) :
    wp (j.applyPending env record frontier index t) (Carried P P') C d := by
  rw [Journal.applyPending, wp_rescue]
  refine wp_mono (Journal.pendingAction_wp hmark hP hC hstep) (fun res u hu => ?_) fun _ h => h
  cases res with
  | ok stopped => exact hu
  | error e =>
    cases e with
    | os detail => exact refusedTarget_wp hmark hu hC
    | _ => exact (wp_raise _).mpr hu

/-- **The loop of recovery.** An indexed invariant that every step advances holds in every state the
loop can crash in, and the loop ends behind its last target or refuses. -/
theorem Journal.rollForward_wp {I : ℕ → Disk → Prop} (hmark : ∀ i, StableAt (I i) j.progressFile)
    (hstep : ∀ i t u u', record.targets[i]? = some t → frontier ≤ i → I i u →
      j.CarriesOut env i t u u' → I (i + 1) u') {ts : List TargetRecord} :
    ∀ {index : ℕ} {s : Disk}, record.targets.drop index = ts → frontier ≤ index →
      index ≤ record.targets.length → I index s →
      wp (j.rollForward env record frontier index ts)
        (fun res u => (∃ i, I i u) ∧ (res = .ok none → I record.targets.length u))
        (fun u => ∃ i, I i u) s := by
  induction ts with
  | nil =>
    intro index s hdrop _ hle hs
    have hlen : record.targets.length ≤ index := List.drop_eq_nil_iff.mp hdrop
    obtain rfl : index = record.targets.length := by omega
    exact (wp_pure _).mpr ⟨⟨_, hs⟩, fun _ => hs⟩
  | cons t ts ih =>
    intro index s hdrop hle hlen hs
    have ht : record.targets[index]? = some t := by
      rw [← List.head?_drop, hdrop, List.head?_cons]
    have htail : record.targets.drop (index + 1) = ts := by
      rw [← List.tail_drop, hdrop, List.tail_cons]
    rw [Journal.rollForward, wp_bind]
    refine wp_mono (Journal.applyPending_wp (hmark index) hs (fun u hu => ⟨index, hu⟩)
      fun u hu => hstep index t s u ht hle hs hu) (fun res u hu => ?_) fun _ h => h
    cases res with
    | error e => exact ⟨⟨index, hu⟩, fun h => by cases h⟩
    | ok stopped =>
      cases stopped with
      | some refused => exact (wp_pure _).mpr ⟨⟨index, hu⟩, fun h => by cases h⟩
      | none =>
        -- the mark writes the sidecar, which the invariant does not see
        refine (wp_bind _).mpr ((j.mark_keeps (hmark (index + 1)) rfl _ _).wp hu (fun v hv => ⟨_, hv⟩)
          (fun _ v _ hv => ?_) fun e v _ hv => ⟨⟨_, hv⟩, fun h => by cases h⟩)
        have hlt : index < record.targets.length := (List.getElem?_eq_some_iff.mp ht).1
        exact ih htail (Nat.le_succ_of_le hle) hlt hv

/-- Completing a record: the bookkeeping repaired, the loop, and the end, which keeps what every
stage of the loop implies. -/
theorem Journal.complete_wp {I : ℕ → Disk → Prop} {L : Disk → Prop}
    (hmark : ∀ i, StableAt (I i) j.progressFile)
    (hstep : ∀ i t u u', record.targets[i]? = some t → frontier ≤ i → I i u →
      j.CarriesOut env i t u u' → I (i + 1) u') (hlen : frontier ≤ record.targets.length)
    (hL : ∀ i u, I i u → L u) (hfinish : (j.finish env record).Keeps L) (hd : I frontier d) :
    wp (j.complete env record frontier) (fun _ u => L u) L d := by
  have loop (k : Option Result → Engine Result) (hrefused : ∀ refused, k (some refused) = pure refused)
      (hnone : k none = j.finish env record) (u : Disk) (hu : I frontier u) :
      wp (j.rollForward env record frontier frontier (record.targets.drop frontier) >>= k)
        (fun _ u => L u) L u := by
    refine (wp_bind _).mpr (wp_mono (Journal.rollForward_wp hmark hstep rfl le_rfl hlen hu)
      (fun res v hv => ?_) fun v ⟨i, hv⟩ => hL i v hv)
    obtain ⟨⟨i, hi⟩, hend⟩ := hv
    cases res with
    | error e => exact hL i v hi
    | ok stopped =>
      cases stopped with
      | some refused =>
        dsimp only
        rw [hrefused]
        exact (wp_pure _).mpr (hL i v hi)
      | none =>
        dsimp only
        rw [hnone]
        exact Prog.keeps_iff.mp hfinish v (hL _ v (hend rfl))
  unfold Journal.complete
  refine (wp_bind _).mpr (wp_read.mpr ?_)
  dsimp only
  split
  · refine (wp_bind _).mpr ((Journal.reconcileProgress_keeps (hmark frontier) _ _ _).wp hd
      (fun u hu => hL frontier u hu) (fun _ u _ hu => loop _ (fun _ => rfl) rfl u hu) fun e u _ hu => hL frontier u hu)
  · exact loop _ (fun _ => rfl) rfl d hd

end Loop

/-! ### The verdict to roll forward -/

/-- A verdict to roll forward says that nothing stands in the way. -/
theorem recoveryVerdict_rollForward {r : Record} {n : ℕ}
    (h : recoveryVerdict env d r = .rollForward n) :
    Unobstructed env d r ∧ n = prefixLength (classifications env d r.targets) := by
  unfold recoveryVerdict at h
  simp only at h
  split at h
  · cases h
  · next h1 =>
    split at h
    · cases h
    · next h2 =>
      split_ifs at h
      split at h
      · cases h
      · next h3 =>
        obtain rfl := Verdict.rollForward.inj h
        exact ⟨⟨firstConflict_eq_none.mp h1, firstOutOfOrder_eq_none.mp h2,
          firstStale_eq_none.mp h3⟩, rfl⟩

/-- The prefix has materialized. -/
theorem getElem?_of_lt_prefixLength {cs : List Classification} {i : ℕ} (h : i < prefixLength cs) :
    cs[i]? = some .alreadyApplied := by
  have hlt : i < cs.length := lt_of_lt_of_le h (List.takeWhile_prefix _).length_le
  have hget : (cs.takeWhile (· = .alreadyApplied))[i] = cs[i] :=
    (List.takeWhile_prefix _).getElem h
  have hall := List.all_eq_true.mp List.all_takeWhile _ (List.getElem_mem h)
  rw [hget] at hall
  rw [List.getElem?_eq_getElem hlt, of_decide_eq_true hall]

theorem prefixLength_le (cs : List Classification) : prefixLength cs ≤ cs.length :=
  (List.takeWhile_prefix _).length_le

theorem deferUnreached_length (earlier : List PurePath) (pcs : List (String × Classification)) :
    (deferUnreached earlier pcs).length = pcs.length := by
  induction pcs generalizing earlier with
  | nil => rfl
  | cons e pcs ih => simp only [deferUnreached, List.length_cons, ih]

theorem classifications_length (d : Disk) (ts : List TargetRecord) :
    (classifications env d ts).length = ts.length := by
  simp [classifications, deferUnreachedTargets, deferUnreached_length]

/-- What a deferral does to one target: nothing, or a conflict becomes pending because a path that
has not materialized lies below the target. -/
theorem deferUnreached_getElem? {pcs : List (String × Classification)} :
    ∀ {earlier : List PurePath} {i : ℕ} {path : String} {c : Classification},
      pcs[i]? = some (path, c) → ∃ c', (deferUnreached earlier pcs)[i]? = some c' ∧
        (c' = c ∨ (c = .conflict ∧ c' = .pending ∧
          ((∃ o ∈ earlier, (purePosixPath path).isParentOf o = true) ∨
            ∃ k q b b', k < i ∧ pcs[k]? = some (q, b) ∧
              (deferUnreached earlier pcs)[k]? = some b' ∧ b' ≠ .alreadyApplied ∧
              (purePosixPath path).isParentOf (purePosixPath q) = true))) := by
  induction pcs with
  | nil =>
    intro earlier i path c h
    simp at h
  | cons e pcs ih =>
    obtain ⟨q, b⟩ := e
    intro earlier i path c h
    cases i with
    | zero =>
      obtain ⟨rfl, rfl⟩ := Prod.mk.inj (Option.some.inj h)
      refine ⟨_, rfl, ?_⟩
      split_ifs with hdefer
      · obtain ⟨o, ho, hparent⟩ := List.any_eq_true.mp hdefer.2
        exact .inr ⟨hdefer.1, rfl, .inl ⟨o, ho, hparent⟩⟩
      · exact .inl rfl
    | succ i =>
      simp only [deferUnreached]
      generalize hb : (if b = .conflict ∧ earlier.any (purePosixPath q).isParentOf then
        Classification.pending else b) = b'
      obtain ⟨c', hc', hcase⟩ := @ih (if b' = .alreadyApplied then earlier
        else purePosixPath q :: earlier) _ _ _ h
      refine ⟨c', hc', hcase.imp_right fun ⟨h1, h2, h3⟩ => ⟨h1, h2, ?_⟩⟩
      rcases h3 with ⟨o, ho, hparent⟩ | ⟨k, p, a, a', hk, hpk, hak, hne, hparent⟩
      · split_ifs at ho with hb'
        · exact .inl ⟨o, ho, hparent⟩
        · -- the owner it lies above is this target, or an earlier one
          rcases List.mem_cons.mp ho with rfl | ho
          · exact .inr ⟨0, q, b, b', Nat.succ_pos i, rfl, rfl, hb', hparent⟩
          · exact .inl ⟨o, ho, hparent⟩
      · exact .inr ⟨k + 1, p, a, a', Nat.succ_lt_succ hk, hpk, hak, hne, hparent⟩

/-- The path of one target lies strictly below that of another. -/
def Below (env : Environment) (t owner : TargetRecord) : Prop :=
  ∃ a rest, applyPath env t.path = applyPath env owner.path ++ a :: rest

/-- A spelling whose pure parts are the path it resolves to: no `..` and no backslash on the way. -/
def PlainSpelling (env : Environment) (s : String) : Prop :=
  ownedTargetPath env s = some (purePosixPath s).parts

instance (s : String) : Decidable (PlainSpelling env s) :=
  inferInstanceAs (Decidable (_ = _))

/-- With plain spellings the owner test of the deferral is the order of the paths. -/
theorem below_of_isParentOf {t owner : TargetRecord} (ht : PlainSpelling env t.path)
    (ho : PlainSpelling env owner.path)
    (h : (purePosixPath owner.path).isParentOf (purePosixPath t.path) = true) :
    Below env t owner := by
  unfold PurePath.isParentOf at h
  obtain ⟨-, ⟨rest, hrest⟩, hne⟩ := of_decide_eq_true h
  unfold Below applyPath
  rw [ht, ho, Option.getD_some, Option.getD_some, ← hrest]
  cases rest with
  | nil => exact absurd (by simpa using hrest) hne
  | cons a rest => exact ⟨a, rest, rfl⟩

/-- A target that was in a third state and is not due yet: an earlier one below it has not
materialized. -/
def Deferred (env : Environment) (d : Disk) (r : Record) (i : ℕ) (t : TargetRecord) : Prop :=
  ∃ k u, k < i ∧ r.targets[k]? = some u ∧
    (classifications env d r.targets)[k]? ≠ some .alreadyApplied ∧ Below env u t

theorem classifyTarget_ne_conflict {current before after : String}
    (h : classifyTarget current before after ≠ .conflict) :
    current = after ∨ current = before := by
  unfold classifyTarget at h
  split_ifs at h with h1 h2
  · exact .inl h1
  · exact .inr h2
  · exact absurd rfl h

/-- Behind the materialized prefix an unobstructed target stands at its before-state, or it was
deferred. -/
theorem Unobstructed.pending {r : Record} (h : Unobstructed env d r)
    (hplain : ∀ t ∈ r.targets, PlainSpelling env t.path) {i : ℕ} {t : TargetRecord}
    (ht : r.targets[i]? = some t) (hi : prefixLength (classifications env d r.targets) ≤ i) :
    liveHash env d t = t.beforeHash ∨ Deferred env d r i t := by
  have hzip : (List.zip (r.targets.map (·.path)) (r.targets.map fun t =>
      classifyTarget (liveHash env d t) t.beforeHash t.afterHash))[i]? =
        some (t.path, classifyTarget (liveHash env d t) t.beforeHash t.afterHash) := by
    simp [List.getElem?_zip_eq_some, ht]
  obtain ⟨c', hc', hcase⟩ := @deferUnreached_getElem? _ [] _ _ _ hzip
  change (classifications env d r.targets)[i]? = some c' at hc'
  rcases hcase with rfl | ⟨-, -, hdefer⟩
  · -- the target classified as it stands, and it is no conflict
    have hne := h.noConflict _ (List.mem_of_getElem? hc')
    rcases classifyTarget_ne_conflict hne with hafter | hbefore
    · have hmem : (Classification.alreadyApplied, t) ∈
          ((classifications env d r.targets).zip r.targets).drop
            (prefixLength (classifications env d r.targets)) := by
        have happlied : classifyTarget (liveHash env d t) t.beforeHash t.afterHash =
            .alreadyApplied := by rw [classifyTarget, if_pos hafter]
        rw [happlied] at hc'
        refine List.mem_of_getElem? (i := i - prefixLength (classifications env d r.targets)) ?_
        rw [List.getElem?_drop, Nat.add_sub_cancel' hi]
        exact List.getElem?_zip_eq_some.mpr ⟨hc', ht⟩
      have hnoop := h.inOrder _ hmem rfl
      left
      rw [hafter]
      exact (of_decide_eq_true hnoop).symm
    · exact .inl hbefore
  · rcases hdefer with ⟨o, ho, -⟩ | ⟨k, q, b, b', hk, hkq, hkb, hne, hparent⟩
    · cases ho
    · right
      obtain ⟨hq, hb⟩ := List.getElem?_zip_eq_some.mp hkq
      rw [List.getElem?_map, Option.map_eq_some_iff] at hq
      obtain ⟨u, hu, rfl⟩ := hq
      refine ⟨k, u, hk, hu, ?_, below_of_isParentOf (hplain u (List.mem_of_getElem? hu))
        (hplain t (List.mem_of_getElem? ht)) hparent⟩
      change (classifications env d r.targets)[k]? = some b' at hkb
      rw [hkb]
      exact fun heq => hne (Option.some.inj heq)

/-- An unmaterialized target is not in the prefix. -/
theorem prefixLength_le_of_ne {cs : List Classification} {k : ℕ}
    (h : cs[k]? ≠ some .alreadyApplied) : prefixLength cs ≤ k := by
  by_contra hlt
  exact h (getElem?_of_lt_prefixLength (Nat.lt_of_not_le hlt))

/-! ### One step -/

/-- A step is one gentle change at the path of its target. -/
theorem Journal.CarriesOut.gentle {index : ℕ} {t : TargetRecord}
    (h : j.CarriesOut env index t d d') :
    ∃ mk f, Gentle f ∧ alter mk f (applyPath env t.path) d = some d' := by
  unfold Journal.CarriesOut at h
  split at h
  · obtain ⟨c, -, -, hw⟩ := h
    exact ⟨_, _, gentle_writeFile c, hw⟩
  · exact ⟨_, _, gentle_unlink, h⟩
  · exact ⟨_, _, gentle_rmdir, h⟩

/-- Only the removal of a directory can be carried out where a directory stands, and it leaves
nothing there. -/
theorem Journal.CarriesOut.of_isDirAt {index : ℕ} {t : TargetRecord}
    (h : j.CarriesOut env index t d d') (hdir : IsDirAt (applyPath env t.path) d) :
    t.targetAction = .deleteDir ∧ probe (applyPath env t.path) d' = .absent := by
  unfold Journal.CarriesOut at h
  split at h
  · obtain ⟨c, -, -, hw⟩ := h
    exact absurd hdir (writeFile_isFile hw).2
  · exact absurd hdir (unlink_absent h).2
  · next ha => exact ⟨ha, (rmdir_absent h).1⟩

/-- Different targets of a decoded record are applied at different paths. -/
theorem Record.Owned.applyPath_ne {r : Record} (h : r.Owned env) {i k : ℕ} {t u : TargetRecord}
    (ht : r.targets[i]? = some t) (hu : r.targets[k]? = some u) (hne : i ≠ k) :
    applyPath env t.path ≠ applyPath env u.path := by
  obtain ⟨p, hp⟩ := Option.isSome_iff_exists.mp (h.resolves t (List.mem_of_getElem? ht))
  obtain ⟨q, hq⟩ := Option.isSome_iff_exists.mp (h.resolves u (List.mem_of_getElem? hu))
  intro heq
  unfold applyPath at heq
  rw [hp, hq, Option.getD_some, Option.getD_some] at heq
  obtain ⟨hi, -⟩ := List.getElem?_eq_some_iff.mp ht
  apply hne
  refine (List.getElem?_inj (by simpa using hi) h.nodup).mp ?_
  rw [List.getElem?_map, List.getElem?_map, ht, hu, Option.map_some, Option.map_some, hp, hq, heq]

end Saipen
