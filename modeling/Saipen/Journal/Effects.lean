import Saipen.Journal.Codec
import Saipen.Journal.Mutation

/-! # Which paths a journal method touches

Every durable effect of the engine changes the node at one path. A property of the tree that no
change at those paths disturbs is kept by the whole method, in every state a crash can leave. -/

namespace Saipen

open FileTree DurableState Checks

variable {env : Environment} {K : Disk → Prop}

/-- No change at the path disturbs `K`. -/
def StableAt (K : Disk → Prop) (q : Path) : Prop :=
  ∀ mk f s t, alter mk f q s = some t → K s → K t

/-- What is apart from a path is not disturbed there. -/
theorem stableAt_probe {p q : Path} (h : Apart p q) (x : Probe Content) :
    StableAt (fun t => probe p t = x) q :=
  fun _ _ _ _ ht hs => (probe_alter_of_apart ht h).trans hs

theorem stableAt_and {L : Disk → Prop} {q : Path} (hK : StableAt K q) (hL : StableAt L q) :
    StableAt (fun t => K t ∧ L t) q :=
  fun mk f s t ht hs => ⟨hK mk f s t ht hs.1, hL mk f s t ht hs.2⟩

/-! ### File operations -/

/-- An attempt made of one optional change keeps what the change keeps. -/
theorem keeps_attempt_option {f : Disk → Option Disk} {e : Exn}
    (h : ∀ s t, f s = some t → K s → K t) :
    (Prog.attempt (fun d => match f d with
      | some d' => .ok d'
      | none => .error e) : Engine Unit).Keeps K := by
  refine Prog.Keeps.attempt fun s t hst hs => ?_
  cases hf : f s with
  | none => simp [hf] at hst
  | some t' =>
    obtain rfl : t' = t := by simpa [hf] using hst
    exact h s t' hf hs

theorem atomicWrite_keeps {p : Path} {c : Content} (h : StableAt K p) :
    (atomicWrite p c).Keeps K := keeps_attempt_option (h _ _)

theorem atomicJson_keeps {p : Path} {j : Json} (h : StableAt K p) : (atomicJson p j).Keeps K :=
  atomicWrite_keeps h

theorem unlinkPath_keeps {p : Path} (h : StableAt K p) : (unlinkPath p).Keeps K :=
  keeps_attempt_option (h _ _)

theorem rmdirPath_keeps {p : Path} (h : StableAt K p) : (rmdirPath p).Keeps K :=
  keeps_attempt_option (h _ _)

theorem createExclusive_keeps {p : Path} {c : Content} (h : StableAt K p) :
    (createExclusive p c).Keeps K := keeps_attempt_option (h _ _)

theorem mkdirPath_keeps {p : Path} {existOk : Bool} (h : StableAt K p) :
    (mkdirPath p existOk).Keeps K := keeps_attempt_option (h _ _)

theorem removeNode_keeps {p : Path} (h : StableAt K p) : (removeNode p).Keeps K :=
  keeps_attempt_option (h _ _)

/-- A rename takes the directory out and puts it in. -/
theorem renamePath_keeps {p q : Path} (hp : StableAt K p) (hq : StableAt K q) :
    (renamePath p q).Keeps K := by
  refine keeps_attempt_option fun s t hst hs => ?_
  unfold renameDir at hst
  split at hst
  · obtain ⟨u, hu, ht⟩ := Option.bind_eq_some_iff.mp hst
    exact hq _ _ _ _ ht (hp _ _ _ _ hu hs)
  · cases hst

theorem suppressOs_keeps {m : Engine Unit} (h : m.Keeps K) : (suppressOs m).Keeps K := by
  refine Prog.Keeps.rescue h fun e => ?_
  cases e with
  | os detail => exact Prog.Keeps.pure ()
  | _ => exact Prog.Keeps.raise _

theorem forEach_keeps {α : Type} {f : α → Engine Unit} (h : ∀ a, (f a).Keeps K) (as : List α) :
    (forEach f as).Keeps K := by
  induction as with
  | nil => exact Prog.Keeps.pure ()
  | cons a as ih => exact Prog.Keeps.bind (h a) fun _ => ih

theorem rmtree_keeps {p : Path} (hp : StableAt K p) (hin : ∀ name, StableAt K (p ++ [name])) :
    (rmtree p).Keeps K :=
  Prog.Keeps.bind Prog.Keeps.read fun _ => Prog.Keeps.bind
    (forEach_keeps (fun e : String × Node Content =>
      suppressOs_keeps (removeNode_keeps (hin e.1))) _)
    fun _ => suppressOs_keeps (rmdirPath_keeps hp)

/-! ### The journal's bookkeeping -/

section Journal

variable {j : Journal}

theorem Journal.read_keeps (fold : Bool) : (j.read env fold).Keeps K := by
  refine Prog.Keeps.bind Prog.Keeps.read fun d => ?_
  split
  · exact Prog.Keeps.pure _
  · exact Prog.Keeps.raise _

theorem Journal.writeProgress_keeps (h : StableAt K j.progressFile) (status : Status)
    (progressIndex targetIndex : Option Nat) :
    (j.writeProgress status progressIndex targetIndex).Keeps K := by
  refine Prog.Keeps.bind Prog.Keeps.read fun d => ?_
  split
  · split
    · exact atomicJson_keeps h
    · exact Prog.Keeps.raise _
  · exact Prog.Keeps.raise _

/-- A mark that is not terminal touches the progress sidecar alone. -/
theorem Journal.mark_keeps (h : StableAt K j.progressFile) {status : Status}
    (hs : status.settled = false) (progressIndex targetIndex : Option Nat) :
    (j.mark env status progressIndex targetIndex).Keeps K := by
  refine Prog.Keeps.bind (j.writeProgress_keeps h status progressIndex targetIndex) fun _ => ?_
  rw [hs]
  exact Prog.Keeps.pure _

theorem Journal.reconcileProgress_keeps (h : StableAt K j.progressFile) (status : Status)
    (progressIndex : Nat) (appliedFrontier : Int) :
    (j.reconcileProgress status progressIndex appliedFrontier).Keeps K := by
  refine Prog.Keeps.bind Prog.Keeps.read fun d => ?_
  split
  · exact atomicJson_keeps h
  · exact Prog.Keeps.raise _

theorem Journal.foldProgress_keeps (hm : StableAt K j.manifest) (hp : StableAt K j.progressFile) :
    (j.foldProgress env).Keeps K := by
  refine Prog.Keeps.bind Prog.Keeps.read fun d => ?_
  split
  · exact suppressOs_keeps (Prog.Keeps.bind (Journal.read_keeps true) fun _ =>
      Prog.Keeps.bind (atomicJson_keeps hm) fun _ => unlinkPath_keeps hp)
  · exact Prog.Keeps.pure _

theorem unlinkStaged_keeps {dir : Path} {names : List String}
    (h : ∀ name ∈ names, StableAt K (dir ++ [name])) : (unlinkStaged dir names).Keeps K := by
  induction names with
  | nil => exact Prog.Keeps.pure _
  | cons n ns ih =>
    refine Prog.Keeps.bind (Prog.Keeps.rescue ?_ fun e => ?_) fun failed => ?_
    · exact Prog.Keeps.bind (unlinkPath_keeps (h n List.mem_cons_self)) fun _ => Prog.Keeps.pure _
    · cases e with
      | os detail => exact Prog.Keeps.pure _
      | _ => exact Prog.Keeps.raise _
    · exact Prog.Keeps.bind (ih fun name hn => h name (List.mem_cons_of_mem _ hn))
        fun _ => Prog.Keeps.pure _

theorem Journal.dropStagedPayloads_keeps (h : ∀ name, StableAt K (j.dir ++ [name]))
    (hq : StableAt K (settledPath ++ [cleanupQueueName]))
    (hqm : StableAt K (settledPath ++ [cleanupQueueName, j.opId])) :
    j.dropStagedPayloads.Keeps K := by
  refine Prog.Keeps.bind Prog.Keeps.read fun d => ?_
  refine Prog.Keeps.bind (unlinkStaged_keeps fun name _ => h name) fun failed => ?_
  split
  · refine Prog.Keeps.rescue ?_ fun e => ?_
    · exact Prog.Keeps.bind (mkdirPath_keeps hq) fun _ =>
        Prog.Keeps.bind (atomicWrite_keeps hqm) fun _ => Prog.Keeps.pure _
    · cases e with
      | os detail => exact Prog.Keeps.pure _
      | value detail => exact Prog.Keeps.pure _
      | _ => exact Prog.Keeps.raise _
  · exact Prog.Keeps.pure _

theorem Journal.settle_keeps (hd : StableAt K j.dir) (hs : StableAt K settledPath)
    (ho : StableAt K (settledPath ++ [j.opId])) : j.settle.Keeps K := by
  refine suppressOs_keeps (Prog.Keeps.bind (mkdirPath_keeps hs) fun _ =>
    Prog.Keeps.bind Prog.Keeps.read fun d => ?_)
  split
  · next dir hdir =>
    have : dir = settledPath ++ [j.opId] := by
      unfold safeOpDir at hdir
      split_ifs at hdir
      exact (Except.ok.inj hdir).symm
    rw [this]
    exact renamePath_keeps hd ho
  · exact Prog.Keeps.pure _

/-! ### The append intent -/

theorem Journal.adoptStaged_keeps {staged : String} (h : StableAt K (j.dir ++ [staged]))
    (entry : Dict) : (j.adoptStaged env entry staged).Keeps K := by
  refine Prog.Keeps.bind Prog.Keeps.read fun d => ?_
  dsimp only
  split
  · split_ifs
    · exact Prog.Keeps.raise _
    · exact Prog.Keeps.pure _
    · exact Prog.Keeps.raise _
  · exact Prog.Keeps.raise _
  · split
    · split
      · exact Prog.Keeps.raise _
      · split_ifs
        · exact createExclusive_keeps h
        · exact Prog.Keeps.raise _
    · exact Prog.Keeps.raise _

theorem Journal.finishEntry_keeps (h : ∀ i c, StableAt K (j.dir ++ [stagedName env i c]))
    (base : Int) (targets : List Dict) (entry : Json) :
    (j.finishEntry env base targets entry).Keeps K := by
  unfold Journal.finishEntry
  split
  · dsimp only
    split
    · split_ifs
      · exact Prog.Keeps.raise _
      · exact Prog.Keeps.pure _
      · exact Prog.Keeps.raise _
      · split
        · split_ifs
          · exact Prog.Keeps.raise _
          · split
            · split_ifs with heq
              · subst heq
                exact Prog.Keeps.bind (Journal.adoptStaged_keeps (h _ _) _)
                  fun _ => Prog.Keeps.pure _
              · exact Prog.Keeps.raise _
            · exact Prog.Keeps.raise _
        · exact Prog.Keeps.raise _
      · exact Prog.Keeps.pure _
    · exact Prog.Keeps.raise _
  · exact Prog.Keeps.raise _

theorem Journal.finishEntries_keeps (h : ∀ i c, StableAt K (j.dir ++ [stagedName env i c]))
    (base : Int) (entries : List Json) (targets : List Dict) :
    (j.finishEntries env base targets entries).Keeps K := by
  induction entries generalizing targets with
  | nil => exact Prog.Keeps.pure _
  | cons e es ih =>
    exact Prog.Keeps.bind (Journal.finishEntry_keeps h base targets e) fun ts => ih ts

/-- Finishing an append intent touches staged payloads, the manifest and the intent. -/
theorem Journal.resumeAppendIntent_keeps (h : ∀ i c, StableAt K (j.dir ++ [stagedName env i c]))
    (hm : StableAt K j.manifest) (hi : StableAt K j.appendIntentPath) :
    (j.resumeAppendIntent env).Keeps K := by
  refine Prog.Keeps.bind Prog.Keeps.read fun d => ?_
  split
  · exact Prog.Keeps.raise _
  · exact Prog.Keeps.pure _
  · refine Prog.Keeps.bind (Journal.read_keeps false) fun record =>
      Prog.Keeps.bind ?_ fun _ => Prog.Keeps.pure _
    unfold Journal.finishAppendIntent
    simp only
    split_ifs
    · exact Prog.Keeps.raise _
    · exact Prog.Keeps.bind (Journal.finishEntries_keeps h _ _ _) fun _ =>
        Prog.Keeps.bind (atomicJson_keeps hm) fun _ => suppressOs_keeps (unlinkPath_keeps hi)

end Journal

/-! ### The two journal directories -/

/-- The path is one of the journal directories or lies in one. -/
def InJournals (p : Path) : Prop := opsPath <+: p ∨ settledPath <+: p

theorem InJournals.append {p : Path} (h : InJournals p) (q : Path) : InJournals (p ++ q) :=
  h.imp (fun h => h.trans (List.prefix_append p q)) fun h => h.trans (List.prefix_append p q)

theorem Outside.apart {p q : Path} (h : Outside p) (hq : InJournals q) : Apart p q := by
  rcases hq with ⟨r, rfl⟩ | ⟨r, rfl⟩
  · exact (h.1.symm.append_left r).symm
  · exact (h.2.symm.append_left r).symm

/-- A property of the project that no change in the journal directories disturbs. -/
def BlindToJournals (K : Disk → Prop) : Prop := ∀ p, InJournals p → StableAt K p

/-- The journal of an operation lies in one of the journal directories, under the operation's id. -/
theorem openJournal_opId {opId : String} {d : Disk} {j : Journal}
    (h : openJournal opId d = .ok j) :
    validateOpId opId = .ok j.opId ∧ (j.dir = opsPath ++ [j.opId] ∨ j.dir = settledPath ++ [j.opId]) := by
  simp only [openJournal, bind_eq_ok] at h
  obtain ⟨id, hid, opsDir, hops, h⟩ := h
  have safe : ∀ base p, safeOpDir base id d = .ok p → p = base ++ [id] := by
    intro base p hp
    unfold safeOpDir at hp
    split_ifs at hp
    exact (Except.ok.inj hp).symm
  obtain rfl := safe _ _ hops
  split at h
  · simp only [bind_eq_ok] at h
    obtain ⟨settledDir, hset, h⟩ := h
    obtain rfl := safe _ _ hset
    split at h <;> obtain rfl := pure_eq_ok.mp h
    · exact ⟨hid, .inr rfl⟩
    · exact ⟨hid, .inl rfl⟩
  · obtain rfl := pure_eq_ok.mp h
    exact ⟨hid, .inl rfl⟩

theorem openJournal_inJournals {opId : String} {d : Disk} {j : Journal}
    (h : openJournal opId d = .ok j) : InJournals j.dir := by
  rcases (openJournal_opId h).2 with hdir | hdir
  · rw [hdir]
    exact .inl (List.prefix_append _ _)
  · rw [hdir]
    exact .inr (List.prefix_append _ _)

section Blind

variable {j : Journal}

/-- Every mark, terminal or not, stays in the journal directories. -/
theorem Journal.mark_keeps_blind (hK : BlindToJournals K) (hj : InJournals j.dir) (status : Status)
    (progressIndex targetIndex : Option Nat) :
    (j.mark env status progressIndex targetIndex).Keeps K := by
  have inDir (name : String) : StableAt K (j.dir ++ [name]) := hK _ (hj.append _)
  have inSettled (q : Path) : StableAt K (settledPath ++ q) :=
    hK _ (.inr (List.prefix_append _ _))
  refine Prog.Keeps.bind (j.writeProgress_keeps (inDir _) status progressIndex targetIndex)
    fun _ => ?_
  split
  · refine Prog.Keeps.bind (Journal.foldProgress_keeps (inDir _) (inDir _)) fun _ => ?_
    have hsettle : j.settle.Keeps K :=
      Journal.settle_keeps (hK _ hj) (hK _ (.inr List.prefix_rfl)) (inSettled _)
    split
    · exact Prog.Keeps.bind (Journal.dropStagedPayloads_keeps inDir (inSettled _) (inSettled _))
        fun _ => Prog.Keeps.bind hsettle fun _ => Prog.Keeps.pure _
    · exact Prog.Keeps.bind (Prog.Keeps.pure _) fun _ =>
        Prog.Keeps.bind hsettle fun _ => Prog.Keeps.pure _
  · exact Prog.Keeps.pure _

theorem Journal.refuse_keeps_blind (hK : BlindToJournals K) (hj : InJournals j.dir) (code : Code)
    (detail : String) : (j.refuse env code detail).Keeps K :=
  Prog.Keeps.bind (Journal.mark_keeps_blind hK hj _ _ _) fun _ => Prog.Keeps.pure _

theorem Journal.refuseTarget_keeps_blind (hK : BlindToJournals K) (hj : InJournals j.dir)
    (code : Code) (ts : List TargetRecord) (index frontier : Nat) (detail : String) :
    (j.refuseTarget env code ts index frontier detail).Keeps K :=
  Prog.Keeps.bind (Journal.mark_keeps_blind hK hj _ _ _) fun _ =>
    Prog.Keeps.bind Prog.Keeps.read fun _ => Prog.Keeps.pure _

/-- The end of recovery stays in the journal directories. -/
theorem Journal.finish_keeps_blind (hK : BlindToJournals K) (hj : InJournals j.dir)
    (record : Record) : (j.finish env record).Keeps K := by
  refine Prog.Keeps.bind Prog.Keeps.read fun d => ?_
  split
  · exact Journal.refuse_keeps_blind hK hj _ _
  · split
    · exact Prog.Keeps.bind (Journal.mark_keeps_blind hK hj _ _ _) fun _ =>
        Prog.Keeps.bind (Journal.mark_keeps_blind hK hj _ _ _) fun _ => Prog.Keeps.pure _
    · exact Journal.refuse_keeps_blind hK hj _ _

/-- Finishing an append intent stays in the journal directories. -/
theorem Journal.resumeIntent_keeps_blind (hK : BlindToJournals K) (hj : InJournals j.dir) :
    (j.resumeIntent env).Keeps K := by
  have inDir (name : String) : StableAt K (j.dir ++ [name]) := hK _ (hj.append _)
  refine Prog.Keeps.rescue (Prog.Keeps.bind (Journal.resumeAppendIntent_keeps (fun _ _ => inDir _)
    (inDir _) (inDir _)) fun _ => Prog.Keeps.pure _) fun e => ?_
  cases e with
  | os detail => exact Prog.Keeps.pure _
  | value detail => exact Prog.Keeps.pure _
  | decode refused => exact Prog.Keeps.pure _
  | _ => exact Prog.Keeps.raise _

end Blind

end Saipen
