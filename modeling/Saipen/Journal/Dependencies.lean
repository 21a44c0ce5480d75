import Saipen.Journal.Accounts
import Saipen.Journal.Agreement

/-! # The preconditions of an interrupted mutation

`run_mutation` checks two maps before it publishes anything: `preconditions` and `read_preconditions`.
Both are recorded, and of both only the second is looked at again when recovery rolls forward. An entry
of the first that names no target is watched by recovery only if the second has it, too. -/

namespace Saipen

open FileTree DurableState Checks

variable (env : Environment)

/-- The paths of the targets of a request. -/
def ValidRequest.targetPaths (v : ValidRequest) : List String := v.targets.map fun t => posix t.path

/-- The entries of both maps that are no targets. -/
def ValidRequest.dependencies (v : ValidRequest) : List (String × String) :=
  (v.preconditions ++ v.readPreconditions).filter fun e => e.1 ∉ v.targetPaths

/-- The entries of `preconditions` that are no targets and do not stand in `read_preconditions`. -/
def ValidRequest.unwatched (v : ValidRequest) : List (String × String) :=
  v.preconditions.filter fun e => e.1 ∉ v.targetPaths ∧ e ∉ v.readPreconditions

/-- The entries have the recorded hash. -/
def Fresh (d : Disk) (deps : List (String × String)) : Prop :=
  ∀ e ∈ deps, dependencyHash env d e.1 e.2 = e.2

/-- A request was published as PREPARED, and recovery finds the record it left: since then everything
else may have changed. -/
structure Journal.Resumable (request : MutationRequest) (v : ValidRequest) (j : Journal) (d : Disk) :
    Prop where
  valid : validateMutationRequest env request = .ok v
  opened : openJournal v.opId d = .ok j
  published : ∃ (ctx : MutationContext) (lineage : Option String) (ts : List PreparedTarget) (d₀ d₁ : Disk),
    (j.prepareMutation env ctx v lineage).Yields d₀ (.ok ts) d₁ ∧ probe j.manifest d = probe j.manifest d₁
  noIntent : probe j.appendIntentPath d = .absent

variable {env} {request : MutationRequest} {v : ValidRequest} {j : Journal} {d d' : Disk} {r : Record}

/-! ### What the record keeps -/

section Published

variable {ctx : MutationContext} {lineage : Option String} {ts : List PreparedTarget} {d₀ d₁ : Disk}

/-- The directory a publication leaves. -/
theorem Journal.probe_dir_published (hval : Validated env request v)
    (h : (j.prepareMutation env ctx v lineage).Yields d₀ (.ok ts) d₁) :
    ∃ js m, probe j.dir d₁ = .found (.dir (publishedFiles env ts (.obj
      ((startArguments v lineage ts).dumped env j.opId ctx.now js m)))) := by
  obtain ⟨hplan, hstart⟩ := Journal.prepareMutation_yields h
  have hplanned := planRequest_eq_ok hval.clean hplan
  have hclean : ∀ w ∈ ts, CleanPath w.path := by
    intro w hw
    obtain ⟨u, hu, hp⟩ := exists_of_forall₂_right hplanned hw
    rw [hp.path]
    exact hval.clean u hu
  obtain ⟨record, hrec, -, hdir, -⟩ := j.start_yields hclean hstart
  obtain ⟨js, m, -, -, rfl⟩ := dumps_record hrec
  exact ⟨js, m, hdir⟩

/-- Its manifest is the dumped record. -/
theorem Journal.probe_manifest_published (hval : Validated env request v)
    (h : (j.prepareMutation env ctx v lineage).Yields d₀ (.ok ts) d₁) :
    ∃ js m, probe j.manifest d₁ = .found (.file (.json (.obj
      ((startArguments v lineage ts).dumped env j.opId ctx.now js m)))) := by
  obtain ⟨js, m, hdir⟩ := Journal.probe_dir_published hval h
  have hlookup : (publishedFiles env ts (.obj ((startArguments v lineage ts).dumped env j.opId ctx.now
      js m))).lookup "operation.json" = some (.file (.json (.obj ((startArguments v lineage ts).dumped
        env j.opId ctx.now js m)))) := by
    rw [List.lookup_append, stagedEntries_lookup_eq_none (by decide)]
    rfl
  rw [Journal.manifest, probe_append hdir, probe_singleton]
  exact ⟨js, m, congrArg Probe.ofNode hlookup⟩

/-- It has no intent to append targets. -/
theorem Journal.probe_intent_published (hval : Validated env request v)
    (h : (j.prepareMutation env ctx v lineage).Yields d₀ (.ok ts) d₁) :
    probe j.appendIntentPath d₁ = .absent := by
  obtain ⟨js, m, hdir⟩ := Journal.probe_dir_published hval h
  have hlookup : (publishedFiles env ts (.obj ((startArguments v lineage ts).dumped env j.opId ctx.now
      js m))).lookup "append.intent.json" = none := by
    rw [List.lookup_append, stagedEntries_lookup_eq_none (by decide)]
    rfl
  rw [Journal.appendIntentPath, probe_append hdir, probe_singleton]
  exact congrArg Probe.ofNode hlookup

end Published

/-- A record that was published keeps both maps, and no field of a release. -/
structure Record.Keeps (v : ValidRequest) (r : Record) : Prop where
  preconditions : r.preconditions = some v.preconditions
  readPreconditions : r.readPreconditions = some v.readPreconditions
  extra : r.extra = []

theorem keeps_of_dumped {a : StartArguments} {opId : String} {now : Instant} {js : List Json}
    {m : Option Dict} {files : Entries Content} {base : Record} (hval : Validated env request v)
    (hpre : a.preconditions = v.preconditions) (hread : a.readPreconditions = v.readPreconditions)
    (h : decodeRecord env opId files (a.dumped env opId now js m) = .ok base) : base.Keeps v := by
  have hfields := decodeRecord_eq_ok.mp h
  have hget (k : String) (u : List (String × String)) (hu : ∀ k ∈ u.map Prod.fst, k ≠ "")
      (hk : Dict.get (a.dumped env opId now js m) k = some (stringMap u)) :
      decodePreconditions k (a.dumped env opId now js m) = .ok (some u) := by
    rw [decodePreconditions, hk]
    simp only [stringMap, decodeHashMap_stringMap hu]
  constructor
  · have hsame := hget "preconditions" a.preconditions (hpre ▸ hval.preconditions)
      (by simp [StartArguments.dumped, Dict.get_cons])
    rw [← hpre]
    exact Except.ok.inj (hfields.preconditions.symm.trans hsame)
  · have hsame := hget "read_preconditions" a.readPreconditions (hread ▸ hval.readPreconditions)
      (by simp [StartArguments.dumped, Dict.get_cons])
    rw [← hread]
    exact Except.ok.inj (hfields.readPreconditions.symm.trans hsame)
  · rw [hfields.extra, List.filter_eq_nil_iff]
    intro e he
    have hknown : e.1 ∈ recordKeys := by
      simp only [StartArguments.dumped, List.mem_append, List.mem_cons, List.not_mem_nil, or_false] at he
      rcases he with he | he
      · rcases he with rfl | rfl | rfl | rfl | rfl | rfl | rfl | rfl | rfl | rfl | rfl | rfl | rfl <;>
          simp [recordKeys]
      · cases m with
        | none => cases he
        | some m =>
          obtain rfl := List.mem_singleton.mp he
          simp [recordKeys]
    simp [hknown]

/-- The sidecar leaves the maps alone. -/
theorem Record.Keeps.merged {base : Record} {fold : Bool} {raw : Option Content} (h : base.Keeps v)
    (hm : mergeProgress env base fold raw = .ok r) : r.Keeps v := by
  rcases mergeProgress_eq_ok_iff.mp hm with ⟨-, rfl⟩ | ⟨c, p, -, -, rfl⟩
  · exact h
  · exact ⟨h.preconditions, h.readPreconditions, h.extra⟩

/-- What recovery finds of an interrupted mutation keeps both maps. -/
theorem Journal.Resumable.keeps (h : j.Resumable env request v d) (hr : j.decode env false d = .ok r) :
    r.Keeps v := by
  have hval := validateMutationRequest_eq_ok h.valid
  obtain ⟨ctx, lineage, ts, d₀, d₁, hpub, hsame⟩ := h.published
  obtain ⟨js, m, hman⟩ := Journal.probe_manifest_published hval hpub
  obtain ⟨raw, base, progress, hraw, hbase, -, hm⟩ := decodeEntry_eq_ok.mp hr
  have hprobe : probe (j.dir ++ ["operation.json"]) d = .found (.file (.json (.obj
      ((startArguments v lineage ts).dumped env j.opId ctx.now js m)))) := hsame.trans hman
  rw [j.files_lookup, hprobe] at hraw
  obtain rfl := Node.file.inj (Option.some.inj hraw)
  obtain ⟨object, hobject, hrec⟩ := decodeManifest_eq_ok.mp hbase
  obtain rfl : (startArguments v lineage ts).dumped env j.opId ctx.now js m = object := by
    simpa [Content.loads] using hobject
  exact (keeps_of_dumped hval rfl rfl hrec).merged hm

/-! ### What a commit has looked at -/

variable {gitRecovery : Journal → Record → Engine Result} {res : Result}

/-- The run ended the operation COMMITTED. -/
def Commits (m : Engine Result) (d : Disk) : Prop :=
  ∃ res d', m.Yields d res d' ∧ res.ok = true ∧ res.code = .committed

theorem Commits.succeeds {m : Engine Result} (h : Commits m d) : Succeeds m d := by
  obtain ⟨res, d', hrun, hok, -⟩ := h
  exact ⟨res, d', hrun, hok⟩

theorem commits_pure {res : Result} (h : Commits (pure res) d) : res.ok = true ∧ res.code = .committed := by
  obtain ⟨res', d', hrun, hok, hcode⟩ := h
  obtain ⟨rfl, -⟩ := Prog.yields_pure.mp hrun
  exact ⟨hok, hcode⟩

theorem commits_bind {α : Type} {m : Engine α} {f : α → Engine Result} (h : Commits (m >>= f) d) :
    ∃ a d', m.Yields d a d' ∧ Commits (f a) d' := by
  obtain ⟨res, d', hrun, hok, hcode⟩ := h
  obtain ⟨a, u, hm, hf⟩ := Prog.yields_bind.mp hrun
  exact ⟨a, u, hm, res, d', hf, hok, hcode⟩

theorem commits_read_bind {f : Disk → Engine Result} (h : Commits (Prog.read >>= f) d) : Commits (f d) d := by
  obtain ⟨res, d', hrun, hok, hcode⟩ := h
  exact ⟨res, d', Prog.yields_read_bind.mp hrun, hok, hcode⟩

/-- A record that recovery ends COMMITTED had its read dependencies at their recorded hashes. -/
theorem Journal.fresh_of_commits (hextra : r.extra = [])
    (h : Commits (j.recoverRecord env gitRecovery r) d) : Fresh env d r.readDependencies := by
  unfold Journal.recoverRecord at h
  split_ifs at h with hcommitted hsettled hrelease
  · obtain ⟨-, hcode⟩ := commits_pure h
    cases hcode
  · obtain ⟨hok, -⟩ := commits_pure h
    cases hok
  · -- the record of a mutation has none of the fields a release is recovered by
    unfold Journal.recoverRelease at h
    have hkeys : (releaseKeys.all fun k => (r.extra.get k).isSome) = false := by
      rw [hextra]
      rfl
    simp only [hkeys, Bool.false_eq_true, if_false] at h
    split_ifs at h
    · obtain ⟨hok, -⟩ := commits_pure h
      cases hok
    · exact absurd h.succeeds not_succeeds_refuse
  · have hverdict := commits_read_bind h
    cases hv : recoveryVerdict env d r with
    | rollForward n => exact (recoveryVerdict_rollForward hv).1.fresh
    | abort =>
      rw [hv] at hverdict
      obtain ⟨-, u, -, hlast⟩ := commits_bind hverdict
      obtain ⟨-, hcode⟩ := commits_pure hlast
      cases hcode
    | staleDependency path expected =>
      rw [hv] at hverdict
      exact absurd hverdict.succeeds not_succeeds_refuse
    | thirdState i n =>
      rw [hv] at hverdict
      exact absurd hverdict.succeeds not_succeeds_refuseTarget
    | outOfOrder i n =>
      rw [hv] at hverdict
      exact absurd hverdict.succeeds not_succeeds_refuseTarget

/-- There is no intent to finish. -/
theorem Journal.Resumable.resumes (h : j.Resumable env request v d) :
    (j.resumeIntent env).Yields d (.ok false) d := by
  have hlookup : (j.files d).lookup "append.intent.json" = none := by
    rw [j.files_lookup]
    exact congrArg Probe.node h.noIntent
  have hnone : readAppendIntent env j.opId (j.files d) = .ok none := by
    rw [readAppendIntent, hlookup]
  have hresume : (j.resumeAppendIntent env).Yields d false d := by
    refine Prog.yields_read_bind.mpr ?_
    rw [hnone]
    exact Prog.yields_pure.mpr ⟨rfl, rfl⟩
  exact Prog.yields_rescue.mpr (.inl (Prog.yields_bind.mpr ⟨false, d, hresume,
    Prog.yields_pure.mpr ⟨rfl, rfl⟩⟩))

/-- A commit of an interrupted mutation is one of the record recovery found. -/
theorem Journal.Resumable.commits_record (h : j.Resumable env request v d)
    (hrun : Commits (recoverLocked env gitRecovery v.opId) d) :
    ∃ r, j.decode env false d = .ok r ∧ Commits (j.recoverRecord env gitRecovery r) d := by
  have hlocked := commits_read_bind hrun
  simp only [h.opened] at hlocked
  split_ifs at hlocked
  · split at hlocked
    · obtain ⟨hok, -⟩ := commits_pure hlocked
      cases hok
    · next record hgate =>
      unfold Journal.gate at hgate
      obtain ⟨r, hr, hgate⟩ := bind_eq_ok.mp hgate
      split_ifs at hgate
      obtain ⟨-, -, hgate⟩ := bind_eq_ok.mp hgate
      obtain rfl := pure_eq_ok.mp hgate
      obtain ⟨resumed, u, hyields, hlast⟩ := commits_bind hlocked
      obtain rfl : resumed = .ok false := Except.ok.inj (hyields.1.symm.trans h.resumes.1)
      obtain rfl : u = d := hyields.2.symm.trans h.resumes.2
      exact ⟨r, hr, hlast⟩
  · obtain ⟨hok, -⟩ := commits_pure hlocked
    cases hok

/-- A commit of an interrupted mutation has looked at `read_preconditions`. -/
theorem Journal.Resumable.fresh_read (h : j.Resumable env request v d)
    (hrun : Commits (recoverLocked env gitRecovery v.opId) d) : Fresh env d v.readPreconditions := by
  obtain ⟨r, hr, hcommits⟩ := h.commits_record hrun
  have hkeeps := h.keeps hr
  have hfresh := Journal.fresh_of_commits hkeeps.extra hcommits
  rwa [Record.readDependencies, hkeeps.readPreconditions, Option.getD_some] at hfresh

theorem mem_unwatched {e : String × String} :
    e ∈ v.unwatched ↔ e ∈ v.preconditions ∧ e.1 ∉ v.targetPaths ∧ e ∉ v.readPreconditions := by
  rw [ValidRequest.unwatched, List.mem_filter, decide_eq_true_iff]

theorem mem_dependencies {e : String × String} :
    e ∈ v.dependencies ↔ (e ∈ v.preconditions ∨ e ∈ v.readPreconditions) ∧ e.1 ∉ v.targetPaths := by
  rw [ValidRequest.dependencies, List.mem_filter, List.mem_append, decide_eq_true_iff]

/-- Where one map is fresh, the entries it does not have are left. -/
theorem fresh_dependencies_iff (hread : Fresh env d v.readPreconditions) :
    Fresh env d v.dependencies ↔ Fresh env d v.unwatched := by
  constructor
  · intro hall e he
    obtain ⟨hpre, htarget, -⟩ := mem_unwatched.mp he
    exact hall e (mem_dependencies.mpr ⟨.inl hpre, htarget⟩)
  · intro hunwatched e he
    obtain ⟨hmem, htarget⟩ := mem_dependencies.mp he
    by_cases hwatched : e ∈ v.readPreconditions
    · exact hread e hwatched
    · have hpre : e ∈ v.preconditions := hmem.resolve_right hwatched
      exact hunwatched e (mem_unwatched.mpr ⟨hpre, htarget, hwatched⟩)

/-- A plan that names in `preconditions` its targets alone, as `apply_plan` does, is rechecked. -/
theorem Journal.Resumable.fresh_plan (h : j.Resumable env request v d)
    (hrun : Commits (recoverLocked env gitRecovery v.opId) d)
    (hplan : ∀ e ∈ v.preconditions, e.1 ∈ v.targetPaths) : Fresh env d v.dependencies := by
  refine (fresh_dependencies_iff (h.fresh_read hrun)).mpr fun e he => ?_
  obtain ⟨hpre, htarget, -⟩ := mem_unwatched.mp he
  exact absurd (hplan e hpre) htarget

/-- **Recovery rechecks the preconditions.** When recovery ends an interrupted mutation COMMITTED, all
entries of both maps that are no targets have their recorded hashes exactly when those entries of
`preconditions` have them that `read_preconditions` does not repeat. -/
theorem recovery_rechecks_iff (h : j.Resumable env request v d)
    (hrun : Commits (recoverLocked env gitRecovery v.opId) d) :
    Fresh env d v.dependencies ↔ Fresh env d v.unwatched :=
  fresh_dependencies_iff (h.fresh_read hrun)

/-! ### Crashes of the apply loop -/

section Crash

variable {K : Disk → Prop} {ts : List PreparedTarget}

theorem applyAction_keeps {action : Action} {path : Path} {content : Option Content} (h : StableAt K path) :
    (applyAction action path content).Keeps K := by
  cases action with
  | write =>
    cases content with
    | some c => exact atomicWrite_keeps h
    | none => exact Prog.Keeps.raise _
  | deleteFile => exact unlinkPath_keeps h
  | deleteDir => exact rmdirPath_keeps h

theorem Journal.refuse_keeps (hmark : StableAt K j.progressFile) (code : Code) (detail : String) :
    (j.refuse env code detail).Keeps K :=
  Prog.Keeps.bind (j.mark_keeps hmark rfl none none) fun _ => Prog.Keeps.pure _

/-- One target of the apply loop touches its path and the sidecar. -/
theorem Journal.applyTarget_keeps (hmark : StableAt K j.progressFile) {t : PreparedTarget}
    (ht : StableAt K t.path) (index : Nat) : (j.applyTarget env index t).Keeps K := by
  have refused {code : Code} {detail : String} : (do
      let refused ← j.refuse env code detail
      pure (some refused) : Engine (Option Result)).Keeps K :=
    Prog.Keeps.bind (Journal.refuse_keeps hmark _ _) fun _ => Prog.Keeps.pure _
  have marked : (do
      let _ ← j.mark env .applying (some (index + 1)) (some index)
      pure none : Engine (Option Result)).Keeps K :=
    Prog.Keeps.bind (j.mark_keeps hmark rfl _ _) fun _ => Prog.Keeps.pure _
  refine Prog.Keeps.bind Prog.Keeps.read fun s => ?_
  split
  · exact marked
  · exact refused
  · refine Prog.Keeps.bind (Prog.Keeps.rescue (Prog.Keeps.bind (applyAction_keeps ht) fun _ =>
      Prog.Keeps.pure _) fun e => ?_) fun failed => ?_
    · cases e with
      | os detail => exact Prog.Keeps.pure _
      | value detail => exact Prog.Keeps.pure _
      | _ => exact Prog.Keeps.raise _
    · cases failed with
      | some detail => exact refused
      | none =>
        refine Prog.Keeps.bind Prog.Keeps.read fun u => ?_
        split
        · exact marked
        · exact refused

variable (env) in
theorem Journal.applyTargets_keeps (hmark : StableAt K j.progressFile) (hts : ∀ t ∈ ts, StableAt K t.path) :
    ∀ index : Nat, (j.applyTargets env index ts).Keeps K := by
  induction ts with
  | nil => exact fun index => Prog.Keeps.pure _
  | cons t ts ih =>
    intro index
    refine Prog.Keeps.bind (Journal.applyTarget_keeps hmark (hts t List.mem_cons_self) index) fun stopped => ?_
    cases stopped with
    | some refused => exact Prog.Keeps.pure _
    | none => exact ih (fun u hu => hts u (List.mem_cons_of_mem _ hu)) (index + 1)

/-- A mutation that crashed while it applied its targets is interrupted, whatever has happened since
outside its own journal. -/
theorem Journal.interrupted_of_crash {ctx : MutationContext} {lineage : Option String} {d₀ d₁ c : Disk}
    (hvalid : validateMutationRequest env request = .ok v)
    (hpub : (j.prepareMutation env ctx v lineage).Yields d₀ (.ok ts) d₁)
    (hcrash : (do
      let _ ← j.markStatus env .applying
      j.applyTargets env 0 ts : Engine (Option Result)).Leaves d₁ c)
    (hown : ∀ t ∈ ts, Apart t.path j.dir) (hopen : openJournal v.opId d = .ok j)
    (hsame : ∀ name, probe (j.dir ++ [name]) d = probe (j.dir ++ [name]) c) :
    j.Resumable env request v d := by
  have hval := validateMutationRequest_eq_ok hvalid
  have hstable {q : Path} (hq : ∀ name ∈ ["operation.json", "append.intent.json"], Apart (j.dir ++ [name]) q) :
      StableAt (fun u => probe j.manifest u = probe j.manifest d₁ ∧ probe j.appendIntentPath u = .absent) q :=
    stableAt_and (stableAt_probe (hq _ (by simp)) _) (stableAt_probe (hq _ (by simp)) _)
  have hmark : StableAt (fun u => probe j.manifest u = probe j.manifest d₁ ∧
      probe j.appendIntentPath u = .absent) j.progressFile := by
    refine hstable fun name hname => apart_sibling ?_ j.dir
    rintro rfl
    exact absurd hname (by decide)
  have hmarked : (j.mark env .applying none none).Keeps _ := j.mark_keeps hmark rfl none none
  have hkeeps := Prog.Keeps.bind hmarked fun _ =>
    Journal.applyTargets_keeps env hmark
      (fun t ht => hstable fun name _ => (hown t ht).symm.append_left [name]) 0
  obtain ⟨hman, hintent⟩ := hkeeps d₁ ⟨rfl, Journal.probe_intent_published hval hpub⟩ c hcrash
  exact ⟨hvalid, hopen, ⟨ctx, lineage, ts, d₀, d₁, hpub, (hsame _).trans hman⟩, (hsame _).trans hintent⟩

end Crash

/-! ### A precondition that recovery does not look at -/

/-- A request to write `a`, planned against `b`. -/
def plannedRequest : MutationRequest where
  opId := .str "op-1"
  operation := .str "note"
  agent := .str "agent"
  projectIdentity := .str "/work"
  semanticPayloadHash := .str "payload"
  targets := some [some { path := some (.str "a"), role := none, action := none,
                          content := .bytes (.text "a"), plannedBeforeHash := none }]
  preconditions := .dict [(.str "b", .str "3e23e8160039594a")]

/-- What validation makes of it. -/
def plannedValid : ValidRequest where
  opId := "op-1"
  operation := "note"
  agent := "agent"
  projectIdentity := "/work"
  semanticPayloadHash := "payload"
  targets := [⟨["a"], .generic, .write, some (.text "a"), none⟩]
  preconditions := [("b", "3e23e8160039594a")]
  verificationPolicy := .none
  readPreconditions := []
  receiptMetadata := none

/-- The plan on a project that has only `b`. -/
def plannedTargets : List PreparedTarget :=
  [⟨["a"], .generic, .write, some (.text "a"), .str "", "ca978112ca1bbdca"⟩]

/-- The project with the PREPARED record. -/
noncomputable def publishedDisk : Disk :=
  ((sampleJournal.prepareMutation sampleEnvironment { now := 0 } plannedValid none).run
    [("b", .file (.text "b"))]).final

/-- The run died when it was about to apply its target, and `b` has the given text since. -/
noncomputable def interruptedDisk (text : String) : Disk :=
  insertEntry "b" (.file (.text text))
    ((sampleJournal.markStatus sampleEnvironment .applying).run publishedDisk).final

theorem interrupted_sample (text : String) :
    sampleJournal.Resumable sampleEnvironment plannedRequest plannedValid (interruptedDisk text) :=
  ⟨rfl, rfl, ⟨{ now := 0 }, none, plannedTargets, _, publishedDisk, ⟨rfl, rfl⟩, rfl⟩, rfl⟩

/-- With `b` as it was planned against the operation is committed, and all dependencies are fresh. -/
theorem planned_precondition_rechecked :
    Fresh sampleEnvironment (interruptedDisk "b") plannedValid.dependencies ↔
      Fresh sampleEnvironment (interruptedDisk "b") plannedValid.unwatched := by
  have hcommits : Commits (recoverLocked sampleEnvironment refuseRelease plannedValid.opId)
      (interruptedDisk "b") := ⟨_, _, ⟨rfl, rfl⟩, rfl, rfl⟩
  exact recovery_rechecks_iff (interrupted_sample "b") hcommits

/-- With another text in `b` it is committed, too. -/
theorem changed_precondition_committed :
    sampleJournal.Resumable sampleEnvironment plannedRequest plannedValid (interruptedDisk "") ∧
      (∃ t ∈ plannedTargets, t.classify sampleEnvironment (interruptedDisk "") = .pending) ∧
      Commits (recoverLocked sampleEnvironment refuseRelease plannedValid.opId) (interruptedDisk "") ∧
      ¬ Fresh sampleEnvironment (interruptedDisk "") plannedValid.dependencies := by
  refine ⟨interrupted_sample "", ⟨_, List.mem_cons_self, rfl⟩, ⟨_, _, ⟨rfl, rfl⟩, rfl, rfl⟩, fun hfresh => ?_⟩
  have hb : ("b", "3e23e8160039594a") ∈ plannedValid.dependencies := List.mem_cons_self
  have hempty : dependencyHash sampleEnvironment (interruptedDisk "") "b" "3e23e8160039594a" =
      "e3b0c44298fc1c14" := rfl
  have hsame := hempty.symm.trans (hfresh _ hb)
  exact absurd hsame (by decide)

end Saipen
