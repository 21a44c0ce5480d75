import Saipen.Campaign.Invariance

/-! # What a campaign can rely on

Whatever the order in which any number of controllers admit, step, cancel, commit and die: a campaign
never has two workers running, its generations are numbered one after the other within its budget, its
record is true of its workers and can be read back, a campaign that ended is never touched again, and
an attempt nobody heard of is never tried again. -/

namespace Saipen.Campaign

open Function

variable {digest : CampaignState → String} {σ τ : System}

/-! ### A project to try the laws on -/

def sampleDigest : CampaignState → String := fun _ => "d"

def sampleGrant : String → GrantAnswer := fun _ =>
  { valid := true, status := "VALID_GRANT", authorizedScopes := ["CAMPAIGN_EXECUTION"]
    grantDigest := some "g" }

def sampleLimits : Limits := ⟨3, 7, 600, by decide, by decide, by decide⟩

/-- An admission under an operator capsule. -/
def sampleCall (id : String) : AdmitCall :=
  { campaignId := some id, authorityProofReference := some "SRC-001", freshId := "CAMPAIGN-0"
    lineage := "L", statePath := ".saipen/STATE.md"
    carrier := some ⟨.null, ["CAMPAIGN_EXECUTION"], sampleLimits⟩, grant := sampleGrant, now := 0 }

/-- A step that finds work to do. -/
def sampleAsk : Answers :=
  { grant := sampleGrant, now := 1, assessment := ⟨.activeWork, "work", .null⟩, backend := none
    executor := .injected, attemptId := "a1" }

def sampleRecord : CampaignState :=
  { campaignId := "C-1", projectLineage := "L", goalBinding := .null
    authorityProofReference := some "SRC-001", authorityScope := "CAMPAIGN_EXECUTION"
    authorityGrantDigest := some "g", campaignState := .admitted, lastProductiveProgress := 0
    nextAction := "start_campaign_worker"
    resourceBudget := { maxGenerations := some 3, maxCycles := some 7, maxWallSeconds := some 600 }
    createdAt := 0 }

def sampleAttempt : Attempt :=
  { binding := ⟨"a1", "C-1", 1, 0, .null⟩, injected := true, resultReference := attemptReference "a1" }

def sampleClaim : CampaignState :=
  { sampleRecord with
    campaignState := .running, nextAction := "work", cycleCount := 1, workerGeneration := 1
    workerAttempt := some sampleAttempt }

/-- A campaign was admitted and its first worker runs. -/
def sampleStarted : System := (System.initial.enter (some sampleRecord)).start sampleClaim sampleAttempt

theorem sampleStarted_reachable : Reachable sampleDigest sampleStarted := by
  have hentered : Reachable sampleDigest (System.initial.enter (some sampleRecord)) := by
    refine .single ?_
    have hcall : (admitCampaign sampleDigest System.initial.history System.initial.file (sampleCall "C-1")).saved =
        some sampleRecord := by decide +kernel
    have harchived : (admitCampaign sampleDigest System.initial.history System.initial.file
        (sampleCall "C-1")).archived = none := by decide +kernel
    have hstep := @Step.admission sampleDigest System.initial (sampleCall "C-1")
    rw [hcall, harchived] at hstep
    exact hstep
  refine hentered.tail (Step.start _ sampleAsk ?_ ?_)
  · decide +kernel
  · simp [System.initial, System.enter]

/-! ### Generations -/

theorem System.mem_startsOf {σ : System} {k : ℕ} {e : Start} :
    e ∈ σ.startsOf k ↔ e ∈ σ.started ∧ e.admission = k := by
  simp [System.startsOf]

/-- A worker that runs is the last that was started under its admission. -/
theorem Inv.runs_last (h : Inv σ) {id : String} {w : Worker} (hw : σ.workers id = some w)
    (hruns : w.runs = true) :
    (σ.startsOf w.admission).getLast? = some ⟨w.admission, w.binding⟩ := by
  obtain ⟨hid, hstarted, hback⟩ := h.owned id w hw
  have hmem : ⟨w.admission, w.binding⟩ ∈ σ.startsOf w.admission :=
    System.mem_startsOf.mpr ⟨hstarted, rfl⟩
  have hne : σ.startsOf w.admission ≠ [] := List.ne_nil_of_mem hmem
  rw [List.getLast?_eq_some_getLast hne]
  rw [← List.dropLast_append_getLast hne] at hmem
  rcases List.mem_append.mp hmem with hearlier | hlast
  · exact absurd (hid ▸ h.settled _ _ hearlier) (hback hruns)
  · rw [List.mem_singleton.mp hlast]

/-- **One worker at a time.** Two workers of one campaign never run at once, and the generations
started in a campaign are numbered from one without gap or repetition, at most as many as its budget
has generations and as it has cycles. -/
theorem generations_fenced (h : Reachable digest σ) :
    (∀ i j v w, σ.workers i = some v → σ.workers j = some w → v.runs = true → w.runs = true →
      v.admission = w.admission → i = j) ∧
    ∀ k s₀, σ.admitted[k]? = some s₀ →
      (σ.startsOf k).map (·.binding.generation) = List.range' 1 (σ.startsOf k).length ∧
      (∀ e ∈ σ.startsOf k, e.binding.campaignId = s₀.campaignId) ∧
      ((σ.startsOf k).length : ℤ) ≤ s₀.resourceBudget.generations ∧
      ((σ.startsOf k).length : ℤ) ≤ s₀.resourceBudget.cycles := by
  have hinv := Reachable.inv h
  refine ⟨fun i j v w hv hw hvruns hwruns heq => ?_, fun k s₀ hs₀ => ?_⟩
  · have hvlast := hinv.runs_last hv hvruns
    have hwlast := hinv.runs_last hw hwruns
    rw [heq] at hvlast
    have hbinding := congrArg Start.binding (Option.some.inj (hvlast.symm.trans hwlast))
    rw [← (hinv.owned i v hv).1, ← (hinv.owned j w hw).1]
    exact congrArg Binding.attemptId hbinding
  · refine ⟨hinv.numbered k, fun e he => ?_, hinv.bounded k s₀ hs₀⟩
    obtain ⟨hstarted, hk⟩ := System.mem_startsOf.mp he
    obtain ⟨s₁, hs₁, hcampaign⟩ := hinv.tagged e hstarted
    rw [hk] at hs₁
    rw [hcampaign, Option.some.inj (hs₁.symm.trans hs₀)]

theorem generations_fenced_sample :
    "a1" = "a1" ∧
      (sampleStarted.startsOf 0).map (·.binding.generation) = List.range' 1 (sampleStarted.startsOf 0).length ∧
      (∀ e ∈ sampleStarted.startsOf 0, e.binding.campaignId = sampleRecord.campaignId) ∧
      ((sampleStarted.startsOf 0).length : ℤ) ≤ sampleRecord.resourceBudget.generations ∧
      ((sampleStarted.startsOf 0).length : ℤ) ≤ sampleRecord.resourceBudget.cycles :=
  ⟨(generations_fenced sampleStarted_reachable).1 "a1" "a1" _ _ rfl rfl rfl rfl rfl,
    (generations_fenced sampleStarted_reachable).2 0 sampleRecord rfl⟩

/-! ### The record -/

/-- The generation of the attempt a record names is the one it counts. -/
theorem Inv.generation_eq (h : Inv σ) {s : CampaignState} {a : Attempt} (hs : Recorded σ s)
    (ha : s.workerAttempt = some a) : a.binding.generation = s.workerGeneration := by
  have hlast := (hs.attempt a ha).last
  have hnumber := congrArg List.getLast? (h.numbered σ.current)
  rw [List.getLast?_map, hlast, hs.generations] at hnumber
  cases hcount : s.workerGeneration with
  | zero =>
    rw [hcount] at hnumber
    simp at hnumber
  | succ n =>
    rw [hcount, List.range'_1_concat, List.getLast?_concat] at hnumber
    have hgeneration : a.binding.generation = 1 + n := Option.some.inj hnumber
    rw [hgeneration, Nat.add_comm]

/-- **The record tells the truth.** The attempt a record names is the last that was started in the
campaign and carries the generation the record counts. A result it shows is what the worker of that
attempt returned; one it shows as observed came back without an error. Where the attempt is accounted
for, no worker of the campaign runs. -/
theorem record_attests (h : Reachable digest σ) {s : CampaignState} (hs : σ.file = .saved s)
    {a : Attempt} (ha : s.workerAttempt = some a) :
    (σ.startsOf σ.current).getLast? = some ⟨σ.current, a.binding⟩ ∧
    a.binding.generation = s.workerGeneration ∧
    (∀ r, a.result = some r → ∃ e, σ.returned a.binding.attemptId = some (r, e)) ∧
    (a.status = .executionResultObserved → ∃ r, a.result = some r ∧
      σ.returned a.binding.attemptId = some (r, none) ∧ isDict r = true ∧
        field r "ok" ≠ some (.bool false)) ∧
    (a.status.unsettled = false → s.campaignState.ended = false →
      ∀ id w, σ.workers id = some w → w.admission = σ.current → w.runs = false) := by
  have hinv := Reachable.inv h
  have hrecord := hinv.record s hs
  have hattempt := hrecord.attempt a ha
  refine ⟨hattempt.last, hinv.generation_eq hrecord ha, hattempt.heard, hattempt.observed,
    fun hclosed hlive id w hw hadmission => ?_⟩
  refine Bool.not_eq_true _ ▸ fun hruns => ?_
  obtain ⟨hid, hstarted, hback⟩ := hinv.owned id w hw
  refine hback hruns (hid ▸ hinv.all_back hrecord hlive (fun b hb => ?_) ⟨w.admission, w.binding⟩ ?_)
  · obtain rfl : a = b := Option.some.inj (ha.symm.trans hb)
    exact hclosed
  · rw [← hadmission]
    exact System.mem_startsOf.mpr ⟨hstarted, rfl⟩

def sampleOutcome : Outcome :=
  { binding := sampleAttempt.binding, result := .obj [("ok", .bool true)], error := none
    observation := ⟨"E-1", "E-2", "s", "s"⟩, observedAt := "2026-01-01T00:00:00Z" }

def sampleWorker : Worker := ⟨0, sampleAttempt.binding, .attended⟩

/-- The worker is back, and its controller left the outcome. -/
def sampleFinished : System :=
  (sampleStarted.comeBack "a1" sampleOutcome.result sampleOutcome.error
    (some { sampleWorker with phase := .returned })).writeOutcome sampleOutcome

/-- The outcome is committed. -/
def sampleHeard : System :=
  (sampleFinished.save (commitWorkerOutcome sampleGrant 2 sampleFinished.outcomes sampleClaim
    sampleAttempt.binding).1).setWorker "a1" none

theorem sampleHeard_reachable : Reachable sampleDigest sampleHeard := by
  have hfinish : Step sampleDigest sampleStarted sampleFinished :=
    @Step.finish sampleDigest sampleStarted sampleWorker rfl rfl sampleOutcome rfl rfl
  have hcommit : Step sampleDigest sampleFinished sampleHeard :=
    @Step.commit sampleDigest sampleFinished { sampleWorker with phase := .returned } rfl rfl
      sampleGrant 2 sampleClaim (by decide +kernel)
  exact (sampleStarted_reachable.tail hfinish).tail hcommit

def sampleObserved : Attempt :=
  { sampleAttempt with
    status := .executionResultObserved, finishedAt := some "2026-01-01T00:00:00Z"
    result := some sampleOutcome.result }

theorem record_attests_sample :
    (sampleHeard.startsOf 0).getLast? = some ⟨0, sampleObserved.binding⟩ ∧
    sampleObserved.binding.generation = 1 ∧
    (∀ r, sampleObserved.result = some r → ∃ e, sampleHeard.returned "a1" = some (r, e)) ∧
    (sampleObserved.status = .executionResultObserved → ∃ r, sampleObserved.result = some r ∧
      sampleHeard.returned "a1" = some (r, none) ∧ isDict r = true ∧ field r "ok" ≠ some (.bool false)) ∧
    (sampleObserved.status.unsettled = false → (Lifecycle.running).ended = false →
      ∀ id w, sampleHeard.workers id = some w → w.admission = 0 → w.runs = false) :=
  record_attests sampleHeard_reachable
    (s := { sampleClaim with workerAttempt := some sampleObserved, lastProductiveProgress := 2 })
    (by decide +kernel) rfl

/-- A campaign that ended with a record: it stands as it is, or it is archived under an admission that
followed. -/
structure Over (digest : CampaignState → String) (k : ℕ) (starts : List Start) (s : CampaignState)
    (τ : System) : Prop where
  inv : Inv τ
  starts : τ.startsOf k = starts
  stands : (τ.admitted.length = k + 1 ∧ (τ.file = .saved s ∨ ∃ status, τ.file = .damaged status)) ∨
    ∃ s₁, τ.admitted[k + 1]? = some s₁ ∧
      s₁.predecessorReference = some (historyReference (digest s)) ∧ τ.history (digest s) = some s

/-- No record of another campaign was found while the ended one stands. -/
theorem Over.not_live {k : ℕ} {starts : List Start} {s t : CampaignState} (h : Over digest k starts s σ)
    (hended : s.campaignState.ended = true) (ht : σ.file = .saved t)
    (hlive : t.campaignState.ended = false) : k + 1 < σ.admitted.length := by
  rcases h.stands with ⟨-, hfile | ⟨status, hfile⟩⟩ | ⟨s₁, hs₁, -⟩
  · rw [hfile] at ht
    obtain rfl := StateFile.saved.inj ht
    rw [hended] at hlive
    exact absurd hlive (by decide)
  · rw [hfile] at ht
    exact absurd ht (by simp)
  · exact (List.getElem?_eq_some_iff.mp hs₁).1

/-- A step that leaves admissions, starts and archive alone, and the record where it is not live. -/
theorem Over.frame {k : ℕ} {starts : List Start} {s : CampaignState} (h : Over digest k starts s σ)
    (hinv : Inv τ) (hadmitted : τ.admitted = σ.admitted) (hstarted : τ.started = σ.started)
    (hhistory : τ.history = σ.history)
    (hfile : k + 1 < σ.admitted.length ∨ τ.file = σ.file ∨ ∃ status, τ.file = .damaged status) :
    Over digest k starts s τ where
  inv := hinv
  starts := by rw [System.startsOf, hstarted]; exact h.starts
  stands := by
    rw [hadmitted, hhistory]
    rcases h.stands with ⟨hlength, hstands⟩ | harchived
    · rcases hfile with hlater | hfile | hfile
      · omega
      · exact Or.inl ⟨hlength, hfile ▸ hstands⟩
      · exact Or.inl ⟨hlength, Or.inr hfile⟩
    · exact Or.inr harchived

/-- An admission archives the ended record it finds, and what was archived stays. -/
theorem Over.archived {k : ℕ} {starts : List Start} {s t u : CampaignState} (h : Over digest k starts s σ)
    (hu : σ.file = .saved u) (hsafe : ∀ v, σ.history (digest u) = some v → v = u)
    (hreference : t.predecessorReference = some (historyReference (digest u)))
    (hinv : Inv ((σ.archive (some (digest u, u))).enter (some t))) :
    Over digest k starts s ((σ.archive (some (digest u, u))).enter (some t)) where
  inv := hinv
  starts := h.starts
  stands := by
    refine Or.inr ?_
    rcases h.stands with ⟨hlength, hfile | ⟨status, hfile⟩⟩ | ⟨s₁, hs₁, hreference₁, hkept⟩
    · rw [hfile] at hu
      obtain rfl := StateFile.saved.inj hu
      refine ⟨t, ?_, hreference, update_self _ _ _⟩
      show (σ.admitted ++ [t])[k + 1]? = some t
      rw [← hlength, List.getElem?_concat_length]
    · rw [hfile] at hu
      exact absurd hu (by simp)
    · refine ⟨s₁, ?_, hreference₁, System.archive_keeps hsafe hkept⟩
      exact (List.getElem?_append_left (List.getElem?_eq_some_iff.mp hs₁).1).trans hs₁

theorem Over.step {k : ℕ} {starts : List Start} {s : CampaignState} (h : Over digest k starts s σ)
    (hended : s.campaignState.ended = true) (hstep : Step digest σ τ) : Over digest k starts s τ := by
  have hinv := h.inv.step hstep
  have hsaves : ∀ {t u : CampaignState}, σ.file = .saved t → t.campaignState.ended = false →
      Inv (σ.save (some u)) → Over digest k starts s (σ.save (some u)) := fun ht hlive hsaved =>
    h.frame hsaved rfl rfl rfl (Or.inl (h.not_live hended ht hlive))
  cases hstep with
  | admission c =>
    cases hsaved : (admitCampaign digest σ.history σ.file c).saved with
    | none =>
      rw [admit_unsaved hsaved]
      exact h
    | some t =>
      obtain ⟨-, ⟨habsent, -, -⟩ | ⟨u, hu, hsome, -, -, hreference, hsafe⟩⟩ := admit_saved hsaved
      · have hempty := h.inv.empty habsent
        rcases h.stands with ⟨hlength, -⟩ | ⟨s₁, hs₁, -⟩
        · simp [hempty] at hlength
        · simp [hempty] at hs₁
      · rw [hsome]
        rw [hsome, hsaved] at hinv
        exact h.archived hu hsafe hreference hinv
  | cutShort c =>
    cases hsaved : (admitCampaign digest σ.history σ.file c).saved with
    | none =>
      rw [admit_unsaved hsaved]
      exact h
    | some t =>
      rcases (admit_saved hsaved).follows with ⟨-, hnone, -⟩ | ⟨u, -, hsome, -, -, -, hsafe⟩
      · rw [hnone]
        exact h
      · rw [hsome] at hinv ⊢
        exact
          { inv := hinv
            starts := h.starts
            stands := h.stands.imp id fun ⟨s₁, hs₁, hreference, hkept⟩ =>
              ⟨s₁, hs₁, hreference, System.archive_keeps hsafe hkept⟩ }
  | cancel reason =>
    cases hsaved : (cancel σ.file reason).1 with
    | none => exact h
    | some t =>
      obtain ⟨u, hu, hlive, -⟩ := cancel_saved hsaved
      rw [hsaved] at hinv
      exact hsaves hu hlive hinv
  | @reply ask saved reply hreply =>
    cases saved with
    | none => exact h
    | some t =>
      obtain ⟨u, hu, hlive, -⟩ := step_saved hreply
      exact hsaves hu hlive hinv
  | @start ask t a hstart hfresh =>
    obtain ⟨u, hu, hlive, -, -⟩ := step_started hstart
    have hlater := h.not_live hended hu hlive
    -- what is started now is started under a later admission
    have hk : σ.current ≠ k := by
      show σ.admitted.length - 1 ≠ k
      omega
    refine { inv := hinv, starts := ?_, stands := ?_ }
    · rw [System.startsOf_start, if_neg hk, List.append_nil]
      exact h.starts
    · rcases h.stands with ⟨hlength, -⟩ | harchived
      · omega
      · exact Or.inr harchived
  | @finish w hw hphase o hbinding hmissing => exact h.frame hinv rfl rfl rfl (Or.inr (Or.inl rfl))
  | @unheard w hw hphase result error => exact h.frame hinv rfl rfl rfl (Or.inr (Or.inl rfl))
  | @commit w hw hphase grant now t ht =>
    cases hsaved : (commitWorkerOutcome grant now σ.outcomes t w.binding).1 with
    | none =>
      rw [hsaved] at hinv
      exact h.frame hinv rfl rfl rfl (Or.inr (Or.inl rfl))
    | some u =>
      rw [hsaved] at hinv
      exact h.frame hinv rfl rfl rfl
        (Or.inl (h.not_live hended (saved_of_valid ht) (commit_committed hsaved).live))
  | @abandon w hw => exact h.frame hinv rfl rfl rfl (Or.inr (Or.inl rfl))
  | damageRecord status => exact h.frame hinv rfl rfl rfl (Or.inr (Or.inr ⟨status, rfl⟩))
  | damageOutcome id => exact h.frame hinv rfl rfl rfl (Or.inr (Or.inl rfl))

/-- **An ended campaign is over.** Once a campaign was cancelled or complete, no run starts another of
its workers, and its record stands unchanged until another campaign is admitted, whose predecessor it
is: that admission archives it as it ended, and it stays in the archive. -/
theorem ended_final (h : Reachable digest σ) {s : CampaignState} (hs : σ.file = .saved s)
    (hended : s.campaignState.ended = true) (hrun : Run.Runs (Step digest) σ τ) :
    τ.startsOf σ.current = σ.startsOf σ.current ∧
    ((τ.admitted.length = σ.admitted.length ∧ (τ.file = .saved s ∨ ∃ status, τ.file = .damaged status)) ∨
      ∃ s₁, τ.admitted[σ.admitted.length]? = some s₁ ∧
        s₁.predecessorReference = some (historyReference (digest s)) ∧
        τ.history (digest s) = some s) := by
  have hinv := Reachable.inv h
  obtain ⟨s₀, hs₀, -⟩ := (hinv.record s hs).admission
  have hlength : σ.admitted.length = σ.current + 1 := by
    have hlt : σ.current < σ.admitted.length := (List.getElem?_eq_some_iff.mp hs₀).1
    have hcurrent : σ.current = σ.admitted.length - 1 := rfl
    omega
  have hover : Over digest σ.current (σ.startsOf σ.current) s σ :=
    { inv := hinv, starts := rfl, stands := Or.inl ⟨hlength, Or.inl hs⟩ }
  have hfinal := Run.keeps (fun _ _ hkeep hstep => Over.step hkeep hended hstep) hrun hover
  rw [hlength]
  exact ⟨hfinal.starts, hfinal.stands⟩

def sampleCancelled : CampaignState :=
  { sampleClaim with
    cancellationEpoch := 1, campaignState := .cancelled, nextAction := "campaign_cancelled: stop"
    workerAttempt := some { sampleAttempt with status := .cancelRequested } }

/-- The next campaign, after the cancelled one. -/
def sampleSuccessor : CampaignState :=
  { sampleRecord with campaignId := "C-2", predecessorReference := some (historyReference "d") }

theorem sampleStarted_cancel :
    Step sampleDigest sampleStarted (sampleStarted.save (some sampleCancelled)) := by
  have hcancel : (cancel sampleStarted.file "stop").1 = some sampleCancelled := by decide +kernel
  have hstep := @Step.cancel sampleDigest sampleStarted "stop"
  rw [hcancel] at hstep
  exact hstep

/-- The cancelled campaign was followed by another one. -/
def sampleFollowed : System :=
  ((sampleStarted.save (some sampleCancelled)).archive (some ("d", sampleCancelled))).enter
    (some sampleSuccessor)

theorem sampleFollowed_step :
    Step sampleDigest (sampleStarted.save (some sampleCancelled)) sampleFollowed := by
  have hsaved : (admitCampaign sampleDigest sampleStarted.history (.saved sampleCancelled)
      (sampleCall "C-2")).saved = some sampleSuccessor := by decide +kernel
  have harchived : (admitCampaign sampleDigest sampleStarted.history (.saved sampleCancelled)
      (sampleCall "C-2")).archived = some ("d", sampleCancelled) := by decide +kernel
  have hstep := @Step.admission sampleDigest (sampleStarted.save (some sampleCancelled)) (sampleCall "C-2")
  show Step sampleDigest _ ((System.archive _ (some ("d", sampleCancelled))).enter (some sampleSuccessor))
  rw [← hsaved, ← harchived]
  exact hstep

theorem ended_final_sample :
    sampleFollowed.startsOf 0 = sampleStarted.startsOf 0 ∧
    ((sampleFollowed.admitted.length = 1 ∧ (sampleFollowed.file = .saved sampleCancelled ∨
        ∃ status, sampleFollowed.file = .damaged status)) ∨
      ∃ s₁, sampleFollowed.admitted[1]? = some s₁ ∧
        s₁.predecessorReference = some (historyReference "d") ∧
        sampleFollowed.history "d" = some sampleCancelled) :=
  ended_final (sampleStarted_reachable.tail sampleStarted_cancel) rfl rfl (.single sampleFollowed_step)

/-! ### Attempts that were lost -/

/-- An attempt is open, its outcome is not there, and no controller waits for its worker. -/
structure Lost (n k : ℕ) (starts : List Start) (s : CampaignState) (id : String) (τ : System) : Prop where
  length : τ.admitted.length = n
  starts : τ.startsOf k = starts
  unheard : ∀ o, τ.outcomes id ≠ .kept o
  unattended : ∀ w, τ.workers id = some w → w.phase ≠ .attended
  file : τ.file = .saved s ∨ (∃ status, τ.file = .damaged status) ∨
    ∃ reason t, (cancel (.saved s) reason).1 = some t ∧ τ.file = .saved t

/-- A live record is the one with the lost attempt. -/
theorem Lost.live_eq {n k : ℕ} {starts : List Start} {s t : CampaignState} {id : String}
    (h : Lost n k starts s id σ) (ht : σ.file = .saved t) (hlive : t.campaignState.ended = false) : t = s := by
  rcases h.file with hfile | ⟨status, hfile⟩ | ⟨reason, u, hu, hfile⟩
  · exact StateFile.saved.inj (ht.symm.trans hfile)
  · rw [hfile] at ht
    exact absurd ht (by simp)
  · rw [hfile] at ht
    obtain rfl := StateFile.saved.inj ht
    obtain ⟨v, -, -, rfl⟩ := cancel_saved hu
    simp [Lifecycle.ended] at hlive

/-- No commit saves over the record. -/
theorem Lost.not_committed {n k : ℕ} {starts : List Start} {s t u : CampaignState} {a : Attempt}
    (h : Lost n k starts s a.binding.attemptId σ) (ha : s.workerAttempt = some a)
    (ht : σ.file = .saved t) (hcommitted : Committed σ.outcomes t u) : False := by
  obtain ⟨hlive, b, o, hb, ho, -⟩ := hcommitted
  obtain rfl := h.live_eq ht hlive
  obtain rfl : a = b := Option.some.inj (ha.symm.trans hb)
  exact h.unheard o ho

/-- A step away from the attempt. -/
theorem Lost.frame {n k : ℕ} {starts : List Start} {s : CampaignState} {id : String}
    (h : Lost n k starts s id σ) (hadmitted : τ.admitted = σ.admitted) (hstarted : τ.started = σ.started)
    (hfile : τ.file = σ.file ∨ ∃ status, τ.file = .damaged status)
    (houtcome : τ.outcomes id = σ.outcomes id ∨ τ.outcomes id = .damaged)
    (hworker : ∀ w, τ.workers id = some w → w.phase ≠ .attended) : Lost n k starts s id τ where
  length := by rw [hadmitted]; exact h.length
  starts := by rw [System.startsOf, hstarted]; exact h.starts
  unheard o := by
    rcases houtcome with heq | heq
    · rw [heq]; exact h.unheard o
    · rw [heq]; simp
  unattended := hworker
  file := by
    rcases hfile with heq | hdamaged
    · rw [heq]; exact h.file
    · exact Or.inr (Or.inl hdamaged)

theorem Lost.step {n k : ℕ} {starts : List Start} {s : CampaignState} {a : Attempt}
    (h : Lost n k starts s a.binding.attemptId σ) (ha : s.workerAttempt = some a)
    (hopen : a.status.unsettled = true) (hstep : Step digest σ τ) :
    Lost n k starts s a.binding.attemptId τ ∨ n < τ.admitted.length := by
  have hnotAccounted : ∀ {t}, σ.file = .saved t → t.campaignState.ended = false → ¬ Accounted t := by
    intro t ht hlive haccounted
    obtain rfl := h.live_eq ht hlive
    exact absurd hopen (by simp [haccounted a ha])
  have hother : ∀ {w : Worker}, σ.workers w.binding.attemptId = some w → w.phase = .attended →
      a.binding.attemptId ≠ w.binding.attemptId := fun hw hphase heq =>
    h.unattended _ (heq ▸ hw) hphase
  cases hstep with
  | admission c =>
    cases hsaved : (admitCampaign digest σ.history σ.file c).saved with
    | none =>
      rw [admit_unsaved hsaved]
      exact Or.inl h
    | some t =>
      refine Or.inr ?_
      have hadmitted : (σ.archive (admitCampaign digest σ.history σ.file c).archived).admitted =
          σ.admitted := by
        cases (admitCampaign digest σ.history σ.file c).archived <;> rfl
      show n < (_ ++ [t]).length
      rw [hadmitted, List.length_append, h.length]
      simp
  | cutShort c =>
    cases (admitCampaign digest σ.history σ.file c).archived with
    | none => exact Or.inl h
    | some d => exact Or.inl (h.frame rfl rfl (Or.inl rfl) (Or.inl rfl) h.unattended)
  | cancel reason =>
    cases hsaved : (cancel σ.file reason).1 with
    | none => exact Or.inl h
    | some t =>
      obtain ⟨u, hu, hlive, -⟩ := cancel_saved hsaved
      obtain rfl := h.live_eq hu hlive
      rw [hu] at hsaved
      exact Or.inl
        { length := h.length, starts := h.starts, unheard := h.unheard, unattended := h.unattended
          file := Or.inr (Or.inr ⟨reason, t, hsaved, rfl⟩) }
  | @reply ask saved reply hreply =>
    cases saved with
    | none => exact Or.inl h
    | some t =>
      obtain ⟨u, hu, hlive, ⟨haccounted, -⟩ | hcommitted⟩ := step_saved hreply
      · exact absurd haccounted (hnotAccounted hu hlive)
      · exact (h.not_committed ha hu hcommitted).elim
  | @start ask t b hstart hfresh =>
    obtain ⟨u, hu, hlive, haccounted, -⟩ := step_started hstart
    exact absurd haccounted (hnotAccounted hu hlive)
  | @finish w hw hphase o hbinding hmissing =>
    have hne := hother hw hphase
    refine Or.inl (h.frame rfl rfl (Or.inl rfl) (Or.inl ?_) fun v hv => h.unattended v ?_)
    · show update σ.outcomes o.binding.attemptId (.kept o) a.binding.attemptId = _
      rw [hbinding, update_of_ne hne]
    · exact (update_of_ne hne _ _).symm.trans hv
  | @unheard w hw hphase result error =>
    refine Or.inl (h.frame rfl rfl (Or.inl rfl) (Or.inl rfl) fun v hv => h.unattended v ?_)
    exact (update_of_ne (hother hw hphase) _ _).symm.trans hv
  | @commit w hw hphase grant now t ht =>
    have hworkers : ∀ (ρ : System), ρ.workers = σ.workers → ∀ v,
        (ρ.setWorker w.binding.attemptId none).workers a.binding.attemptId = some v →
        v.phase ≠ .attended := by
      intro ρ hρ v hv
      have hv : update ρ.workers w.binding.attemptId none a.binding.attemptId = some v := hv
      rcases of_update hv with ⟨-, hnone⟩ | ⟨-, hold⟩
      · simp at hnone
      · exact h.unattended v (hρ ▸ hold)
    cases hsaved : (commitWorkerOutcome grant now σ.outcomes t w.binding).1 with
    | none => exact Or.inl (h.frame rfl rfl (Or.inl rfl) (Or.inl rfl) (hworkers σ rfl))
    | some u => exact (h.not_committed ha (saved_of_valid ht) (commit_committed hsaved)).elim
  | @abandon w hw =>
    refine Or.inl (h.frame rfl rfl (Or.inl rfl) (Or.inl rfl) fun v hv => ?_)
    rcases of_update (f := σ.workers) hv with ⟨-, hnew⟩ | ⟨-, hold⟩
    · split_ifs at hnew
      obtain rfl := Option.some.inj hnew
      simp
    · exact h.unattended v hold
  | damageRecord status =>
    exact Or.inl (h.frame rfl rfl (Or.inr ⟨status, rfl⟩) (Or.inl rfl) h.unattended)
  | damageOutcome id =>
    refine Or.inl (h.frame rfl rfl (Or.inl rfl) ?_ h.unattended)
    show update σ.outcomes id .damaged a.binding.attemptId = _ ∨ update σ.outcomes id .damaged a.binding.attemptId = _
    by_cases hid : a.binding.attemptId = id
    · exact Or.inr (by rw [hid, update_self])
    · exact Or.inl (update_of_ne hid _ _)

theorem admitted_grows (hstep : Step digest σ τ) : σ.admitted.length ≤ τ.admitted.length := by
  cases hstep with
  | admission c =>
    cases (admitCampaign digest σ.history σ.file c).archived <;>
      cases (admitCampaign digest σ.history σ.file c).saved <;>
        simp [System.archive, System.enter]
  | cutShort c =>
    cases (admitCampaign digest σ.history σ.file c).archived <;> simp [System.archive]
  | _ => exact le_rfl

/-- **No retry without a decision.** While an attempt is open and can no longer be heard of, no run
starts another worker for the campaign or changes its record, but for one cancellation; only the
admission of another campaign goes on from there. -/
theorem lost_attempt_final {s : CampaignState} (hs : σ.file = .saved s) {a : Attempt}
    (ha : s.workerAttempt = some a) (hopen : a.status.unsettled = true)
    (hunheard : ∀ o, σ.outcomes a.binding.attemptId ≠ .kept o)
    (hgone : ∀ w, σ.workers a.binding.attemptId = some w → w.phase ≠ .attended)
    (hrun : Run.Runs (Step digest) σ τ) (hsame : τ.admitted.length = σ.admitted.length) :
    τ.startsOf σ.current = σ.startsOf σ.current ∧
    (τ.file = .saved s ∨ (∃ status, τ.file = .damaged status) ∨
      ∃ reason t, (cancel (.saved s) reason).1 = some t ∧ τ.file = .saved t) := by
  have hlost : Lost σ.admitted.length σ.current (σ.startsOf σ.current) s a.binding.attemptId σ :=
    { length := rfl, starts := rfl, unheard := hunheard, unattended := hgone, file := Or.inl hs }
  have hfinal := @Run.keeps System (Step digest)
    (fun ρ => Lost σ.admitted.length σ.current (σ.startsOf σ.current) s a.binding.attemptId ρ ∨
      σ.admitted.length < ρ.admitted.length)
    (fun _ _ hkeep hstep => hkeep.elim (fun hkeep => hkeep.step ha hopen hstep)
      fun hlater => Or.inr (hlater.trans_le (admitted_grows hstep)))
    σ τ hrun (Or.inl hlost)
  rcases hfinal with hfinal | hlater
  · exact ⟨hfinal.starts, hfinal.file⟩
  · omega

/-- The controller of the worker died. -/
def sampleOrphaned : System := sampleStarted.setWorker "a1" (some { sampleWorker with phase := .orphaned })

theorem lost_attempt_final_sample :
    (sampleOrphaned.save (some sampleCancelled)).startsOf 0 = sampleOrphaned.startsOf 0 ∧
    ((sampleOrphaned.save (some sampleCancelled)).file = .saved sampleClaim ∨
      (∃ status, (sampleOrphaned.save (some sampleCancelled)).file = .damaged status) ∨
      ∃ reason t, (cancel (.saved sampleClaim) reason).1 = some t ∧
        (sampleOrphaned.save (some sampleCancelled)).file = .saved t) := by
  have hcancel : (cancel sampleOrphaned.file "stop").1 = some sampleCancelled := by decide +kernel
  have hstep := @Step.cancel sampleDigest sampleOrphaned "stop"
  rw [hcancel] at hstep
  refine @lost_attempt_final sampleDigest sampleOrphaned _ sampleClaim rfl sampleAttempt rfl
    (by decide) (fun o => ?_) (fun w hw => ?_) (.single hstep) rfl
  · simp [sampleOrphaned, sampleStarted, System.setWorker, System.start, System.enter, System.initial]
  · have hw : some { sampleWorker with phase := .orphaned } = some w := hw
    rw [← Option.some.inj hw]
    simp

end Saipen.Campaign
