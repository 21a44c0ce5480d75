import Saipen.Campaign.Controller

/-! # What one call can do to the record

One lemma for each call. A step that saves without starting a worker either keeps everything but the
lifecycle state and its notes, counting at most one cycle and only below the limit, or commits the
outcome of the attempt the record has. A step that starts a worker does so below both limits and
after the last attempt was accounted for. -/

namespace Saipen.Campaign

/-- The cycles a budget allows. -/
def Budget.cycles (b : Budget) : ℤ := b.maxCycles.getD 10

/-- The generations a budget allows. -/
def Budget.generations (b : Budget) : ℤ := b.maxGenerations.getD 999999

/-- Only the lifecycle state and the notes beside it differ. -/
def Kept (s t : CampaignState) : Prop :=
  ∃ l n w g, l.ended = false ∧
    t = { s with campaignState := l, nextAction := n, wakeCondition := w, lastAnalysisGeneration := g }

/-! ### Settling an outcome -/

/-- What a commit does to the record: the attempt takes the result over, and the binding stays. -/
structure Settled (s t : CampaignState) (a : Attempt) (o : Outcome) : Prop where
  fields : ∃ l p n r m, (l = s.campaignState ∨ l = .authorityBlocked) ∧
    t = { s with campaignState := l, lastProductiveProgress := p, nextAction := n, retryCount := r
                 noProgressCount := m, workerAttempt := t.workerAttempt }
  attempt : ∃ b, t.workerAttempt = some b ∧ b.binding = a.binding ∧
    b.resultReference = a.resultReference ∧ b.result = some o.result ∧ b.status ≠ .cancelRequested ∧
    (b.status = .executionResultObserved → o.error = none ∧ isDict o.result = true ∧
      field o.result "ok" ≠ some (.bool false))

theorem settle_settled (grant : String → GrantAnswer) (now : ℤ) (s : CampaignState) (a : Attempt)
    (o : Outcome) : Settled s (settle grant now s a o).1 a o := by
  by_cases hgrant : (verifyStateGrant grant s none).valid = true
  · by_cases hfailed : (o.error.isSome || !isDict o.result || field o.result "ok" = some (.bool false)) = true
    · simp only [settle, hgrant, if_true, hfailed]
      exact ⟨⟨_, _, _, _, _, Or.inl rfl, rfl⟩, _, rfl, rfl, rfl, rfl, by simp, by simp⟩
    · have hheard : o.error = none ∧ isDict o.result = true ∧
          field o.result "ok" ≠ some (.bool false) := by
        simpa [and_assoc] using hfailed
      by_cases hroute : field o.result "route_only" = some (.bool true)
      · simp only [settle, hgrant, if_true, hfailed, if_false, hroute, Bool.false_eq_true]
        exact ⟨⟨_, _, _, _, _, Or.inl rfl, rfl⟩, _, rfl, rfl, rfl, rfl, by simp, fun _ => hheard⟩
      · simp only [settle, hgrant, if_true, hfailed, if_false, hroute, Bool.false_eq_true]
        exact ⟨⟨_, _, _, _, _, Or.inl rfl, rfl⟩, _, rfl, rfl, rfl, rfl, by simp, fun _ => hheard⟩
  · -- a grant that went invalid makes every outcome a failed one
    simp only [settle, hgrant, if_false, Bool.false_eq_true, Option.isSome_some, Bool.true_or, if_true]
    exact ⟨⟨_, _, _, _, _, Or.inr rfl, rfl⟩, _, rfl, rfl, rfl, rfl, by simp, by simp⟩

/-- A commit that saves has found the outcome of the record's own attempt, on a campaign that has not
ended. -/
structure Committed (outcomes : String → OutcomeFile) (s t : CampaignState) : Prop where
  live : s.campaignState.ended = false
  settled : ∃ a o, s.workerAttempt = some a ∧ outcomes a.binding.attemptId = .kept o ∧
    o.binding = a.binding ∧ Settled s t a o

theorem commit_committed {grant : String → GrantAnswer} {now : ℤ} {outcomes : String → OutcomeFile}
    {s t : CampaignState} {expected : Binding}
    (h : (commitWorkerOutcome grant now outcomes s expected).1 = some t) : Committed outcomes s t := by
  rw [commitWorkerOutcome] at h
  split at h
  · simp [fenced] at h
  · rename_i a ha
    split_ifs at h with hfence href
    · simp [fenced] at h
    · split at h
      · simp at h
      · simp at h
      · rename_i o ho
        split_ifs at h with hbad
        simp only [Bool.or_eq_true, not_or, Bool.not_eq_true] at hfence
        simp only [ne_eq, decide_not, Bool.or_eq_true, Bool.not_eq_eq_eq_not, Bool.not_true,
          decide_eq_false_iff_not, decide_eq_true_eq, not_or, not_not] at hbad
        have ht : (settle grant now s a o).1 = t := Option.some.inj h
        exact ⟨hfence.2, a, o, ha, ho, hbad.1, ht ▸ settle_settled grant now s a o⟩

/-! ### Steps that save and reply -/

/-- A reply that saved kept the record. -/
def KeepsOn (s : CampaignState) (r : StepOutcome) : Prop :=
  ∀ t reply, r = .replied (some t) reply → Kept s t

theorem keepsOn_park {s u : CampaignState} {l : Lifecycle} {ok : Bool} {event : String}
    {code status : Option String} (hl : l.ended = false) {n : String} {w : Option String} {g : ℕ}
    (hu : u = { s with nextAction := n, wakeCondition := w, lastAnalysisGeneration := g }) :
    KeepsOn s (park u l ok event code status) := by
  intro t reply h
  obtain ⟨rfl, -⟩ : { u with campaignState := l } = t ∧ _ := by simpa [park] using h
  exact ⟨l, n, w, g, hl, by rw [hu]⟩

theorem keepsOn_none (s : CampaignState) (reply : Reply) : KeepsOn s (.replied none reply) := by
  intro t r h
  simp at h

theorem keepsOn_started (s t : CampaignState) (a : Attempt) : KeepsOn s (.started t a) := by
  intro u r h
  simp at h

theorem keepsOn_deliverFindings {ask : Answers} {backend : Backend} {s u : CampaignState} {l : Lifecycle}
    {g : ℕ} (hu : u = { s with campaignState := l, lastAnalysisGeneration := g }) (findings : List Json) :
    KeepsOn s (deliverFindings ask backend u findings) := by
  intro t reply h
  simp only [deliverFindings] at h
  split at h
  · obtain rfl := Option.some.inj (StepOutcome.replied.inj h).1
    exact ⟨.auditDelivery, s.nextAction, s.wakeCondition, g, rfl, by rw [hu]⟩
  · obtain rfl := Option.some.inj (StepOutcome.replied.inj h).1
    refine ⟨_, s.nextAction, s.wakeCondition, g, ?_, by rw [hu]⟩
    split_ifs <;> rfl

theorem keepsOn_forensicDiscovery (ask : Answers) (s : CampaignState) :
    KeepsOn s (forensicDiscovery ask s) := by
  rw [forensicDiscovery]
  split
  · exact keepsOn_park rfl rfl
  · split
    · exact keepsOn_park rfl rfl
    · split
      · refine keepsOn_park ?_ rfl
        split_ifs <;> rfl
      · rename_i status findings hdiscovery
        by_cases hprogress : status = "ANALYSIS_PROGRESS"
        · simp only [hprogress, decide_true, Bool.or_true, if_true]
          exact keepsOn_park rfl rfl
        · by_cases hnew : status = "NEW_QUALIFIED_FINDINGS"
          · simp only [hnew, decide_true, Bool.true_or, if_true]
            exact keepsOn_deliverFindings rfl findings
          · simp only [hnew, hprogress, decide_false, Bool.or_false, if_false, Bool.false_eq_true]
            exact keepsOn_park rfl rfl

theorem keepsOn_classified (ask : Answers) (s : CampaignState) : KeepsOn s (classified ask s) := by
  rw [classified]
  split
  all_goals first
    | exact keepsOn_park rfl rfl
    | exact keepsOn_forensicDiscovery ask s
    | exact keepsOn_none s _
    | skip
  all_goals
    rw [startWorker]
    split_ifs
    · exact keepsOn_park rfl rfl
    · exact keepsOn_none s _
    · exact keepsOn_started s _ _

/-- The limits a claim stays below. -/
def Below (s : CampaignState) : Prop :=
  (s.cycleCount : ℤ) < s.resourceBudget.cycles ∧ (s.workerGeneration : ℤ) < s.resourceBudget.generations

/-- A step where no attempt is open keeps the record, or counts a cycle below the limits. -/
def Advanced (s t : CampaignState) : Prop :=
  Kept s t ∨ (Below s ∧ Kept { s with cycleCount := s.cycleCount + 1 } t)

/-- Below the limits a step goes by its classification; everything before that replies. -/
theorem advance_cases (ask : Answers) (s : CampaignState) :
    (∃ saved reply, advance ask s = .replied saved reply ∧ KeepsOn s (.replied saved reply)) ∨
      (Below s ∧ advance ask s =
        classified ask { s with cycleCount := s.cycleCount + 1, nextAction := ask.assessment.nextAction }) := by
  rw [advance]
  split_ifs with hproof hgrant hbudget hcycles hgenerations hwall
  · exact Or.inl ⟨_, _, rfl, keepsOn_park rfl rfl⟩
  · exact Or.inl ⟨_, _, rfl, keepsOn_park rfl rfl⟩
  · exact Or.inl ⟨_, _, rfl, keepsOn_none s _⟩
  · exact Or.inl ⟨_, _, rfl, keepsOn_park rfl rfl⟩
  · exact Or.inl ⟨_, _, rfl, keepsOn_park rfl rfl⟩
  · exact Or.inl ⟨_, _, rfl, keepsOn_park rfl rfl⟩
  · exact Or.inr ⟨⟨not_le.mp hcycles, not_le.mp hgenerations⟩, rfl⟩

theorem advance_saved {ask : Answers} {s t : CampaignState} {reply : Reply}
    (h : advance ask s = .replied (some t) reply) : Advanced s t := by
  rcases advance_cases ask s with ⟨saved, r, hreply, hkeeps⟩ | ⟨hbelow, hadvance⟩
  · exact Or.inl (hkeeps t reply (hreply.symm.trans h))
  · obtain ⟨l, n, w, g, hl, ht⟩ := keepsOn_classified ask _ t reply (hadvance.symm.trans h)
    exact Or.inr ⟨hbelow, l, n, w, g, hl, ht⟩

/-! ### Steps that start a worker -/

/-- The claim of a generation: it follows the last one, within the budget, in a campaign whose last
attempt is accounted for. -/
structure Claimed (ask : Answers) (s t : CampaignState) (a : Attempt) : Prop where
  below : Below s
  binding : a.binding =
    { attemptId := ask.attemptId, campaignId := s.campaignId, generation := s.workerGeneration + 1
      cancellationEpoch := s.cancellationEpoch, executionIntent := ask.assessment.record }
  reference : a.resultReference = attemptReference ask.attemptId
  status : a.status = .executorStarted
  unheard : a.result = none
  record : ∃ n, t = { s with
    campaignState := .running, nextAction := n, cycleCount := s.cycleCount + 1
    workerGeneration := s.workerGeneration + 1, workerAttempt := some a }

theorem classified_started {ask : Answers} {s t : CampaignState} {a : Attempt}
    (h : classified ask s = .started t a) : startWorker ask s = .started t a := by
  have hdeliver : ∀ backend u findings, deliverFindings ask backend u findings ≠ .started t a := by
    intro backend u findings
    simp only [deliverFindings]
    split <;> simp
  have hdiscovery : forensicDiscovery ask s ≠ .started t a := by
    rw [forensicDiscovery]
    split
    · simp [park]
    · split
      · simp [park]
      · split
        · simp [park]
        · simp only
          split
          · simp [park]
          · split
            · exact hdeliver _ _ _
            · simp [park]
  rw [classified] at h
  split at h
  all_goals first
    | exact h
    | exact absurd h hdiscovery
    | exact absurd h (by simp [park])

theorem startWorker_started {ask : Answers} {s t : CampaignState} {a : Attempt}
    (h : startWorker ask s = .started t a) :
    a = { binding :=
            { attemptId := ask.attemptId, campaignId := s.campaignId, generation := s.workerGeneration + 1
              cancellationEpoch := s.cancellationEpoch, executionIntent := ask.assessment.record }
          injected := decide (ask.executor = .injected), resultReference := attemptReference ask.attemptId } ∧
      t = { s with
        campaignState := .running, workerGeneration := s.workerGeneration + 1, workerAttempt := some a } := by
  rw [startWorker] at h
  split_ifs at h with hgrant hexecutor
  · simp [park] at h
  · obtain ⟨ht, ha⟩ := StepOutcome.started.inj h
    exact ⟨ha.symm, by rw [← ht, ha]⟩

theorem advance_started {ask : Answers} {s t : CampaignState} {a : Attempt}
    (h : advance ask s = .started t a) : Claimed ask s t a := by
  rcases advance_cases ask s with ⟨saved, reply, hreply, -⟩ | ⟨hbelow, hadvance⟩
  · exact absurd (hreply.symm.trans h) (by simp)
  · obtain ⟨ha, ht⟩ := startWorker_started (classified_started (hadvance.symm.trans h))
    exact
      { below := hbelow
        binding := by rw [ha]
        reference := by rw [ha]
        status := by rw [ha]
        unheard := by rw [ha]
        record := ⟨_, ht⟩ }

/-! ### A step from the file -/

/-- No attempt of the record is open. -/
def Accounted (s : CampaignState) : Prop := ∀ a, s.workerAttempt = some a → a.status.unsettled = false

/-- A step refuses, reconciles the open attempt of a live campaign, or advances one that has none. -/
theorem step_cases (ask : Answers) (outcomes : String → OutcomeFile) (file : StateFile) :
    (∃ reply, step ask outcomes file = .replied none reply) ∨
      ∃ s, file = .saved s ∧ s.campaignState.ended = false ∧
        ((∃ a, s.workerAttempt = some a ∧ step ask outcomes file = reconcile ask outcomes s a) ∨
          (Accounted s ∧ step ask outcomes file = advance ask s)) := by
  rw [step]
  split
  · exact Or.inl ⟨_, rfl⟩
  · exact Or.inl ⟨_, rfl⟩
  · rename_i s hs
    split_ifs with hended hproposed
    · exact Or.inl ⟨_, rfl⟩
    · exact Or.inl ⟨_, rfl⟩
    refine Or.inr ⟨s, saved_of_valid hs, by simpa using hended, ?_⟩
    split
    · rename_i a ha
      split_ifs with hopen
      · exact Or.inl ⟨a, ha, rfl⟩
      · refine Or.inr ⟨fun b hb => ?_, rfl⟩
        obtain rfl : a = b := Option.some.inj (ha.symm.trans hb)
        simpa using hopen
    · rename_i hnone
      exact Or.inr ⟨fun b hb => by simp [hnone] at hb, rfl⟩

theorem step_saved {ask : Answers} {outcomes : String → OutcomeFile} {file : StateFile}
    {t : CampaignState} {reply : Reply} (h : step ask outcomes file = .replied (some t) reply) :
    ∃ s, file = .saved s ∧ s.campaignState.ended = false ∧
      ((Accounted s ∧ Advanced s t) ∨ Committed outcomes s t) := by
  rcases step_cases ask outcomes file with ⟨r, hr⟩ | ⟨s, hs, hlive, ⟨a, -, hstep⟩ | ⟨haccounted, hstep⟩⟩
  · simp [hr] at h
  · rw [hstep, reconcile] at h
    split at h
    · exact ⟨s, hs, hlive, Or.inr (commit_committed (StepOutcome.replied.inj h).1)⟩
    · simp at h
  · exact ⟨s, hs, hlive, Or.inl ⟨haccounted, advance_saved (hstep.symm.trans h)⟩⟩

theorem step_started {ask : Answers} {outcomes : String → OutcomeFile} {file : StateFile}
    {t : CampaignState} {a : Attempt} (h : step ask outcomes file = .started t a) :
    ∃ s, file = .saved s ∧ s.campaignState.ended = false ∧ Accounted s ∧ Claimed ask s t a := by
  rcases step_cases ask outcomes file with ⟨r, hr⟩ | ⟨s, hs, hlive, ⟨b, -, hstep⟩ | ⟨haccounted, hstep⟩⟩
  · simp [hr] at h
  · rw [hstep, reconcile] at h
    split at h <;> simp at h
  · exact ⟨s, hs, hlive, haccounted, advance_started (hstep.symm.trans h)⟩

/-! ### Cancellation and admission -/

theorem cancel_saved {file : StateFile} {reason : String} {t : CampaignState}
    (h : (cancel file reason).1 = some t) :
    ∃ s, file = .saved s ∧ s.campaignState.ended = false ∧ t = { s with
      cancellationEpoch := s.cancellationEpoch + 1
      workerAttempt := s.workerAttempt.map Attempt.cancelled
      campaignState := .cancelled
      nextAction := "campaign_cancelled: " ++ reason } := by
  rw [cancel] at h
  split at h
  · simp at h
  · simp at h
  · rename_i s hs
    split at h
    · simp at h
    · rename_i hlive
      exact ⟨s, saved_of_valid hs, by simpa using hlive, (Option.some.inj h).symm⟩

/-- A record as an admission writes it: nothing has happened to it, and its budget is a valid one. -/
structure Fresh (s : CampaignState) : Prop where
  live : s.campaignState.ended = false
  generation : s.workerGeneration = 0
  cycles : s.cycleCount = 0
  attempt : s.workerAttempt = none
  budget : validBudget s.resourceBudget = true

theorem validBudget_getD {b : Option Budget} (h : b.all validBudget = true) :
    validBudget (b.getD {}) = true := by
  cases b with
  | none => rfl
  | some b => exact h

theorem fresh_record {c : AdmitCall} {horizon : Budget} {s : CampaignState}
    (hhorizon : validBudget horizon = true) (hasked : c.resourceBudget.all validBudget = true)
    (h : c.record horizon = .ok s) : Fresh s ∧ s.campaignId = c.cid ∧ s.predecessorReference = none := by
  have hbudget := validBudget_update hhorizon (validBudget_getD hasked)
  simp only [AdmitCall.record] at h
  split at h
  · obtain rfl := Except.ok.inj h
    exact ⟨⟨rfl, rfl, rfl, rfl, hbudget⟩, rfl, rfl⟩
  · split at h
    · simp at h
    · rename_i authorization hcarrier
      split at h
      · simp at h
      · split at h
        · simp at h
        · obtain rfl := Except.ok.inj h
          exact ⟨⟨rfl, rfl, rfl, rfl, validBudget_capped hbudget _⟩, rfl, rfl⟩

/-- An admission that saves: the record is fresh, and it follows an ended campaign of another identity
that is archived with it, or nothing. -/
structure Admitted (digest : CampaignState → String) (history : String → Option CampaignState)
    (file : StateFile) (archived : Option (String × CampaignState)) (t : CampaignState) : Prop where
  fresh : Fresh t
  follows : (file = .absent ∧ archived = none ∧ t.predecessorReference = none) ∨
    ∃ s, file = .saved s ∧ archived = some (digest s, s) ∧ s.campaignState.ended = true ∧
      t.campaignId ≠ s.campaignId ∧ t.predecessorReference = some (historyReference (digest s)) ∧
      ∀ u, history (digest s) = some u → u = s

theorem admit_saved {digest : CampaignState → String} {history : String → Option CampaignState}
    {file : StateFile} {c : AdmitCall} {t : CampaignState}
    (h : (admitCampaign digest history file c).saved = some t) :
    Admitted digest history file (admitCampaign digest history file c).archived t := by
  simp only [admitCampaign] at h ⊢
  split at h
  · simp at h
  · rename_i horizon hlookup
    have hhorizon : validBudget horizon = true :=
      validBudget_horizons _ (Assoc.mem_of_lookup hlookup)
    split at h
    · simp at h
    · rename_i hasked
      have hfresh := fun s => fresh_record (c := c) (s := s) hhorizon (by simpa using hasked)
      simp only [hasked]
      split at h
      · simp at h
      · rename_i habsent
        split at h
        · simp at h
        · rename_i s hs
          obtain rfl := Option.some.inj h
          obtain ⟨hs, -, hpredecessor⟩ := hfresh s hs
          refine ⟨hs, Or.inl ⟨?_, rfl, hpredecessor⟩⟩
          cases hfile : file with
          | absent => rfl
          | damaged status => simp [hfile, inspectCampaignState] at habsent
          | saved u =>
            rw [hfile, inspectCampaignState] at habsent
            split_ifs at habsent
      · rename_i existing hexisting
        split at h
        · split at h <;> simp at h
        · rename_i hended
          split at h
          · simp at h
          · rename_i hid
            split at h
            · simp at h
            · rename_i s hs
              split at h
              · simp at h
              · rename_i hhistory
                obtain rfl := Option.some.inj h
                obtain ⟨hs, hcid, -⟩ := hfresh s hs
                refine ⟨⟨hs.live, hs.generation, hs.cycles, hs.attempt, hs.budget⟩, Or.inr
                  ⟨existing, saved_of_valid hexisting, ?_, by simpa using hended,
                    hcid ▸ hid, rfl, fun u hu => ?_⟩⟩
                · simp only [hended, hid, Bool.false_eq_true, if_false]
                  rw [if_neg hhistory]
                · simpa [hu] using hhistory

/-- Nothing is archived where nothing is saved. -/
theorem admit_unsaved {digest : CampaignState → String} {history : String → Option CampaignState}
    {file : StateFile} {c : AdmitCall} (h : (admitCampaign digest history file c).saved = none) :
    (admitCampaign digest history file c).archived = none := by
  simp only [admitCampaign] at h ⊢
  split
  · rfl
  · split
    · rfl
    · split
      · rfl
      · split <;> rfl
      · split
        · split <;> rfl
        · split
          · rfl
          · split
            · rfl
            · split
              · rfl
              · rename_i hlookup hasked _ _ hexisting hended hid _ _ hrecord hhistory
                simp_all

end Saipen.Campaign
