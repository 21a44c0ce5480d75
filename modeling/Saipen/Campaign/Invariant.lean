import Mathlib.Data.List.Basic
import Saipen.Campaign.Effects
import Saipen.Campaign.System

/-! # What holds between the record, the outcomes and what happened

The record of the current campaign counts the generations that were started under its admission, the
attempt it names is the last of them, and what it says the worker returned is what the worker
returned. Every start but the last under an admission has been heard of, which is why two workers of
one campaign never run at once. Each step keeps this; the claim of a generation is the step with an
argument in it. -/

namespace Saipen.Campaign

open Function

/-! ### The invariant -/

namespace System

/-- The number of the current campaign. -/
def current (σ : System) : ℕ := σ.admitted.length - 1

/-- The worker of an attempt is back. -/
def Back (σ : System) (id : String) : Prop := σ.returned id ≠ none

end System

/-- What a record says of its attempt. -/
structure Attested (σ : System) (s : CampaignState) (a : Attempt) : Prop where
  last : (σ.startsOf σ.current).getLast? = some ⟨σ.current, a.binding⟩
  reference : a.resultReference = attemptReference a.binding.attemptId
  cancelled : a.status = .cancelRequested → s.campaignState = .cancelled
  heard : ∀ r, a.result = some r → ∃ e, σ.returned a.binding.attemptId = some (r, e)
  observed : a.status = .executionResultObserved → ∃ r, a.result = some r ∧
    σ.returned a.binding.attemptId = some (r, none) ∧ isDict r = true ∧ field r "ok" ≠ some (.bool false)

/-- What a record says, against what happened. -/
structure Recorded (σ : System) (s : CampaignState) : Prop where
  admission : ∃ s₀, σ.admitted[σ.current]? = some s₀ ∧ s.campaignId = s₀.campaignId ∧
    s.resourceBudget = s₀.resourceBudget ∧ s.predecessorReference = s₀.predecessorReference
  sound : validBudget s.resourceBudget = true
  generations : (σ.startsOf σ.current).length = s.workerGeneration
  counted : s.workerGeneration ≤ s.cycleCount
  cycles : (s.cycleCount : ℤ) ≤ s.resourceBudget.cycles
  within : (s.workerGeneration : ℤ) ≤ s.resourceBudget.generations
  bare : s.workerAttempt = none → s.workerGeneration = 0
  attempt : ∀ a, s.workerAttempt = some a → Attested σ s a

/-- The predecessor of an admission is archived as it ended. -/
def Succeeds (σ : System) (k : ℕ) (s₀ s₁ : CampaignState) : Prop :=
  ∃ d s, s₁.predecessorReference = some (historyReference d) ∧ σ.history d = some s ∧
    s.campaignState.ended = true ∧ s.campaignId = s₀.campaignId ∧ s₁.campaignId ≠ s.campaignId ∧
    s.predecessorReference = s₀.predecessorReference ∧ s.workerGeneration = (σ.startsOf k).length

/-- The invariant. -/
structure Inv (σ : System) : Prop where
  record : ∀ s, σ.file = .saved s → Recorded σ s
  empty : σ.file = .absent → σ.admitted = []
  tagged : ∀ e ∈ σ.started, ∃ s₀, σ.admitted[e.admission]? = some s₀ ∧
    e.binding.campaignId = s₀.campaignId
  unique : (σ.started.map (·.binding.attemptId)).Nodup
  numbered : ∀ k, (σ.startsOf k).map (·.binding.generation) = List.range' 1 (σ.startsOf k).length
  bounded : ∀ k s₀, σ.admitted[k]? = some s₀ →
    ((σ.startsOf k).length : ℤ) ≤ s₀.resourceBudget.generations ∧
      ((σ.startsOf k).length : ℤ) ≤ s₀.resourceBudget.cycles
  settled : ∀ k, ∀ e ∈ (σ.startsOf k).dropLast, σ.Back e.binding.attemptId
  owned : ∀ id w, σ.workers id = some w → w.binding.attemptId = id ∧
    ⟨w.admission, w.binding⟩ ∈ σ.started ∧ (w.runs = true → ¬ σ.Back id)
  known : ∀ id, σ.Back id → ∃ e ∈ σ.started, e.binding.attemptId = id
  outcome : ∀ id o, σ.outcomes id = .kept o →
    o.binding.attemptId = id ∧ σ.returned id = some (o.result, o.error)
  archived : ∀ k s₀ s₁, σ.admitted[k]? = some s₀ → σ.admitted[k + 1]? = some s₁ → Succeeds σ k s₀ s₁

theorem Inv.initial : Inv System.initial where
  record s h := by simp [System.initial] at h
  empty _ := rfl
  tagged e h := by simp [System.initial] at h
  unique := by simp [System.initial]
  numbered k := by simp [System.initial, System.startsOf]
  bounded k s₀ h := by simp [System.initial] at h
  settled k e h := by simp [System.initial, System.startsOf] at h
  owned id w h := by simp [System.initial] at h
  known id h := by simp [System.initial, System.Back] at h
  outcome id o h := by simp [System.initial] at h
  archived k s₀ s₁ h := by simp [System.initial] at h

/-! ### Records over the same history -/

/-- The admissions and the starts are the same, and no result is forgotten. -/
structure Same (σ τ : System) : Prop where
  admitted : τ.admitted = σ.admitted
  started : τ.started = σ.started
  returned : ∀ id x, σ.returned id = some x → τ.returned id = some x

namespace Same

variable {σ τ : System}

theorem current (h : Same σ τ) : τ.current = σ.current := by
  rw [System.current, System.current, h.admitted]

theorem startsOf (h : Same σ τ) (k : ℕ) : τ.startsOf k = σ.startsOf k := by
  rw [System.startsOf, System.startsOf, h.started]

theorem back (h : Same σ τ) {id : String} (hid : σ.Back id) : τ.Back id := by
  obtain ⟨x, hx⟩ := Option.ne_none_iff_exists'.mp hid
  exact Option.ne_none_iff_exists'.mpr ⟨x, h.returned id x hx⟩

theorem attested (h : Same σ τ) {s : CampaignState} {a : Attempt} (ha : Attested σ s a) :
    Attested τ s a where
  last := by rw [h.startsOf, h.current]; exact ha.last
  reference := ha.reference
  cancelled := ha.cancelled
  heard r hr := (ha.heard r hr).imp fun _ => h.returned _ _
  observed hst := (ha.observed hst).imp fun _ hr => ⟨hr.1, h.returned _ _ hr.2.1, hr.2.2⟩

theorem recorded (h : Same σ τ) {s : CampaignState} (hs : Recorded σ s) : Recorded τ s where
  admission := by rw [h.current, h.admitted]; exact hs.admission
  sound := hs.sound
  generations := by rw [h.startsOf, h.current]; exact hs.generations
  counted := hs.counted
  cycles := hs.cycles
  within := hs.within
  bare := hs.bare
  attempt a ha := h.attested (hs.attempt a ha)

end Same

/-! ### Records that were saved -/

/-- A record that only has a new lifecycle state and new notes. -/
theorem Recorded.kept {σ : System} {s t : CampaignState} (h : Recorded σ s)
    (hlive : s.campaignState.ended = false) (hst : Kept s t) : Recorded σ t := by
  obtain ⟨l, n, w, g, hl, rfl⟩ := hst
  refine { h with attempt := fun a ha => ?_ }
  refine { h.attempt a ha with cancelled := fun hcancelled => ?_ }
  -- a cancelled attempt belongs to a cancelled campaign, and this one is live
  have hs := (h.attempt a ha).cancelled hcancelled
  rw [hs] at hlive
  exact absurd hlive (by decide)

/-- A record that counted a cycle below its limit. -/
theorem Recorded.cycle {σ : System} {s : CampaignState} (h : Recorded σ s) (hbelow : Below s) :
    Recorded σ { s with cycleCount := s.cycleCount + 1 } where
  admission := h.admission
  sound := h.sound
  generations := h.generations
  counted := by
    have := h.counted
    show s.workerGeneration ≤ s.cycleCount + 1
    omega
  cycles := by
    have := hbelow.1
    show ((s.cycleCount + 1 : ℕ) : ℤ) ≤ s.resourceBudget.cycles
    push_cast
    omega
  within := h.within
  bare := h.bare
  attempt a ha := { h.attempt a ha with }

/-- A record that took over the outcome of its attempt. -/
theorem Recorded.committed {σ : System} {s t : CampaignState} (hσ : Inv σ) (h : Recorded σ s)
    (hst : Committed σ.outcomes s t) : Recorded σ t := by
  obtain ⟨hlive, a, o, ha, ho, hbinding, ⟨l, p, n, r, m, -, ht⟩, b, hb, hbound, href, hres, hstatus, hobs⟩ := hst
  have hreturned : σ.returned b.binding.attemptId = some (o.result, o.error) := by
    rw [hbound]
    exact (hσ.outcome _ o ho).2
  have hattempt : Attested σ t b :=
    { last := by rw [hbound]; exact (h.attempt a ha).last
      reference := by rw [href, hbound]; exact (h.attempt a ha).reference
      cancelled := fun hcancelled => absurd hcancelled hstatus
      heard := fun r' hr' => by
        obtain rfl : o.result = r' := Option.some.inj (hres.symm.trans hr')
        exact ⟨o.error, hreturned⟩
      observed := fun hobserved => by
        obtain ⟨herror, hdict, hok⟩ := hobs hobserved
        exact ⟨o.result, hres, herror ▸ hreturned, hdict, hok⟩ }
  exact
    { admission := by rw [ht]; exact h.admission
      sound := by rw [ht]; exact h.sound
      generations := by rw [ht]; exact h.generations
      counted := by rw [ht]; exact h.counted
      cycles := by rw [ht]; exact h.cycles
      within := by rw [ht]; exact h.within
      bare := fun hnone => by simp [hb] at hnone
      attempt := fun b' hb' => by
        obtain rfl : b = b' := Option.some.inj (hb.symm.trans hb')
        exact hattempt }

/-- A record that was cancelled. -/
theorem Recorded.cancelled {σ : System} {s t : CampaignState} {reason : String} (h : Recorded σ s)
    (ht : t = { s with
      cancellationEpoch := s.cancellationEpoch + 1
      workerAttempt := s.workerAttempt.map Attempt.cancelled
      campaignState := .cancelled
      nextAction := "campaign_cancelled: " ++ reason }) : Recorded σ t := by
  subst ht
  refine { h with bare := fun hnone => ?_, attempt := fun b hb => ?_ }
  · exact h.bare (by simpa using hnone)
  · obtain ⟨a, ha, rfl⟩ := Option.map_eq_some_iff.mp hb
    have hs := h.attempt a ha
    rw [Attempt.cancelled]
    split_ifs with hopen
    · exact { last := hs.last, reference := hs.reference, cancelled := fun _ => rfl
              heard := hs.heard, observed := fun hobserved => by simp at hobserved }
    · exact { hs with cancelled := fun _ => rfl }

end Saipen.Campaign
