import Saipen.Campaign.Invariant

/-! # Every step keeps the invariant

One lemma for each thing a step does to the project (a record saved, a record archived, an admission,
the claim of a generation, a worker that is back, an outcome written), and the steps put together from
them. -/

namespace Saipen.Campaign

open Function

variable {σ : System}

/-- What is found where one entry was replaced: the new one in its place, or what was there. -/
theorem of_update {β : Type} {f : String → β} {id i : String} {x y : β} (h : update f id x i = y) :
    (i = id ∧ x = y) ∨ (i ≠ id ∧ f i = y) := by
  by_cases hi : i = id
  · subst hi
    exact Or.inl ⟨rfl, by simpa using h⟩
  · exact Or.inr ⟨hi, by simpa [hi] using h⟩

/-! ### Saving and archiving -/

theorem Inv.save (h : Inv σ) {t : CampaignState} (ht : Recorded σ t) : Inv (σ.save (some t)) where
  record s hs := by
    obtain rfl : t = s := StateFile.saved.inj hs
    exact { ht with attempt := fun a ha => { ht.attempt a ha with } }
  empty habsent := by simp [System.save] at habsent
  tagged := h.tagged
  unique := h.unique
  numbered := h.numbered
  bounded := h.bounded
  settled := h.settled
  owned := h.owned
  known := h.known
  outcome := h.outcome
  archived := h.archived

/-- Saving nothing changes nothing. -/
theorem System.save_none (σ : System) : σ.save none = σ := rfl

/-- What is archived stays, where an archive overwrites no other record. -/
theorem System.archive_keeps {d : String} {s : CampaignState}
    (hsafe : ∀ u, σ.history d = some u → u = s) {d' : String} {s' : CampaignState}
    (hkept : σ.history d' = some s') : (σ.archive (some (d, s))).history d' = some s' := by
  show update σ.history d (some s) d' = some s'
  by_cases hd : d' = d
  · -- the record archived under this digest is the one that stands there
    subst hd
    rw [update_self, hsafe s' hkept]
  · rw [update_of_ne hd, hkept]

/-- An archive that overwrites no other record. -/
theorem Inv.archive (h : Inv σ) {d : String} {s : CampaignState}
    (hsafe : ∀ u, σ.history d = some u → u = s) : Inv (σ.archive (some (d, s))) where
  record u hu := { h.record u hu with attempt := fun a ha => { (h.record u hu).attempt a ha with } }
  empty := h.empty
  tagged := h.tagged
  unique := h.unique
  numbered := h.numbered
  bounded := h.bounded
  settled := h.settled
  owned := h.owned
  known := h.known
  outcome := h.outcome
  archived k s₀ s₁ h₀ h₁ := by
    obtain ⟨d', s', hreference, hkept, hrest⟩ := h.archived k s₀ s₁ h₀ h₁
    exact ⟨d', s', hreference, System.archive_keeps hsafe hkept, hrest⟩

/-! ### Admissions -/

/-- Nothing was started under an admission that has not happened. -/
theorem Inv.startsOf_length (h : Inv σ) : σ.startsOf σ.admitted.length = [] := by
  refine List.filter_eq_nil_iff.mpr fun e he => ?_
  obtain ⟨s₀, hs₀, -⟩ := h.tagged e he
  have hlt := (List.getElem?_eq_some_iff.mp hs₀).1
  simp only [decide_eq_true_eq]
  omega

theorem Budget.generations_pos {b : Budget} (h : validBudget b = true) : 0 < b.generations := by
  simp only [validBudget, Bool.and_eq_true] at h
  rw [Budget.generations]
  cases hg : b.maxGenerations with
  | none => decide
  | some g => simpa [hg] using h.1.1

theorem Budget.cycles_pos {b : Budget} (h : validBudget b = true) : 0 < b.cycles := by
  simp only [validBudget, Bool.and_eq_true] at h
  rw [Budget.cycles]
  cases hc : b.maxCycles with
  | none => decide
  | some c => simpa [hc] using h.1.2

/-- An admission of a fresh record that follows the last one, or is the first. -/
theorem Inv.enter (h : Inv σ) {t : CampaignState} (hfresh : Fresh t)
    (hfollows : ∀ k s₀, σ.admitted[k]? = some s₀ → k + 1 = σ.admitted.length → Succeeds σ k s₀ t) :
    Inv (σ.enter (some t)) where
  record s hs := by
    obtain rfl : t = s := StateFile.saved.inj hs
    have hcurrent : (σ.enter (some t)).current = σ.admitted.length := by
      simp [System.current, System.enter]
    have hnone : (σ.enter (some t)).startsOf (σ.enter (some t)).current = [] := by
      rw [hcurrent]
      exact h.startsOf_length
    exact
      { admission := ⟨t, by rw [hcurrent]; simp [System.enter], rfl, rfl, rfl⟩
        sound := hfresh.budget
        generations := by rw [hnone, hfresh.generation]; rfl
        counted := by rw [hfresh.generation]; exact Nat.zero_le _
        cycles := by rw [hfresh.cycles]; exact (Budget.cycles_pos hfresh.budget).le
        within := by rw [hfresh.generation]; exact (Budget.generations_pos hfresh.budget).le
        bare := fun _ => hfresh.generation
        attempt := fun a ha => by simp [hfresh.attempt] at ha }
  empty habsent := by simp [System.enter] at habsent
  tagged e he := by
    obtain ⟨s₀, hs₀, hid⟩ := h.tagged e he
    exact ⟨s₀, List.getElem?_append_left (List.getElem?_eq_some_iff.mp hs₀).1 ▸ hs₀, hid⟩
  unique := h.unique
  numbered := h.numbered
  bounded k s₀ hs₀ := by
    show ((σ.startsOf k).length : ℤ) ≤ _ ∧ ((σ.startsOf k).length : ℤ) ≤ _
    rcases lt_or_ge k σ.admitted.length with hk | hk
    · exact h.bounded k s₀ ((List.getElem?_append_left hk).symm.trans hs₀)
    · obtain ⟨rfl, rfl⟩ : k = σ.admitted.length ∧ t = s₀ := by
        have hlt := (List.getElem?_eq_some_iff.mp hs₀).1
        have hk' : k = σ.admitted.length := by
          simp [System.enter] at hlt
          omega
        subst hk'
        exact ⟨rfl, by simpa [System.enter] using hs₀⟩
      rw [h.startsOf_length]
      exact ⟨(Budget.generations_pos hfresh.budget).le, (Budget.cycles_pos hfresh.budget).le⟩
  settled := h.settled
  owned := h.owned
  known := h.known
  outcome := h.outcome
  archived k s₀ s₁ h₀ h₁ := by
    have hlt : k + 1 < (σ.admitted ++ [t]).length := (List.getElem?_eq_some_iff.mp h₁).1
    have hk : k < σ.admitted.length := by simp at hlt; omega
    have h₀ : σ.admitted[k]? = some s₀ := (List.getElem?_append_left hk).symm.trans h₀
    rcases lt_or_ge (k + 1) σ.admitted.length with hk' | hk'
    · exact h.archived k s₀ s₁ h₀ ((List.getElem?_append_left hk').symm.trans h₁)
    · have hlast : k + 1 = σ.admitted.length := by omega
      obtain rfl : t = s₁ := by
        have : (σ.admitted ++ [t])[k + 1]? = some s₁ := h₁
        rw [hlast] at this
        simpa using this
      exact hfollows k s₀ h₀ hlast

/-! ### The claim of a generation -/

/-- Where no attempt is open in a live campaign, every worker started in it is back. -/
theorem Inv.all_back (h : Inv σ) {s : CampaignState} (hs : Recorded σ s)
    (hlive : s.campaignState.ended = false) (haccounted : Accounted s) :
    ∀ e ∈ σ.startsOf σ.current, σ.Back e.binding.attemptId := by
  intro e he
  cases hattempt : s.workerAttempt with
  | none =>
    have hnone := hs.generations.trans (hs.bare hattempt)
    rw [List.length_eq_zero_iff.mp hnone] at he
    simp at he
  | some a =>
    have ha := hs.attempt a hattempt
    have hne : σ.startsOf σ.current ≠ [] := List.ne_nil_of_mem he
    have hlast : (σ.startsOf σ.current).getLast hne = ⟨σ.current, a.binding⟩ := by
      have := ha.last
      rw [List.getLast?_eq_some_getLast hne] at this
      exact Option.some.inj this
    rw [← List.dropLast_append_getLast hne, hlast] at he
    rcases List.mem_append.mp he with hearlier | hlatest
    · exact h.settled _ e hearlier
    -- the last one is accounted for: it was heard of, since a cancelled one ends the campaign
    · obtain rfl := List.mem_singleton.mp hlatest
      have hclosed := haccounted a hattempt
      cases hstatus : a.status with
      | executorStarted => simp [hstatus, AttemptStatus.unsettled] at hclosed
      | unknownOutcome => simp [hstatus, AttemptStatus.unsettled] at hclosed
      | cancelRequested =>
        rw [ha.cancelled hstatus] at hlive
        exact absurd hlive (by decide)
      | executionResultObserved =>
        obtain ⟨r, -, hreturned, -⟩ := ha.observed hstatus
        exact Option.ne_none_iff_exists'.mpr ⟨_, hreturned⟩

/-- The starts under an admission after a claim. -/
theorem System.startsOf_start (σ : System) (t : CampaignState) (a : Attempt) (k : ℕ) :
    (σ.start t a).startsOf k =
      σ.startsOf k ++ if σ.current = k then [⟨σ.current, a.binding⟩] else [] := by
  by_cases hk : σ.current = k
  · simp [System.startsOf, System.start, System.current, List.filter_append, ← hk]
  · rw [if_neg hk]
    simpa [System.startsOf, System.start, System.current, List.filter_append] using hk

theorem Inv.start (h : Inv σ) {ask : Answers} {s t : CampaignState} {a : Attempt}
    (hs : Recorded σ s) (hlive : s.campaignState.ended = false) (haccounted : Accounted s)
    (hclaim : Claimed ask s t a) (hfresh : ∀ e ∈ σ.started, e.binding.attemptId ≠ ask.attemptId) :
    Inv (σ.start t a) := by
  obtain ⟨hbelow, hbinding, href, hstatus, hunheard, n, ht⟩ := hclaim
  obtain ⟨s₀, hs₀, hid, hbudget, hpredecessor⟩ := hs.admission
  have hattemptId : a.binding.attemptId = ask.attemptId := by rw [hbinding]
  have hnotBack : ¬ σ.Back a.binding.attemptId := fun hback => by
    obtain ⟨e, he, heq⟩ := h.known _ hback
    exact hfresh e he (heq.trans hattemptId)
  have hcount : ∀ k, ((σ.start t a).startsOf k).length =
      (σ.startsOf k).length + if σ.current = k then 1 else 0 := by
    intro k
    rw [System.startsOf_start]
    split_ifs <;> simp
  have hcurrent : (σ.start t a).current = σ.current := rfl
  refine
    { record := fun u hu => ?_
      empty := fun habsent => by simp [System.start] at habsent
      tagged := fun e he => ?_
      unique := ?_
      numbered := fun k => ?_
      bounded := fun k s₁ hs₁ => ?_
      settled := fun k e he => ?_
      owned := fun id w hw => ?_
      known := fun id hback => ?_
      outcome := h.outcome
      archived := fun k s₁ s₂ h₁ h₂ => ?_ }
  · obtain rfl : t = u := StateFile.saved.inj hu
    have hgenerations := hs.generations
    have hcounted := hs.counted
    refine
      { admission := ⟨s₀, hs₀, by rw [ht]; exact ⟨hid, hbudget, hpredecessor⟩⟩
        sound := by rw [ht]; exact hs.sound
        generations := ?_
        counted := by rw [ht]; show s.workerGeneration + 1 ≤ s.cycleCount + 1; omega
        cycles := ?_
        within := ?_
        bare := fun hnone => by rw [ht] at hnone; simp at hnone
        attempt := fun b hb => ?_ }
    · rw [hcurrent, hcount, if_pos rfl, ht, hgenerations]
    · have := hbelow.1
      rw [ht]
      show ((s.cycleCount + 1 : ℕ) : ℤ) ≤ s.resourceBudget.cycles
      push_cast
      omega
    · have := hbelow.2
      rw [ht]
      show ((s.workerGeneration + 1 : ℕ) : ℤ) ≤ s.resourceBudget.generations
      push_cast
      omega
    · obtain rfl : a = b := by
        rw [ht] at hb
        exact Option.some.inj hb
      exact
        { last := by rw [hcurrent, System.startsOf_start, if_pos rfl]; simp
          reference := by rw [href, hattemptId]
          cancelled := fun hcancelled => by rw [hstatus] at hcancelled; simp at hcancelled
          heard := fun r hr => by rw [hunheard] at hr; simp at hr
          observed := fun hobserved => by rw [hstatus] at hobserved; simp at hobserved }
  · rcases List.mem_append.mp he with hold | hnew
    · exact h.tagged e hold
    · obtain rfl := List.mem_singleton.mp hnew
      refine ⟨s₀, hs₀, ?_⟩
      show a.binding.campaignId = s₀.campaignId
      rw [hbinding, ← hid]
  · show ((σ.started ++ [_]).map fun e : Start => e.binding.attemptId).Nodup
    rw [List.map_append, List.nodup_append]
    refine ⟨h.unique, by simp, fun i hi j hj => ?_⟩
    obtain ⟨e, he, rfl⟩ := List.mem_map.mp hi
    obtain rfl : j = a.binding.attemptId := by simpa using hj
    exact hattemptId ▸ hfresh e he
  · rw [hcount, System.startsOf_start, List.map_append, h.numbered]
    split_ifs with hk
    · -- the new generation is the next number
      subst hk
      rw [List.range'_1_concat, hs.generations]
      simp [hbinding, Nat.add_comm]
    · simp
  · have hbound := h.bounded k s₁ hs₁
    rw [hcount]
    split_ifs with hk
    · subst hk
      obtain rfl : s₀ = s₁ := Option.some.inj (hs₀.symm.trans hs₁)
      have hcounted := hs.counted
      rw [hs.generations, ← hbudget]
      obtain ⟨hcycles, hgenerations⟩ := hbelow
      push_cast
      constructor <;> omega
    · simpa using hbound
  · show σ.Back e.binding.attemptId
    rw [System.startsOf_start] at he
    split_ifs at he with hk
    · subst hk
      rw [List.dropLast_concat] at he
      exact h.all_back hs hlive haccounted e he
    · rw [List.append_nil] at he
      exact h.settled k e he
  · show w.binding.attemptId = id ∧ ⟨w.admission, w.binding⟩ ∈ σ.started ++ [_] ∧ (w.runs = true → ¬ σ.Back id)
    rcases of_update (f := σ.workers) hw with ⟨rfl, hnew⟩ | ⟨-, hold⟩
    · obtain rfl := Option.some.inj hnew
      exact ⟨rfl, List.mem_append_right _ (List.mem_singleton_self _), fun _ => hnotBack⟩
    · obtain ⟨hbound, hmem, hruns⟩ := h.owned id w hold
      exact ⟨hbound, List.mem_append_left _ hmem, hruns⟩
  · obtain ⟨e, he, hid⟩ := h.known id hback
    exact ⟨e, List.mem_append_left _ he, hid⟩
  · -- an admission that has a successor is not the current one
    have hk : σ.current ≠ k := by
      have := (List.getElem?_eq_some_iff.mp h₂).1
      show σ.admitted.length - 1 ≠ k
      have : k + 1 < σ.admitted.length := this
      omega
    obtain ⟨d, u, hrest⟩ := h.archived k s₁ s₂ h₁ h₂
    refine ⟨d, u, ?_⟩
    rw [System.startsOf_start, if_neg hk, List.append_nil]
    exact hrest

/-! ### Workers that are back -/

/-- A worker moves on to where it may be. -/
theorem Inv.setWorker (h : Inv σ) {id : String} {w : Option Worker}
    (hw : ∀ v, w = some v → v.binding.attemptId = id ∧ ⟨v.admission, v.binding⟩ ∈ σ.started ∧
      (v.runs = true → ¬ σ.Back id)) : Inv (σ.setWorker id w) where
  record s hs := { h.record s hs with attempt := fun a ha => { (h.record s hs).attempt a ha with } }
  empty := h.empty
  tagged := h.tagged
  unique := h.unique
  numbered := h.numbered
  bounded := h.bounded
  settled := h.settled
  owned i v hv := by
    rcases of_update (f := σ.workers) hv with ⟨rfl, hnew⟩ | ⟨-, hold⟩
    · exact hw v hnew
    · exact h.owned i v hold
  known := h.known
  outcome := h.outcome
  archived := h.archived

/-- The result of a worker that runs is noted, and the worker is no longer running. -/
theorem Inv.comeBack (h : Inv σ) {w : Worker} (hw : σ.workers w.binding.attemptId = some w)
    (hruns : w.runs = true) (result : Json) (error : Option String) {v : Option Worker}
    (hv : v = none ∨ v = some { w with phase := .returned }) :
    Inv (σ.comeBack w.binding.attemptId result error v) := by
  obtain ⟨-, hstarted, hnotBack⟩ := h.owned _ w hw
  have hnone : σ.returned w.binding.attemptId = none := not_ne_iff.mp (hnotBack hruns)
  have hsame : Same σ (σ.comeBack w.binding.attemptId result error v) :=
    { admitted := rfl
      started := rfl
      returned := fun id x hx => by
        have hne : id ≠ w.binding.attemptId := fun heq => by
          rw [heq, hnone] at hx
          simp at hx
        show update σ.returned w.binding.attemptId (some (result, error)) id = some x
        rw [update_of_ne hne, hx] }
  refine
    { record := fun s hs => hsame.recorded (h.record s hs)
      empty := h.empty
      tagged := h.tagged
      unique := h.unique
      numbered := h.numbered
      bounded := h.bounded
      settled := fun k e he => hsame.back (h.settled k e he)
      owned := fun id u hu => ?_
      known := fun id hback => ?_
      outcome := fun id o ho => (h.outcome id o ho).imp_right fun hr => hsame.returned _ _ hr
      archived := h.archived }
  · rcases of_update (f := σ.workers) hu with ⟨rfl, hnew⟩ | ⟨hid, hold⟩
    · rcases hv with rfl | rfl
      · simp at hnew
      · obtain rfl := Option.some.inj hnew
        exact ⟨rfl, hstarted, fun hr => by simp [Worker.runs] at hr⟩
    · obtain ⟨hbound, hmem, hrun⟩ := h.owned id u hold
      refine ⟨hbound, hmem, fun hr => ?_⟩
      show ¬ update σ.returned w.binding.attemptId (some (result, error)) id ≠ none
      rw [update_of_ne hid]
      exact hrun hr
  · by_cases hid : id = w.binding.attemptId
    · exact ⟨_, hstarted, hid.symm⟩
    · refine h.known id fun hn => hback ?_
      show update σ.returned w.binding.attemptId (some (result, error)) id = none
      rw [update_of_ne hid, hn]

/-- The outcome of a worker that is back is written down. -/
theorem Inv.writeOutcome (h : Inv σ) {o : Outcome}
    (ho : σ.returned o.binding.attemptId = some (o.result, o.error)) : Inv (σ.writeOutcome o) where
  record s hs := { h.record s hs with attempt := fun a ha => { (h.record s hs).attempt a ha with } }
  empty := h.empty
  tagged := h.tagged
  unique := h.unique
  numbered := h.numbered
  bounded := h.bounded
  settled := h.settled
  owned := h.owned
  known := h.known
  outcome id p hp := by
    rcases of_update (f := σ.outcomes) hp with ⟨rfl, hnew⟩ | ⟨-, hold⟩
    · obtain rfl := OutcomeFile.kept.inj hnew
      exact ⟨rfl, ho⟩
    · exact h.outcome id p hold
  archived := h.archived

/-! ### Steps and runs -/

/-- A record `step`, `cancel` or a commit saves. -/
theorem Inv.saved (h : Inv σ) {s t : CampaignState} (hs : σ.file = .saved s)
    (hlive : s.campaignState.ended = false)
    (ht : (Accounted s ∧ Advanced s t) ∨ Committed σ.outcomes s t) : Inv (σ.save (some t)) := by
  have hrecord := h.record s hs
  rcases ht with ⟨-, hkept | ⟨hbelow, hkept⟩⟩ | hcommitted
  · exact h.save (hrecord.kept hlive hkept)
  · exact h.save ((hrecord.cycle hbelow).kept hlive hkept)
  · exact h.save (hrecord.committed h hcommitted)

/-- What an admission archives overwrites nothing. -/
theorem Inv.archiveOf (h : Inv σ) (digest : CampaignState → String) (c : AdmitCall) :
    Inv (σ.archive (admitCampaign digest σ.history σ.file c).archived) := by
  cases hsaved : (admitCampaign digest σ.history σ.file c).saved with
  | none =>
    rw [admit_unsaved hsaved]
    exact h
  | some t =>
    rcases (admit_saved hsaved).follows with ⟨-, hnone, -⟩ | ⟨s, -, hsome, -, -, -, hsafe⟩
    · rw [hnone]
      exact h
    · rw [hsome]
      exact h.archive hsafe

/-- An admission follows the campaign whose record it found, and archives that record. -/
theorem Inv.admission (h : Inv σ) (digest : CampaignState → String) (c : AdmitCall) :
    Inv ((σ.archive (admitCampaign digest σ.history σ.file c).archived).enter
      (admitCampaign digest σ.history σ.file c).saved) := by
  have harchive := h.archiveOf digest c
  cases hsaved : (admitCampaign digest σ.history σ.file c).saved with
  | none => exact harchive
  | some t =>
    obtain ⟨hfresh, ⟨habsent, hnone, -⟩ | ⟨s, hs, hsome, hended, hid, hreference, -⟩⟩ := admit_saved hsaved
    · refine harchive.enter hfresh fun k s₀ hs₀ _ => ?_
      rw [hnone] at hs₀
      have hs₀ : σ.admitted[k]? = some s₀ := hs₀
      simp [h.empty habsent] at hs₀
    · rw [hsome] at harchive ⊢
      refine harchive.enter hfresh fun k s₀ hs₀ hk => ?_
      have hrecord := h.record s hs
      obtain ⟨s₁, hs₁, hcampaign, -, hpredecessor⟩ := hrecord.admission
      have hk : k = σ.current := by
        show k = σ.admitted.length - 1
        have : k + 1 = σ.admitted.length := hk
        omega
      subst hk
      obtain rfl : s₁ = s₀ := Option.some.inj (hs₁.symm.trans hs₀)
      exact ⟨digest s, s, hreference, update_self _ _ _, hended, hcampaign, hid, hpredecessor,
        hrecord.generations.symm⟩

theorem Inv.step {digest : CampaignState → String} {σ τ : System} (h : Inv σ)
    (hstep : Step digest σ τ) : Inv τ := by
  cases hstep with
  | admission c => exact h.admission digest c
  | cutShort c => exact h.archiveOf digest c
  | cancel reason =>
    cases hsaved : (cancel σ.file reason).1 with
    | none => exact h
    | some t =>
      obtain ⟨s, hs, -, ht⟩ := cancel_saved hsaved
      exact h.save ((h.record s hs).cancelled ht)
  | @reply ask saved reply hreply =>
    cases saved with
    | none => exact h
    | some t =>
      obtain ⟨s, hs, hlive, ht⟩ := step_saved hreply
      exact h.saved hs hlive ht
  | @start ask t a hstart hfresh =>
    obtain ⟨s, hs, hlive, haccounted, hclaim⟩ := step_started hstart
    exact h.start (h.record s hs) hlive haccounted hclaim hfresh
  | @finish w hw hphase o hbinding hmissing =>
    have hruns : w.runs = true := by simp [Worker.runs, hphase]
    refine (h.comeBack hw hruns o.result o.error (Or.inr rfl)).writeOutcome ?_
    rw [hbinding]
    exact update_self _ _ _
  | @unheard w hw hphase result error =>
    have hruns : w.runs = true := by simp [Worker.runs, hphase]
    exact h.comeBack hw hruns result error (Or.inl rfl)
  | @commit w hw hphase grant now s hs =>
    refine Inv.setWorker ?_ fun v hv => by simp at hv
    cases hsaved : (commitWorkerOutcome grant now σ.outcomes s w.binding).1 with
    | none => exact h
    | some t =>
      have hcommitted := commit_committed hsaved
      exact h.saved (saved_of_valid hs) hcommitted.live (Or.inr hcommitted)
  | @abandon w hw =>
    obtain ⟨-, hstarted, hruns⟩ := h.owned _ w hw
    refine h.setWorker fun v hv => ?_
    split_ifs at hv with hphase
    obtain rfl := Option.some.inj hv
    exact ⟨rfl, hstarted, fun _ => hruns (by simp [Worker.runs, hphase])⟩
  | damageRecord status =>
    exact { h with record := fun s hs => by simp at hs, empty := fun habsent => by simp at habsent }
  | damageOutcome id =>
    refine { h with record := fun s hs => ?_, outcome := fun i o ho => ?_ }
    · exact { h.record s hs with attempt := fun a ha => { (h.record s hs).attempt a ha with } }
    · by_cases hi : i = id
      · subst hi
        simp at ho
      · exact h.outcome i o (by simpa [hi] using ho)

/-- Every system a project comes to satisfies the invariant. -/
theorem Reachable.inv {digest : CampaignState → String} (h : Reachable digest σ) : Inv σ :=
  Run.keeps (fun _ _ hinv hstep => hinv.step hstep) h Inv.initial

end Saipen.Campaign
