import Saipen.HostAuthority.Verification
import Saipen.OperatorOrigin.Calls
import Saipen.Run

/-! # One event, one effect

What a call can do to the records is said once (`Effect`): it changes one record that is not revoked, in
one of five ways, or it adds the record of a new event. A Source, a goal reservation and a campaign
reservation are therefore set at most once, an event never has a reservation of both kinds, an event
has one proof, and what is revoked stays refused. -/

namespace Saipen.OperatorOrigin

open Checks HostAuthority Run

variable {o o' : Origins} {w : World} {r : Reply} {p : Payload} {peer : ℤ}

/-! ### Records -/

@[simp] theorem find_put (e : Event) (nonce : Hex) :
    (o.put e).find nonce = if nonce = e.proof.nonce then some e else o.find nonce := by
  rw [Origins.put, Origins.find, Assoc.lookup_set]
  by_cases h : nonce = e.proof.nonce
  · rw [if_pos h, if_pos (congrArg Hex.text h)]
  · rw [if_neg h, if_neg (fun heq => h (Hex.ext heq))]
    rfl

@[simp] theorem events_put (e : Event) : (o.put e).events = o.events := rfl

/-- What a record that a proof finds is. -/
theorem record_eq_some {proof : Option Proof} {known : Event} (h : o.record w proof = some known) :
    proof = some known.proof ∧ o.find known.proof.nonce = some known ∧ known.revoked = false := by
  obtain ⟨presented, rfl, h⟩ := Option.bind_eq_some_iff.mp h
  obtain ⟨hfind, hchecks⟩ := Option.filter_eq_some_iff.mp h
  simp only [Bool.and_eq_true, Bool.not_eq_true', beq_iff_eq] at hchecks
  obtain ⟨⟨hlive, rfl⟩, -⟩ := hchecks
  exact ⟨rfl, hfind, hlive⟩

/-- The proof of an event that is not revoked finds its record. -/
theorem record_of_live {e : Event} (hfind : o.find e.proof.nonce = some e) (he : e.revoked = false)
    (hseal : w.provenance e.proof.toSealed = e.proof.provenance) :
    o.record w (some e.proof) = some e := by
  refine Option.bind_eq_some_iff.mpr ⟨e.proof, rfl, Option.filter_eq_some_iff.mpr ⟨hfind, ?_⟩⟩
  simp [he, hseal]

/-! ### What a call can do -/

/-- How a call changes the record of an event. -/
inductive Change (known : Event) : Event → Prop
  | revoke : Change known { known with revoked := true }
  | receipt (receipt : Option String) : known.receipt = none →
      Change known { known with receipt := receipt }
  | goal (reservation : GoalReservation) : known.campaignGrant = none →
      (known.goalGrant = none ∨ known.goalGrant = some reservation) →
      Change known { known with goalGrant := some reservation }
  | campaign (reservation : CampaignReservation) (receipt : Option String) : known.goalGrant = none →
      (known.campaignGrant = none ∨ known.campaignGrant = some reservation) →
      (known.receipt = none ∨ known.receipt = receipt) →
      Change known { known with campaignGrant := some reservation, receipt := receipt }
  | debt (reservation : DebtReservation) : Change known { known with debtGrant := some reservation }

/-- What a call can do to the events and their records. -/
inductive Effect (o : Origins) : Origins → Prop
  | same (workers : ℤ × ℚ → Option Hex) : Effect o { o with workers := workers }
  | changed (known e : Event) : o.find known.proof.nonce = some known → known.revoked = false →
      Change known e → Effect o (o.put e)
  | issued (e : Event) : o.events e.proof.key = none → o.find e.proof.nonce = none →
      e.goalGrant = none →
      Effect o { o.put e with events := Function.update o.events e.proof.key (some e.proof.nonce) }

theorem Effect.refl (o : Origins) : Effect o o := .same o.workers

/-- What `issue` answers, and what it does. -/
theorem issue_ok {native : Native} {nonce : Hex} (h : o.issue w native nonce = .ok (o', r)) :
    (∃ key prior known, o.events key = some prior ∧ o.find prior = some known ∧
        known.revoked = false ∧ o' = o ∧ r = .issued known.proof true) ∨
      ∃ e, o.events e.proof.key = none ∧ e.proof.nonce = nonce ∧ e.goalGrant = none ∧
        r = .issued e.proof false ∧
        o' = { o.put e with events := Function.update o.events e.proof.key (some e.proof.nonce) } := by
  simp only [Origins.issue, bind_eq_ok, refuseIf_eq_ok, orRefuse_eq_ok, exists_const] at h
  obtain ⟨-, project, -, hosts, -, host, -, authorization, -, h⟩ := h
  split at h
  · next prior hprior =>
    simp only [bind_eq_ok, refuseIf_eq_ok, orRefuse_eq_ok, exists_const, pure_eq_ok,
      Prod.mk.injEq] at h
    obtain ⟨known, hknown, hintent, -, rfl, rfl⟩ := h
    simp only [Bool.or_eq_false_iff] at hintent
    exact .inl ⟨_, prior, known, hprior, hknown, hintent.1.1.1.1.1, rfl, rfl⟩
  · next hnew =>
    simp only [bind_eq_ok, refuseIf_eq_ok, exists_const, pure_eq_ok, Prod.mk.injEq] at h
    obtain ⟨-, rfl, rfl⟩ := h
    exact .inr ⟨w.newEvent native project host.1 host.2 authorization nonce, hnew, rfl, rfl, rfl, rfl⟩

/-- `register_worker` binds a process. -/
theorem registerWorker_ok {proof : Option Proof} {hostPid pid : ℤ}
    (h : o.registerWorker w proof hostPid pid = .ok (o', r)) : Effect o o' := by
  simp only [Origins.registerWorker, bind_eq_ok, refuseIf_eq_ok, orRefuse_eq_ok, exists_const,
    pure_eq_ok] at h
  obtain ⟨known, -, -, head, -, -, -, -, h⟩ := h
  obtain ⟨rfl, -⟩ := Prod.mk.inj h
  exact .same _

/-- `verify` binds a Source to an event that has none. -/
theorem verify_ok (h : o.verify w p peer = .ok (o', r)) :
    o' = o ∨ ∃ known, o.record w p.proof = some known ∧ known.receipt = none ∧
      o' = o.put { known with receipt := p.receipt.str? } ∧
      (p.existingOnly = true → p.receipt = .null) := by
  simp only [Origins.verify, bind_eq_ok, refuseIf_eq_ok, orRefuse_eq_ok, exists_const] at h
  obtain ⟨known, hknown, -, -, -, root, -, project, -, -, lineage, -, -, -, matched, -, -, h⟩ := h
  split at h
  · simp only [bind_eq_ok, refuseIf_eq_ok, exists_const, pure_eq_ok, Prod.mk.injEq] at h
    exact .inl h.2.1.symm
  · simp only [bind_eq_ok, refuseIf_eq_ok, orRefuse_eq_ok, exists_const] at h
    obtain ⟨hexisting, -, canonical, -, -, h⟩ := h
    split at h
    · next hunbound =>
      rw [Option.isNone_iff_eq_none] at hunbound
      obtain ⟨rfl, -⟩ := Prod.mk.inj (pure_eq_ok.mp h)
      refine .inr ⟨known, hknown, hunbound, rfl, fun honly => ?_⟩
      rw [hunbound, honly] at hexisting
      simpa [jsonText] using hexisting
    · exact .inl (Prod.mk.inj (pure_eq_ok.mp h)).1.symm

/-- `received_source` changes nothing. -/
theorem receivedSource_ok (h : o.receivedSource w p = .ok (o', r)) : o' = o := by
  simp only [Origins.receivedSource, bind_eq_ok, refuseIf_eq_ok, orRefuse_eq_ok, exists_const,
    pure_eq_ok, Prod.mk.injEq] at h
  obtain ⟨known, -, receipt, -, -, root, -, project, -, -, lineage, -, -, canonical, -, -, rfl, -⟩ := h
  rfl

/-- `revoke` revokes the event whose proof it is given. -/
theorem revoke_ok {proof : Option Proof} {hostPid : ℤ} (h : o.revoke w proof hostPid = .ok (o', r)) :
    ∃ known, o.record w proof = some known ∧ o' = o.put { known with revoked := true } := by
  simp only [Origins.revoke, bind_eq_ok, refuseIf_eq_ok, orRefuse_eq_ok, exists_const, pure_eq_ok,
    Prod.mk.injEq] at h
  obtain ⟨known, hknown, -, rfl, -⟩ := h
  exact ⟨known, hknown, rfl⟩

/-- `prepare_goal` reserves the goal it is given, for an event without another reservation. -/
theorem prepareGoal_ok (h : o.prepareGoal w p peer = .ok (o', r)) :
    ∃ known reservation, o.record w p.proof = some known ∧ known.campaignGrant = none ∧
      (known.goalGrant = none ∨ known.goalGrant = some reservation) ∧
      o' = o.put { known with goalGrant := some reservation } := by
  simp only [Origins.prepareGoal, bind_eq_ok, refuseIf_eq_ok, orRefuse_eq_ok, exists_const, pure_eq_ok,
    Prod.mk.injEq] at h
  obtain ⟨known, hknown, hintent, root, -, project, -, -, matched, -, -, grant, -, -, operation, -, -,
    semanticHash, -, -, -, -, hother, rfl, -⟩ := h
  simp only [Bool.or_eq_false_iff, Option.isSome_eq_false_iff, Option.isNone_iff_eq_none] at hintent
  refine ⟨known, _, hknown, hintent.2, ?_, rfl⟩
  cases hgoal : known.goalGrant with
  | none => exact .inl rfl
  | some goal =>
    rw [hgoal] at hother
    simpa using hother

/-- `verify_goal` changes nothing. -/
theorem verifyGoal_ok (h : o.verifyGoal w p peer = .ok (o', r)) : o' = o := by
  simp only [Origins.verifyGoal, bind_eq_ok, refuseIf_eq_ok, orRefuse_eq_ok, exists_const, pure_eq_ok,
    Prod.mk.injEq] at h
  obtain ⟨known, -, reserved, -, -, -, root, -, held, -, project, -, -, lineage, -, -, record, -, -, -,
    -, rfl, -⟩ := h
  rfl

/-- The Source `verify_campaign` accepts is the one the event has, if it has one. -/
theorem campaignSource_ok {root : String} {known : Event} {u : Unit}
    (h : w.campaignSource root p known = .ok u) (hreceipt : p.receipt ≠ .null) :
    known.receipt = none ∨ known.receipt = p.receipt.str? := by
  rw [World.campaignSource] at h
  simp only [bne_iff_ne, ne_eq, hreceipt, not_false_eq_true, if_true, bind_eq_ok, refuseIf_eq_ok,
    exists_const] at h
  cases hbound : known.receipt with
  | none => exact .inl rfl
  | some receipt =>
    rw [hbound] at h
    have hsame : p.receipt = jsonText (some receipt) := by simpa using h.1
    exact .inr (by rw [hsame]; rfl)

/-- The reservation `verify_campaign` goes on with is the one the event has, if it has one. -/
theorem campaignReservation_ok {root : String} {known : Event} {authorization : CampaignCapsule}
    {admission : Admission} {digest : String} {reservation : CampaignReservation}
    (h : o.campaignReservation w p root known authorization admission digest = .ok reservation) :
    known.campaignGrant = none ∨ known.campaignGrant = some reservation := by
  unfold Origins.campaignReservation at h
  split at h
  · next held hheld => exact .inr (by rw [hheld, pure_eq_ok.mp h])
  · next hnone => exact .inl hnone

/-- `verify_campaign` reserves the campaign it is given, for an event without a goal reservation. -/
theorem verifyCampaign_ok (h : o.verifyCampaign w p peer = .ok (o', r)) :
    o' = o ∨ ∃ known reservation receipt, o.record w p.proof = some known ∧ known.goalGrant = none ∧
      (known.campaignGrant = none ∨ known.campaignGrant = some reservation) ∧
      (known.receipt = none ∨ known.receipt = receipt) ∧
      o' = o.put { known with campaignGrant := some reservation, receipt := receipt } := by
  simp only [Origins.verifyCampaign, bind_eq_ok, refuseIf_eq_ok, orRefuse_eq_ok, exists_const] at h
  obtain ⟨known, hknown, text, -, authorization, -, root, -, current, -, -, project, -, -, target, -,
    hscope, -, -, admission, -, digest, -, -, _, hsource, reservation, hreservation, -, state, -, -, -,
    h⟩ := h
  simp only [Bool.or_eq_false_iff, Option.isSome_eq_false_iff, Option.isNone_iff_eq_none] at hscope
  split at h
  · obtain ⟨rfl, -⟩ := Prod.mk.inj (pure_eq_ok.mp h)
    refine .inr ⟨known, reservation, _, hknown, hscope.2, campaignReservation_ok hreservation, ?_, rfl⟩
    split
    · exact .inr rfl
    · next hreceipt => exact campaignSource_ok hsource (by simpa using hreceipt)
  · exact .inl (Prod.mk.inj (pure_eq_ok.mp h)).1.symm

/-- `verify` for a Source that has to be bound already changes nothing. -/
theorem verify_existing {receipt : String} (h : o.verify w p peer = .ok (o', r))
    (honly : p.existingOnly = true) (hreceipt : p.receipt = .str receipt) : o' = o := by
  rcases verify_ok h with rfl | ⟨-, -, -, -, hnull⟩
  · rfl
  · rw [hreceipt] at hnull
    cases hnull honly

/-- What `prepare_debt` does after `verify`. -/
theorem registerDebt_ok {root authorization : String} {known : Event} {record : DebtRecord}
    (h : o.registerDebt w root known authorization record = .ok (o', r)) :
    ∃ reservation, o' = o.put { known with debtGrant := some reservation } := by
  simp only [Origins.registerDebt, bind_eq_ok, refuseIf_eq_ok, orRefuse_eq_ok, exists_const, pure_eq_ok,
    Prod.mk.injEq] at h
  obtain ⟨next, -, -, project, -, -, late, -, -, evidence, -, -, unchanged, -, -, rfl, -⟩ := h
  exact ⟨_, rfl⟩

/-- What `prepare_debt` does for an event that has reserved a debt. -/
theorem renewDebt_ok {root authorization : String} {known : Event} {record : DebtRecord}
    {old : DebtReservation} (h : o.renewDebt w root known authorization record old = .ok (o', r)) :
    o' = o ∨ ∃ reservation, o' = o.put { known with debtGrant := some reservation } := by
  simp only [Origins.renewDebt, bind_eq_ok, refuseIf_eq_ok, orRefuse_eq_ok, exists_const] at h
  obtain ⟨-, status, -, h⟩ := h
  split at h
  · simp only [bind_eq_ok, refuseIf_eq_ok, orRefuse_eq_ok, exists_const, pure_eq_ok,
      Prod.mk.injEq] at h
    obtain ⟨-, evidence, -, -, rfl, -⟩ := h
    exact .inr ⟨_, rfl⟩
  · exact .inl (Prod.mk.inj (pure_eq_ok.mp h)).1.symm

/-- `prepare_debt` reserves a debt. -/
theorem prepareDebt_ok (h : o.prepareDebt w p peer = .ok (o', r)) :
    o' = o ∨ ∃ known reservation, o.record w p.proof = some known ∧
      o' = o.put { known with debtGrant := some reservation } := by
  simp only [Origins.prepareDebt, bind_eq_ok, refuseIf_eq_ok, orRefuse_eq_ok, exists_const] at h
  obtain ⟨known, hknown, -, root, -, record, -, authorization, -, -, h⟩ := h
  split at h
  · rcases renewDebt_ok h with rfl | ⟨reservation, rfl⟩
    · exact .inl rfl
    · exact .inr ⟨known, reservation, hknown, rfl⟩
  · simp only [bind_eq_ok, refuseIf_eq_ok, exists_const] at h
    replace h := h.2
    split at h
    · cases h
    · next o₁ r₁ hverify =>
      obtain rfl := verify_existing hverify rfl rfl
      have h := pure_eq_ok.mp h
      unfold Origins.answer at h
      split at h
      · next hregister =>
        subst h
        obtain ⟨reservation, rfl⟩ := registerDebt_ok hregister
        exact .inr ⟨known, reservation, hknown, rfl⟩
      · exact .inl (Prod.mk.inj h).1.symm

/-- `verify_debt` changes nothing. -/
theorem verifyDebt_ok (h : o.verifyDebt w p = .ok (o', r)) : o' = o := by
  simp only [Origins.verifyDebt, bind_eq_ok, refuseIf_eq_ok, orRefuse_eq_ok, exists_const, pure_eq_ok,
    Prod.mk.injEq] at h
  obtain ⟨known, -, reserved, -, root, -, record, -, authorization, -, -, journal, -, -, -, rfl, -⟩ := h
  rfl

/-! ### One call -/

/-- A drawn nonce is one no event has. -/
def Call.Fresh (o : Origins) : Call → Prop
  | .issue _ nonce => o.find nonce = none
  | _ => True

/-- What every call can do. -/
theorem run_effect {c : Call} (hfresh : c.Fresh o) (h : o.run w c = .ok (o', r)) : Effect o o' := by
  cases c with
  | issue native nonce =>
    rcases issue_ok h with ⟨-, -, -, -, -, -, rfl, -⟩ | ⟨e, hkey, rfl, hgoal, -, rfl⟩
    · exact .refl o'
    · exact .issued e hkey hfresh hgoal
  | registerWorker proof hostPid pid => exact registerWorker_ok h
  | verify p peer =>
    rcases verify_ok h with rfl | ⟨known, hknown, hreceipt, rfl, -⟩
    · exact .refl o'
    · obtain ⟨-, hfind, hlive⟩ := record_eq_some hknown
      exact .changed known _ hfind hlive (.receipt _ hreceipt)
  | receivedSource p => exact receivedSource_ok h ▸ .refl o
  | prepareGoal p peer =>
    obtain ⟨known, reservation, hknown, hcampaign, hgoal, rfl⟩ := prepareGoal_ok h
    obtain ⟨-, hfind, hlive⟩ := record_eq_some hknown
    exact .changed known _ hfind hlive (.goal reservation hcampaign hgoal)
  | verifyGoal p peer => exact verifyGoal_ok h ▸ .refl o
  | verifyCampaign p peer =>
    rcases verifyCampaign_ok h with
      rfl | ⟨known, reservation, receipt, hknown, hgoal, hcampaign, hreceipt, rfl⟩
    · exact .refl o'
    · obtain ⟨-, hfind, hlive⟩ := record_eq_some hknown
      exact .changed known _ hfind hlive (.campaign reservation receipt hgoal hcampaign hreceipt)
  | prepareDebt p peer =>
    rcases prepareDebt_ok h with rfl | ⟨known, reservation, hknown, rfl⟩
    · exact .refl o'
    · obtain ⟨-, hfind, hlive⟩ := record_eq_some hknown
      exact .changed known _ hfind hlive (.debt reservation)
  | verifyDebt p => exact verifyDebt_ok h ▸ .refl o
  | revoke proof hostPid =>
    obtain ⟨known, hknown, rfl⟩ := revoke_ok h
    obtain ⟨-, hfind, hlive⟩ := record_eq_some hknown
    exact .changed known _ hfind hlive .revoke

theorem call_effect {c : Call} (hfresh : c.Fresh o) : Effect o (o.call w c).1 := by
  unfold Origins.call Origins.answer
  split
  · next answered hrun => exact run_effect hfresh hrun
  · exact .refl o

/-- A call that answers `ok` has passed its checks. -/
theorem run_of_ok {c : Call} (h : o.call w c = (o', r)) (hr : r.ok = true) :
    o.run w c = .ok (o', r) := by
  unfold Origins.call Origins.answer at h
  split at h
  · next answered hrun => rw [hrun, h]
  · rw [← (Prod.mk.inj h).2] at hr
    cases hr

/-- A proof without a record is refused by every call. -/
theorem refused_of_record {c : Call} {proof : Proof} (hproof : c.proof = some proof)
    (hrecord : o.record w (some proof) = none) : (o.call w c).2.ok = false := by
  have herror : ∃ detail, o.run w c = .error detail := by
    cases c with
    | issue native nonce => cases hproof
    | registerWorker presented hostPid pid =>
      obtain rfl : presented = some proof := hproof
      exact ⟨_, by simp only [Origins.run, Origins.registerWorker, hrecord]; rfl⟩
    | verify p peer | receivedSource p | prepareGoal p peer | verifyGoal p peer | verifyCampaign p peer
    | prepareDebt p peer | verifyDebt p =>
      have hp : p.proof = some proof := hproof
      exact ⟨_, by
        simp only [Origins.run, Origins.verify, Origins.receivedSource, Origins.prepareGoal,
          Origins.verifyGoal, Origins.verifyCampaign, Origins.prepareDebt, Origins.verifyDebt, hp, hrecord]
        rfl⟩
    | revoke presented hostPid =>
      obtain rfl : presented = some proof := hproof
      exact ⟨_, by simp only [Origins.run, Origins.revoke, hrecord]; rfl⟩
  obtain ⟨detail, herror⟩ := herror
  show (o.answer (o.run w c)).2.ok = false
  rw [herror]
  rfl

/-- A revoked event has no record. -/
theorem record_of_revoked {e : Event} (hfind : o.find e.proof.nonce = some e) (he : e.revoked = true) :
    o.record w (some e.proof) = none := by
  rw [Option.eq_none_iff_forall_ne_some]
  intro known hknown
  obtain ⟨hproof, hheld, hlive⟩ := record_eq_some hknown
  rw [← Option.some.inj hproof, hfind] at hheld
  rw [← Option.some.inj hheld, he] at hlive
  cases hlive

/-! ### What a record keeps -/

/-- A later record of the same event: what was set is as it was. -/
structure Event.Extends (e e' : Event) : Prop where
  proof : e'.proof = e.proof
  revoked : e.revoked = true → e'.revoked = true
  receipt : ∀ receipt, e.receipt = some receipt → e'.receipt = some receipt
  goalGrant : ∀ goal, e.goalGrant = some goal → e'.goalGrant = some goal
  campaignGrant : ∀ campaign, e.campaignGrant = some campaign → e'.campaignGrant = some campaign

theorem Event.Extends.refl (e : Event) : e.Extends e :=
  ⟨rfl, id, fun _ => id, fun _ => id, fun _ => id⟩

theorem Event.Extends.trans {e₁ e₂ e₃ : Event} (h : e₁.Extends e₂) (h' : e₂.Extends e₃) :
    e₁.Extends e₃ where
  proof := h'.proof.trans h.proof
  revoked := h'.revoked ∘ h.revoked
  receipt r hr := h'.receipt r (h.receipt r hr)
  goalGrant g hg := h'.goalGrant g (h.goalGrant g hg)
  campaignGrant g hg := h'.campaignGrant g (h.campaignGrant g hg)

/-- The record of an event never has a goal reservation and a campaign reservation. -/
def Event.Exclusive (e : Event) : Prop := e.goalGrant = none ∨ e.campaignGrant = none

theorem eq_some_of_unset {α : Type} {held set : Option α} (h : held = none ∨ held = set) (a : α)
    (ha : held = some a) : set = some a := by
  rcases h with h | h
  · rw [h] at ha
    cases ha
  · rw [← h, ha]

theorem Change.extends {known e : Event} (h : Change known e) : known.Extends e := by
  have hrefl := Event.Extends.refl known
  cases h with
  | revoke => exact { hrefl with revoked := fun _ => rfl }
  | receipt receipt hnone => exact { hrefl with receipt := eq_some_of_unset (.inl hnone) }
  | goal reservation _ hgoal => exact { hrefl with goalGrant := eq_some_of_unset hgoal }
  | campaign reservation receipt _ hcampaign hreceipt =>
    exact { hrefl with
      campaignGrant := eq_some_of_unset hcampaign, receipt := eq_some_of_unset hreceipt }
  | debt => exact { hrefl with }

theorem Change.exclusive {known e : Event} (h : Change known e) (hknown : known.Exclusive) :
    e.Exclusive := by
  cases h with
  | goal reservation hcampaign _ => exact .inr hcampaign
  | campaign reservation receipt hgoal _ _ => exact .inl hgoal
  | revoke | receipt | debt => exact hknown

/-! ### The invariant -/

/-- What holds of the events and the records of every state. -/
structure Sound (o : Origins) : Prop where
  nonce : ∀ nonce e, o.find nonce = some e → e.proof.nonce = nonce
  exclusive : ∀ nonce e, o.find nonce = some e → e.Exclusive
  event : ∀ nonce e, o.find nonce = some e → o.events e.proof.key = some nonce
  held : ∀ key nonce, o.events key = some nonce → ∃ e, o.find nonce = some e ∧ e.proof.key = key

/-- Every record of `o` has a later record in `o'`. -/
def Kept (o o' : Origins) : Prop :=
  ∀ nonce e, o.find nonce = some e → ∃ e', o'.find nonce = some e' ∧ e.Extends e'

theorem Kept.refl (o : Origins) : Kept o o := fun _ e he => ⟨e, he, .refl e⟩

theorem Kept.trans {o₁ o₂ o₃ : Origins} (h : Kept o₁ o₂) (h' : Kept o₂ o₃) : Kept o₁ o₃ := by
  intro nonce e he
  obtain ⟨e₂, he₂, hext⟩ := h nonce e he
  obtain ⟨e₃, he₃, hext'⟩ := h' nonce e₂ he₂
  exact ⟨e₃, he₃, hext.trans hext'⟩

theorem sound_empty : Sound {} where
  nonce := by simp [Origins.find]
  exclusive := by simp [Origins.find]
  event := by simp [Origins.find]
  held := by simp

theorem Effect.kept (h : Effect o o') : Kept o o' := by
  cases h with
  | same workers => exact .refl o
  | changed known e hfind _ hchange =>
    have hproof := hchange.extends.proof
    intro nonce e' he'
    rw [find_put]
    split
    · next heq =>
      rw [heq, hproof, hfind] at he'
      exact ⟨e, rfl, Option.some.inj he' ▸ hchange.extends⟩
    · exact ⟨e', he', .refl e'⟩
  | issued e hkey hfresh hgoal =>
    intro nonce e' he'
    have hne : nonce ≠ e.proof.nonce := by
      rintro rfl
      rw [hfresh] at he'
      cases he'
    refine ⟨e', ?_, .refl e'⟩
    show (o.put e).find nonce = some e'
    rw [find_put, if_neg hne, he']

theorem Effect.sound (h : Effect o o') (ho : Sound o) : Sound o' := by
  cases h with
  | same workers => exact ⟨ho.nonce, ho.exclusive, ho.event, ho.held⟩
  | changed known e hfind hlive hchange =>
    have hproof := hchange.extends.proof
    constructor
    · intro nonce e' he'
      rw [find_put] at he'
      split at he'
      · next heq => rw [← Option.some.inj he', heq]
      · exact ho.nonce nonce e' he'
    · intro nonce e' he'
      rw [find_put] at he'
      split at he'
      · exact Option.some.inj he' ▸ hchange.exclusive (ho.exclusive _ _ hfind)
      · exact ho.exclusive nonce e' he'
    · intro nonce e' he'
      rw [find_put] at he'
      split at he'
      · next heq =>
        rw [← Option.some.inj he', heq, hproof]
        exact ho.event _ _ hfind
      · exact ho.event nonce e' he'
    · intro key nonce hevent
      obtain ⟨e', he', hkey⟩ := ho.held key nonce hevent
      rw [find_put]
      split
      · next heq =>
        rw [heq, hproof, hfind] at he'
        exact ⟨e, rfl, by rw [hproof, Option.some.inj he', hkey]⟩
      · exact ⟨e', he', hkey⟩
  | issued e hkey hfresh hgoal =>
    constructor
    · intro nonce e' he'
      replace he' : (o.put e).find nonce = some e' := he'
      rw [find_put] at he'
      split at he'
      · next heq => rw [← Option.some.inj he', heq]
      · exact ho.nonce nonce e' he'
    · intro nonce e' he'
      replace he' : (o.put e).find nonce = some e' := he'
      rw [find_put] at he'
      split at he'
      · exact Option.some.inj he' ▸ .inl hgoal
      · exact ho.exclusive nonce e' he'
    · intro nonce e' he'
      replace he' : (o.put e).find nonce = some e' := he'
      rw [find_put] at he'
      split at he'
      · next heq =>
        obtain rfl := Option.some.inj he'
        show Function.update o.events e.proof.key (some e.proof.nonce) e.proof.key = some nonce
        rw [Function.update_self, heq]
      · have hevent := ho.event nonce e' he'
        have hne : e'.proof.key ≠ e.proof.key := by
          intro heq
          rw [heq, hkey] at hevent
          cases hevent
        show Function.update o.events e.proof.key (some e.proof.nonce) e'.proof.key = some nonce
        rw [Function.update_of_ne hne, hevent]
    · intro key nonce hevent
      replace hevent : Function.update o.events e.proof.key (some e.proof.nonce) key = some nonce := hevent
      show ∃ e', (o.put e).find nonce = some e' ∧ _
      by_cases heq : key = e.proof.key
      · rw [heq, Function.update_self] at hevent
        obtain rfl := Option.some.inj hevent
        exact ⟨e, by rw [find_put, if_pos rfl], heq.symm⟩
      · rw [Function.update_of_ne heq] at hevent
        obtain ⟨e', he', hkey'⟩ := ho.held key nonce hevent
        have hne : nonce ≠ e.proof.nonce := by
          rintro rfl
          rw [hfresh] at he'
          cases he'
        exact ⟨e', by rw [find_put, if_neg hne, he'], hkey'⟩

/-! ### Runs -/

/-- A call with any answers of the system, and with a nonce that was never drawn. -/
inductive Step : Origins → Origins → Prop
  | call {o : Origins} (w : World) (c : Call) : c.Fresh o → Step o (o.call w c).1

theorem sound_of_runs (h : Runs Step {} o) : Sound o := by
  refine keeps ?_ h sound_empty
  rintro s - hs ⟨w, c, hfresh⟩
  exact (call_effect hfresh).sound hs

theorem kept_of_runs (h : Runs Step o o') : Kept o o' := by
  refine keeps ?_ h (.refl o)
  rintro s - hs ⟨w, c, hfresh⟩
  exact hs.trans (call_effect hfresh).kept

/-- Events of one identity are one event. -/
theorem Sound.unique (ho : Sound o) {e e' : Event} (he : o.find e.proof.nonce = some e)
    (he' : o.find e'.proof.nonce = some e') (hkey : e.proof.key = e'.proof.key) : e = e' := by
  have hevent := ho.event _ _ he
  rw [hkey, ho.event _ _ he'] at hevent
  rw [Option.some.inj hevent, he] at he'
  exact Option.some.inj he'

/-- What `issue` answers with is the proof of a record that is not revoked, or a new proof of an
identity that has none. -/
theorem issued_proof {native : Native} {nonce : Hex} {proof : Proof} {reused : Bool}
    (h : o.call w (.issue native nonce) = (o', .issued proof reused)) :
    (∃ prior e, o.find prior = some e ∧ e.revoked = false ∧ e.proof = proof ∧ reused = true) ∨
      o.events proof.key = none := by
  rcases issue_ok (run_of_ok h rfl) with
    ⟨key, prior, known, -, hfind, hlive, -, hr⟩ | ⟨e, hkey, -, -, hr, -⟩
  · obtain ⟨rfl, rfl⟩ := Reply.issued.inj hr
    exact .inl ⟨prior, known, hfind, hlive, rfl, rfl⟩
  · obtain ⟨rfl, -⟩ := Reply.issued.inj hr
    exact .inr hkey

/-- An identity that has a proof is answered with that proof. -/
theorem Sound.issued_unique (ho : Sound o) {native : Native} {nonce : Hex} {proof : Proof}
    {reused : Bool} {e : Event} (h : o.call w (.issue native nonce) = (o', .issued proof reused))
    (he : o.find e.proof.nonce = some e) (hkey : e.proof.key = proof.key) :
    proof = e.proof ∧ e.revoked = false := by
  rcases issued_proof h with ⟨prior, e', hfind, hlive, rfl, -⟩ | hnew
  · have he' : o.find e'.proof.nonce = some e' := by rw [ho.nonce _ _ hfind, hfind]
    obtain rfl := ho.unique he he' hkey
    exact ⟨rfl, hlive⟩
  · rw [← hkey, ho.event _ _ he] at hnew
    cases hnew

/-- An accepted `revoke` leaves its event revoked. -/
theorem revoke_revokes {proof : Proof} {hostPid : ℤ}
    (h : o.call w (.revoke (some proof) hostPid) = (o', r)) (hr : r.ok = true) :
    ∃ e, o'.find proof.nonce = some e ∧ e.proof = proof ∧ e.revoked = true := by
  obtain ⟨known, hknown, rfl⟩ := revoke_ok (run_of_ok h hr)
  obtain ⟨hproof, hfind, -⟩ := record_eq_some hknown
  obtain rfl := Option.some.inj hproof
  exact ⟨{ known with revoked := true }, by rw [find_put, if_pos rfl], rfl, rfl⟩

/-- **One event, one effect.** Over every run: the record of an event stays, and its Source, its goal
reservation, its campaign reservation and its revocation, once set, stay as they are; it never has
reservations of both kinds; its identity never has another proof; and after an accepted `revoke` no
call on the proof is answered `ok` and no `issue` answers with it. -/
theorem one_event_one_effect (hstart : Runs Step {} o) (hrun : Runs Step o o') :
    (∀ nonce e, o.find nonce = some e → ∃ e', o'.find nonce = some e' ∧ e.Extends e') ∧
    (∀ nonce e, o'.find nonce = some e → e.goalGrant = none ∨ e.campaignGrant = none) ∧
    (∀ nonce nonce' e e', o.find nonce = some e → o'.find nonce' = some e' →
      e.proof.key = e'.proof.key → e.proof = e'.proof) ∧
    (∀ nonce e w native drawn o₁ proof reused, o.find nonce = some e →
      o'.call w (.issue native drawn) = (o₁, .issued proof reused) → e.proof.key = proof.key →
      proof = e.proof) ∧
    ∀ w proof hostPid o₁ r, o'.call w (.revoke (some proof) hostPid) = (o₁, r) → r.ok = true →
      ∀ o₂ w', Runs Step o₁ o₂ →
        (∀ c, c.proof = some proof → (o₂.call w' c).2.ok = false) ∧
        ∀ native drawn o₃ reused, o₂.call w' (.issue native drawn) ≠ (o₃, .issued proof reused) := by
  have hsound' : Sound o' := sound_of_runs (hstart.trans hrun)
  have hkept : Kept o o' := kept_of_runs hrun
  refine ⟨hkept, hsound'.exclusive, ?_, ?_, ?_⟩
  · intro nonce nonce' e e' he he' hkey
    obtain ⟨e₁, he₁, hext⟩ := hkept nonce e he
    rw [← hsound'.nonce _ _ he₁] at he₁
    rw [← hsound'.nonce _ _ he'] at he'
    rw [← hext.proof] at hkey ⊢
    rw [hsound'.unique he₁ he' hkey]
  · intro nonce e w native drawn o₁ proof reused he hissue hkey
    obtain ⟨e₁, he₁, hext⟩ := hkept nonce e he
    rw [← hsound'.nonce _ _ he₁] at he₁
    rw [← hext.proof] at hkey ⊢
    exact (hsound'.issued_unique hissue he₁ hkey).1
  · intro w proof hostPid o₁ r hrevoke hok o₂ w' hrun₂
    obtain ⟨e, he, rfl, hrevoked⟩ := revoke_revokes hrevoke hok
    have hstep : Step o' o₁ := by
      have hcall : Step o' (o'.call w (.revoke (some e.proof) hostPid)).1 := .call w _ trivial
      rwa [hrevoke] at hcall
    have hsound₂ : Sound o₂ := sound_of_runs (((hstart.trans hrun).tail hstep).trans hrun₂)
    obtain ⟨e₂, he₂, hext⟩ := kept_of_runs hrun₂ _ e he
    rw [← hext.proof] at he₂ ⊢
    refine ⟨fun c hproof => ?_, fun native drawn o₃ reused hissue => ?_⟩
    · exact refused_of_record hproof (record_of_revoked he₂ (hext.revoked hrevoked))
    · have hlive := (hsound₂.issued_unique hissue he₂ rfl).2
      rw [hext.revoked hrevoked] at hlive
      cases hlive

/-! A run on fixed answers: an event is issued, its proof is revoked, and `verify` is refused. -/

/-- A project, a process table and a clock that stand still. -/
def sampleWorld : World where
  ttl := 600
  clock _ := 0
  ancestry pid := some [⟨pid, 1, some 0⟩]
  provenance _ := ⟨"broker-1f", "hmac-sha256", "00"⟩
  resolve := some
  context _ := some ⟨"p", "l", "none", "", ""⟩
  projectIdentity _ := some "p"
  lineage _ := some (some "l")
  readBody _ _ := none
  ingressDigest := id
  goalTarget _ _ := "goal-0000000000000000"
  parseGoal _ := none
  currentGoal _ := none
  goalState _ := none
  goalOperation _ _ _ := none
  parseCampaign _ := none
  campaignState _ := none
  debtShape _ _ := none
  debtOperationId _ := ""
  debtDigest _ := ""
  debtSha256 _ := ""
  debtIntent _ := ""
  debtStatus _ _ := none
  debtOperation _ _ := none
  debtTarget _ _ := false
  debtEvidence _ _ := none
  nextDebtRecord _ := none
  debtExpired _ := none
  debtSuperseded _ _ := none

/-- A native event. -/
def sampleNative : Native where
  root := "/work"
  session := "s"
  host := "h"
  model := ""
  provider := ""
  hostPid := 7
  text := "go on"
  eventId := "1"
  action := "continue"

/-- The record of its proof. -/
def sampleEvent : Event :=
  sampleWorld.newEvent sampleNative ⟨"p", "l", "none", "", ""⟩ ⟨7, 1, some 0⟩ 0 none firstToken

/-- The state it leaves. -/
def sampleOrigins : Origins :=
  { Origins.put {} sampleEvent with
    events := Function.update (fun _ => none) sampleEvent.proof.key (some firstToken) }

theorem sample_issued : ({} : Origins).call sampleWorld (.issue sampleNative firstToken)
    = (sampleOrigins, .issued sampleEvent.proof false) := rfl

theorem sample_revoked : sampleOrigins.call sampleWorld (.revoke (some sampleEvent.proof) 7)
    = (sampleOrigins.put { sampleEvent with revoked := true }, .done) := by
  have hrecord : sampleOrigins.record sampleWorld (some sampleEvent.proof) = some sampleEvent :=
    record_of_live rfl rfl rfl
  rw [Origins.call, Origins.run, Origins.revoke, hrecord]
  rfl

theorem one_event_one_effect_revoked :
    ((sampleOrigins.put { sampleEvent with revoked := true }).call sampleWorld
      (.verify { proof := some sampleEvent.proof } 7)).2.ok = false := by
  have hissue : Step {} sampleOrigins := by
    have hcall := Step.call sampleWorld (.issue sampleNative firstToken) (rfl : Origins.find {} _ = none)
    rwa [sample_issued] at hcall
  obtain ⟨-, -, -, -, hrevoked⟩ := one_event_one_effect .refl (.single hissue)
  exact (hrevoked sampleWorld sampleEvent.proof 7 _ _ sample_revoked rfl _ sampleWorld .refl).1 _ rfl

end Saipen.OperatorOrigin
