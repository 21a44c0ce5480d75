import Mathlib.Logic.Function.Basic

/-! # Reservations in a registry

A registry maps keys to the owner that reserved them. `_reserve`, `_drop_reservation` and
`_promote_reservation` run under one guard each, so each is one step; what a step does is said by
two lemmas, one about the entries of its owner and one about the entries of everybody else. -/

namespace Saipen

/-- A dictionary from keys to the owner that reserved them. -/
abbrev Registry (κ ω : Type) := κ → Option ω

namespace Registry

variable {κ ω : Type}

/-- A step of `owner` leaves the entries of everybody else as they are. -/
def LeavesOthers (registry registry' : Registry κ ω) (owner : ω) : Prop :=
  ∀ key other, other ≠ owner → (registry' key = some other ↔ registry key = some other)

theorem LeavesOthers.refl (registry : Registry κ ω) (owner : ω) :
    LeavesOthers registry registry owner := fun _ _ _ => Iff.rfl

theorem LeavesOthers.trans {registry registry' registry'' : Registry κ ω} {owner : ω}
    (h : LeavesOthers registry registry' owner) (h' : LeavesOthers registry' registry'' owner) :
    LeavesOthers registry registry'' owner :=
  fun key other hother => (h' key other hother).trans (h key other hother)

variable [DecidableEq κ] [DecidableEq ω]

/-- `_reserve`: refused when somebody else holds the key. -/
def reserve (registry : Registry κ ω) (key : κ) (owner : ω) : Option (Registry κ ω) :=
  match registry key with
  | some holder => if holder = owner then some (Function.update registry key (some owner)) else none
  | none => some (Function.update registry key (some owner))

/-- `_drop_reservation`: only the owner's own reservation is deleted. -/
def dropReservation (registry : Registry κ ω) (key : Option κ) (owner : ω) : Registry κ ω :=
  match key with
  | none => registry
  | some key => if registry key = some owner then Function.update registry key none else registry

/-- `_promote_reservation`: the reservation by path is given up whether or not the identity is
granted. -/
def promoteReservation (registry : Registry κ ω) (reservationKey inodeKey : κ) (owner : ω) :
    Bool × Registry κ ω :=
  let registry := registry.dropReservation (some reservationKey) owner
  match registry.reserve inodeKey owner with
  | some registry => (true, registry)
  | none => (false, registry)

variable {registry registry' : Registry κ ω} {key k : κ} {owner : ω}

/-- A key is granted when it is free or the owner's own already. -/
theorem reserve_eq_some_iff :
    registry.reserve key owner = some registry' ↔
      (∀ holder, registry key = some holder → holder = owner) ∧
        registry' = Function.update registry key (some owner) := by
  unfold reserve
  cases hkey : registry key with
  | none => simp [eq_comm]
  | some holder =>
    by_cases hholder : holder = owner
    · simp [hholder, eq_comm]
    · simp [hholder]

theorem reserve_eq_none_iff :
    registry.reserve key owner = none ↔ ∃ holder, registry key = some holder ∧ holder ≠ owner := by
  unfold reserve
  cases hkey : registry key with
  | none => simp
  | some holder => by_cases hholder : holder = owner <;> simp [hholder]

theorem leavesOthers_reserve (h : registry.reserve key owner = some registry') :
    LeavesOthers registry registry' owner := by
  obtain ⟨hfree, rfl⟩ := reserve_eq_some_iff.mp h
  intro k other hother
  by_cases hk : k = key
  · -- the key was free or the owner's, so it was not `other`'s before either
    subst hk
    rw [Function.update_self, Option.some.injEq]
    exact ⟨fun h => absurd h.symm hother, fun h => absurd (hfree other h) hother⟩
  · rw [Function.update_of_ne hk]

theorem reserve_own (h : registry.reserve key owner = some registry') :
    registry' k = some owner ↔ k = key ∨ registry k = some owner := by
  obtain ⟨-, rfl⟩ := reserve_eq_some_iff.mp h
  by_cases hk : k = key
  · simp [hk]
  · rw [Function.update_of_ne hk]
    simp [hk]

theorem leavesOthers_dropReservation (registry : Registry κ ω) (key : Option κ) (owner : ω) :
    LeavesOthers registry (registry.dropReservation key owner) owner := by
  intro k other hother
  cases key with
  | none => exact Iff.rfl
  | some key =>
    simp only [dropReservation]
    split
    case isFalse => exact Iff.rfl
    case isTrue hown =>
      by_cases hk : k = key
      · subst hk
        rw [Function.update_self, hown, Option.some.injEq]
        exact ⟨fun h => (by cases h), fun h => absurd h.symm hother⟩
      · rw [Function.update_of_ne hk]

theorem dropReservation_own {key : Option κ} :
    registry.dropReservation key owner k = some owner ↔
      key ≠ some k ∧ registry k = some owner := by
  cases key with
  | none => simp [dropReservation]
  | some key =>
    simp only [dropReservation, ne_eq, Option.some.injEq]
    by_cases hk : k = key
    · subst hk
      split
      · simp
      · simp_all
    · split
      · rw [Function.update_of_ne hk]
        simp [Ne.symm hk]
      · simp [Ne.symm hk]

theorem leavesOthers_promoteReservation (registry : Registry κ ω) (reservationKey inodeKey : κ)
    (owner : ω) :
    LeavesOthers registry (registry.promoteReservation reservationKey inodeKey owner).2 owner := by
  have hdrop := leavesOthers_dropReservation registry (some reservationKey) owner
  unfold promoteReservation
  cases h : (registry.dropReservation (some reservationKey) owner).reserve inodeKey owner with
  | none => simpa only [h] using hdrop
  | some registry' => simpa only [h] using hdrop.trans (leavesOthers_reserve h)

theorem promoteReservation_own {reservationKey inodeKey : κ} :
    (registry.promoteReservation reservationKey inodeKey owner).2 k = some owner ↔
      ((registry.promoteReservation reservationKey inodeKey owner).1 = true ∧ k = inodeKey) ∨
        (k ≠ reservationKey ∧ registry k = some owner) := by
  have hdrop : registry.dropReservation (some reservationKey) owner k = some owner ↔
      k ≠ reservationKey ∧ registry k = some owner := by
    rw [dropReservation_own, ne_eq, Option.some.injEq, eq_comm]
  unfold promoteReservation
  cases h : (registry.dropReservation (some reservationKey) owner).reserve inodeKey owner with
  | none => simpa only [h, Bool.false_eq_true, false_and, false_or] using hdrop
  | some registry' => simpa only [h, true_and] using (reserve_own h).trans (or_congr_right hdrop)

/-- An identity nobody else has reserved is granted. -/
theorem promoteReservation_granted {reservationKey inodeKey : κ}
    (h : ∀ holder, registry inodeKey = some holder → holder = owner) :
    (registry.promoteReservation reservationKey inodeKey owner).1 = true := by
  unfold promoteReservation
  cases hr : (registry.dropReservation (some reservationKey) owner).reserve inodeKey owner with
  | some registry' => simp only [hr]
  | none =>
    obtain ⟨holder, hheld, hother⟩ := reserve_eq_none_iff.mp hr
    have : registry inodeKey = some holder :=
      (leavesOthers_dropReservation registry (some reservationKey) owner inodeKey holder
        hother).mp hheld
    exact absurd (h holder this) hother

end Registry

end Saipen
