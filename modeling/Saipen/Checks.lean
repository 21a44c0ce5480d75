import Mathlib.Data.List.Forall2
import Mathlib.Logic.Basic
import Mathlib.Tactic.Common

/-! # Sequences of checks

A computation that is refused by the first check to fail, as an `Except`: what it takes for the whole
sequence to be accepted, check by check. -/

namespace Checks

variable {ε α β : Type}

/-- A check that refuses. -/
def refuseIf (condition : Bool) (refusal : ε) : Except ε Unit :=
  if condition then .error refusal else .ok ()

/-- A value whose absence refuses. -/
def orRefuse (value : Option α) (refusal : ε) : Except ε α :=
  match value with
  | some value => .ok value
  | none => .error refusal

/-- A value whose presence refuses. -/
def refuseOn (value : Option α) (refusal : α → ε) : Except ε Unit :=
  match value with
  | some value => .error (refusal value)
  | none => .ok ()

theorem bind_eq_ok {x : Except ε α} {f : α → Except ε β} {b : β} :
    (x >>= f) = .ok b ↔ ∃ a, x = .ok a ∧ f a = .ok b := by
  cases x <;> simp [bind, Except.bind]

theorem pure_eq_ok {a b : α} : (pure a : Except ε α) = .ok b ↔ a = b := by
  simp [pure, Except.pure]

theorem refuseIf_eq_ok {condition : Bool} {refusal : ε} {u : Unit} :
    refuseIf condition refusal = .ok u ↔ condition = false := by
  cases condition <;> simp [refuseIf]

theorem refuseOn_eq_ok {value : Option α} {refusal : α → ε} {u : Unit} :
    refuseOn value refusal = .ok u ↔ value = none := by
  cases value <;> simp [refuseOn]

theorem orRefuse_eq_ok {value : Option α} {refusal : ε} {a : α} :
    orRefuse value refusal = .ok a ↔ value = some a := by
  cases value <;> simp [orRefuse]

theorem map_eq_ok {x : Except ε α} {f : α → β} {b : β} : x.map f = .ok b ↔ ∃ a, x = .ok a ∧ f a = b := by
  cases x <;> simp [Except.map]

theorem mapError_eq_ok {ε' : Type} {x : Except ε α} {f : ε → ε'} {a : α} :
    x.mapError f = .ok a ↔ x = .ok a := by
  cases x <;> simp [Except.mapError]

/-- A loop of checks is accepted when each of them is. -/
theorem forM_eq_ok {f : α → Except ε Unit} {as : List α} {u : Unit} :
    as.forM f = .ok u ↔ ∀ a ∈ as, f a = .ok () := by
  induction as with
  | nil =>
    rw [List.forM, pure_eq_ok]
    exact iff_of_true rfl fun a ha => by cases ha
  | cons a as ih =>
    show (f a >>= fun _ => as.forM f) = .ok u ↔ _
    rw [bind_eq_ok, List.forall_mem_cons]
    constructor
    · rintro ⟨⟨⟩, ha, has⟩
      exact ⟨ha, ih.mp has⟩
    · rintro ⟨ha, has⟩
      exact ⟨(), ha, ih.mpr has⟩

/-- A list of computations is accepted when each of them is. -/
theorem mapM_eq_ok {f : α → Except ε β} {as : List α} {bs : List β} :
    as.mapM f = .ok bs ↔ List.Forall₂ (fun a b => f a = .ok b) as bs := by
  induction as generalizing bs with
  | nil => rw [List.mapM_nil, pure_eq_ok, List.forall₂_nil_left_iff, eq_comm]
  | cons a as ih =>
    rw [List.mapM_cons, List.forall₂_cons_left_iff]
    simp only [bind_eq_ok, pure_eq_ok, ih]
    constructor
    · rintro ⟨b, hb, bs, hbs, rfl⟩
      exact ⟨b, bs, hb, hbs, rfl⟩
    · rintro ⟨b, bs, hb, hbs, rfl⟩
      exact ⟨b, hb, bs, hbs, rfl⟩

/-- One more computation at the end of a list. -/
theorem mapM_snoc {f : α → Except ε β} {as : List α} {bs : List β} {a : α} {b : β}
    (has : as.mapM f = .ok bs) (ha : f a = .ok b) : (as ++ [a]).mapM f = .ok (bs ++ [b]) := by
  rw [mapM_eq_ok] at has ⊢
  induction has with
  | nil => exact .cons ha .nil
  | cons h _ ih => exact .cons h ih

/-- A list of computations none of which refuses. -/
theorem exists_mapM {f : α → Except ε β} {as : List α} (h : ∀ a ∈ as, ∃ b, f a = .ok b) :
    ∃ bs, as.mapM f = .ok bs := by
  induction as with
  | nil => exact ⟨[], rfl⟩
  | cons a as ih =>
    obtain ⟨b, hb⟩ := h a List.mem_cons_self
    obtain ⟨bs, hbs⟩ := ih fun a ha => h a (List.mem_cons_of_mem _ ha)
    refine ⟨b :: bs, ?_⟩
    rw [List.mapM_cons, hb, hbs]
    rfl

end Checks
