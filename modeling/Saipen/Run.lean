import Mathlib.Logic.Relation
import Mathlib.Order.Basic

/-! # Runs of a step relation

A run is the reflexive and transitive closure of a step relation. What one step preserves a run
preserves, and what no step lowers no run lowers. -/

namespace Run

variable {σ α : Type} {r : σ → σ → Prop} {inv : σ → Prop}

/-- A run, step after step. -/
abbrev Runs (r : σ → σ → Prop) : σ → σ → Prop := Relation.ReflTransGen r

/-- **Invariants.** What every step keeps, every run keeps. -/
theorem keeps (hstep : ∀ s t, inv s → r s t → inv t) {s t : σ} (h : Runs r s t) (hs : inv s) :
    inv t := by
  induction h with
  | refl => exact hs
  | tail _ hlast ih => exact hstep _ _ ih hlast

/-- **Growth under an invariant.** A measure no step lowers is not lowered by a run. -/
theorem grows [Preorder α] {f : σ → α} (hkeep : ∀ s t, inv s → r s t → inv t)
    (hstep : ∀ s t, inv s → r s t → f s ≤ f t) {s t : σ} (h : Runs r s t) (hs : inv s) :
    f s ≤ f t := by
  induction h with
  | refl => exact le_rfl
  | tail hrun hlast ih => exact ih.trans (hstep _ _ (keeps hkeep hrun hs) hlast)

end Run
