import Saipen.LinkTree.Edits
import Saipen.XPatch.Operations

/-! # The steps of a patch

What the effects of an operation do to the tree, step by step, and the trees a crash can leave. -/

namespace Saipen.XPatch

open Checks DurableState LinkTree Prog

variable {site : Site} {t u x : Disk} {raised : Raised}

/-! ### Single effects -/

theorem ofExcept_yields {α : Type} {decision : Except Raised α} {a : α} :
    (ofExcept decision).Yields t a u ↔ decision = .ok a ∧ t = u := by
  cases decision with
  | ok b => rw [ofExcept, yields_pure, Except.ok.injEq]
  | error e => simp [ofExcept, yields_raise]

theorem ofExcept_leaves {α : Type} {decision : Except Raised α} :
    (ofExcept decision).Leaves t x ↔ x = t := by
  cases decision with
  | ok b => exact leaves_pure
  | error e => exact leaves_raise

theorem ofExcept_raises {α : Type} {decision : Except Raised α} {e : Raised} :
    (ofExcept decision).Raises t e u ↔ decision = .error e ∧ t = u := by
  cases decision with
  | ok b => simp [ofExcept, raises_pure]
  | error e' => rw [ofExcept, raises_raise, Except.error.injEq]

variable {f : Disk → Option Disk}

theorem attempt_yields : (attempt raised f).Yields t () u ↔ f t = some u := by
  rw [attempt, yields_attempt, orRefuse_eq_ok]

theorem attempt_leaves : (attempt raised f).Leaves t x ↔ x = t ∨ f t = some x := by
  rw [attempt, leaves_attempt, orRefuse_eq_ok]

theorem attempt_raises {e : Raised} : (attempt raised f).Raises t e u ↔ f t = none ∧ raised = e ∧ t = u := by
  rw [attempt, raises_attempt]
  cases f t <;> simp [orRefuse]

variable {path : LinkTree.Path} {content : Content}

theorem writeBytes_yields :
    (site.writeBytes path content).Yields t () u ↔ t.write site.root path content = some u := by
  rw [Site.writeBytes, yields_seq, Tree.write, Option.bind_eq_some_iff]
  simp only [attempt_yields]

theorem writeBytes_leaves (h : (site.writeBytes path content).Leaves t x) :
    x = t ∨ t.ensure site.root path.dropLast = some x ∨ t.write site.root path content = some x := by
  rcases leaves_bind h with h | ⟨_, u, hensure, h⟩
  · exact (attempt_leaves.mp h).imp id .inl
  · have hensure := attempt_yields.mp hensure
    rcases attempt_leaves.mp h with rfl | hset
    · exact .inr (.inl hensure)
    · exact .inr (.inr (Option.bind_eq_some_iff.mpr ⟨u, hensure, hset⟩))

theorem writeBytes_raises {e : Raised} (h : (site.writeBytes path content).Raises t e u) :
    t.write site.root path content = none ∧ (u = t ∨ t.ensure site.root path.dropLast = some u) := by
  rcases raises_bind.mp h with h | ⟨_, v, hensure, h⟩
  · obtain ⟨hnone, -, rfl⟩ := attempt_raises.mp h
    exact ⟨by rw [Tree.write, hnone]; rfl, .inl rfl⟩
  · have hensure := attempt_yields.mp hensure
    obtain ⟨hnone, -, rfl⟩ := attempt_raises.mp h
    exact ⟨by rw [Tree.write, hensure]; exact hnone, .inr hensure⟩

/-! ### Declared paths -/

/-- A step as an edit of the tree. -/
def edit (step : Step) : Edit Content := (segments step.1, step.2)

theorem performStep_yields {step : Step} :
    (site.performStep step).Yields t () u ↔ t.edit site.links site.root (edit step) = some u := by
  obtain ⟨rel, _ | content⟩ := step
  · exact attempt_yields
  · exact writeBytes_yields

theorem perform_yields {steps : List Step} :
    (site.perform steps).Yields t () x ↔ t.edits site.links site.root (steps.map edit) = some x := by
  induction steps generalizing t with
  | nil => simp [Site.perform, Tree.edits, yields_pure]
  | cons step rest ih =>
    rw [Site.perform, yields_seq, List.map_cons, Tree.edits_cons]
    simp only [performStep_yields, ih]

/-- A step is left before it, behind it, or with the directories made for it. -/
theorem performStep_leaves {step : Step} (h : (site.performStep step).Leaves t x) :
    (x = t ∨ Tree.Ensured t x site.root (edit step).1.dropLast) ∨
      t.edit site.links site.root (edit step) = some x := by
  obtain ⟨rel, _ | content⟩ := step
  · rcases attempt_leaves.mp h with rfl | hstep
    · exact .inl (.inl rfl)
    · exact .inr hstep
  · rcases writeBytes_leaves h with rfl | hensure | hstep
    · exact .inl (.inl rfl)
    · exact .inl (.inr (Tree.ensure_spec hensure))
    · exact .inr hstep

theorem perform_leaves {steps : List Step} (h : (site.perform steps).Leaves t x) :
    t.Passes site.links site.root (steps.map edit) x := by
  induction steps generalizing t with
  | nil =>
    obtain rfl := leaves_pure.mp h
    exact .here _ _ _ _
  | cons step rest ih =>
    rcases leaves_bind h with h | ⟨_, u, hstep, h⟩
    · rcases performStep_leaves h with hat | hstep
      · refine ⟨[], _, t, rfl, rfl, hat.imp id fun hensured => ?_⟩
        exact ⟨edit step, List.mem_cons_self, hensured⟩
      · exact .later hstep (.here _ _ _ _)
    · exact .later (performStep_yields.mp hstep) (ih h)

/-- Steps that are refused leave a tree on their way, behind the ones before the refused one. -/
theorem perform_raises {steps : List Step} {e : Raised} (h : (site.perform steps).Raises t e x) :
    ∃ pre step post u, steps = pre ++ step :: post ∧
      t.edits site.links site.root (pre.map edit) = some u ∧
      u.edit site.links site.root (edit step) = none ∧ Tree.Grown u x := by
  induction steps generalizing t with
  | nil => exact absurd h raises_pure
  | cons step rest ih =>
    rcases raises_bind.mp h with h | ⟨_, u, hstep, h⟩
    · refine ⟨[], step, rest, t, rfl, rfl, ?_⟩
      obtain ⟨rel, _ | content⟩ := step
      · obtain ⟨hnone, -, rfl⟩ := attempt_raises.mp h
        exact ⟨hnone, .refl t⟩
      · obtain ⟨hnone, hx⟩ := writeBytes_raises h
        refine ⟨hnone, ?_⟩
        rcases hx with rfl | hensure
        · exact .refl x
        · exact (Tree.ensure_spec hensure).grown
    · obtain ⟨pre, refused, post, v, rfl, hpre, hrefused, hx⟩ := ih h
      exact ⟨step :: pre, refused, post, v, rfl,
        Tree.edits_cons.mpr ⟨u, performStep_yields.mp hstep, hpre⟩, hrefused, hx⟩

/-! ### What is left at the start -/

theorem attempt_leaves_start : (attempt raised f).Leaves t t := attempt_leaves.mpr (.inl rfl)

theorem writeBytes_leaves_start : (site.writeBytes path content).Leaves t t :=
  leaves_bind_left attempt_leaves_start fun _ => attempt_leaves_start

theorem performStep_leaves_start {step : Step} : (site.performStep step).Leaves t t := by
  obtain ⟨rel, _ | content⟩ := step
  · exact attempt_leaves_start
  · exact writeBytes_leaves_start

theorem perform_leaves_start {steps : List Step} : (site.perform steps).Leaves t t := by
  induction steps with
  | nil => exact leaves_pure.mpr rfl
  | cons step rest ih => exact leaves_bind_left performStep_leaves_start fun _ => ih

/-- A crash can come behind any of the steps. -/
theorem perform_leaves_of_edits {pre post : List Step}
    (h : t.edits site.links site.root (pre.map edit) = some u) :
    (site.perform (pre ++ post)).Leaves t u := by
  induction pre generalizing t with
  | nil =>
    obtain rfl := Option.some.inj h
    exact perform_leaves_start
  | cons step pre ih =>
    obtain ⟨v, hstep, hpre⟩ := Tree.edits_cons.mp h
    exact leaves_bind_of_yields (performStep_yields.mpr hstep) (ih hpre)

end Saipen.XPatch
