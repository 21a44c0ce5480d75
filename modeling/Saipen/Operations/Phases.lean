import Saipen.Assoc

/-! # The phase DFA

The tables of the registry and `transition_legal`. A phase is entered along an edge of the table, by a
command that works from any phase, or from itself. -/

namespace Saipen.Operations

/-- `phases.valid_transitions`. -/
def validTransitions : List (String × List String) :=
  [("INIT", ["PLAN", "BLOCKED"]), ("PLAN", ["SCOUT", "BUILD", "DONE", "BLOCKED"]),
    ("SCOUT", ["BUILD", "BLOCKED"]), ("BUILD", ["VERIFY", "BLOCKED"]),
    ("VERIFY", ["REVIEW", "SCOUT", "BUILD", "BLOCKED"]),
    ("REVIEW", ["SHIP", "BUILD", "SCOUT", "BLOCKED"]), ("SHIP", ["DONE", "BUILD", "BLOCKED"]),
    ("DONE", ["SCOUT", "PLAN", "HUNT", "BLOCKED"]), ("BLOCKED", ["PLAN", "SCOUT", "DONE"]),
    ("VALIDATE", ["SCOUT", "PLAN", "DONE", "BLOCKED"]), ("HUNT", ["ADD", "PLAN", "SCOUT", "BLOCKED"]),
    ("MARKHUNT", ["DONE", "BLOCKED"]), ("ADD", ["BUILD", "PLAN", "SCOUT", "DONE", "BLOCKED"]),
    ("CLEAN", ["DONE", "BLOCKED"]), ("TRANSLATE", ["DONE", "BLOCKED"]),
    ("PREPARE", ["DONE", "BLOCKED"])]

/-- `ALL_PHASES`. -/
def allPhases : List String := validTransitions.map (·.1)

/-- `ANY_FROM`. -/
def anyFrom : List String :=
  ["VALIDATE", "MARKHUNT", "CLEAN", "TRANSLATE", "PREPARE", "PLAN", "HUNT"]

/-- `TICKET_BEARING_PHASES`. -/
def ticketBearing : List String := ["SCOUT", "BUILD", "VERIFY", "REVIEW", "SHIP"]

/-- `VALID_TRANSITIONS.get(source, [])`. -/
def edgesFrom (source : String) : List String := (validTransitions.lookup source).getD []

/-- `transition_legal`. -/
def transitionLegal (source destination : String) : Bool :=
  if destination ∈ anyFrom then true
  else if source = destination then source ∈ allPhases || source ∈ anyFrom
  else destination ∈ edgesFrom source

/-- The phases an edge leads to are phases. -/
theorem edges_known : ∀ e ∈ validTransitions, ∀ d ∈ e.2, d ∈ allPhases := by decide

theorem anyFrom_known : ∀ d ∈ anyFrom, d ∈ allPhases := by decide

/-- A legal move ends in a phase. -/
theorem known_of_transitionLegal {source destination : String}
    (h : transitionLegal source destination = true) : destination ∈ allPhases := by
  unfold transitionLegal at h
  split at h
  case isTrue hany => exact anyFrom_known _ hany
  case isFalse =>
    split at h
    case isTrue heq =>
      rw [Bool.or_eq_true, decide_eq_true_eq, decide_eq_true_eq] at h
      exact heq ▸ h.elim id (anyFrom_known _)
    case isFalse =>
      rw [decide_eq_true_eq, edgesFrom] at h
      cases hlookup : validTransitions.lookup source with
      | none =>
        rw [hlookup] at h
        cases h
      | some ds =>
        rw [hlookup, Option.getD_some] at h
        exact edges_known _ (Assoc.mem_of_lookup hlookup) _ h

/-- BLOCKED can be entered from every phase that is no command's. -/
theorem blocked_legal : ∀ source ∈ allPhases, transitionLegal source "BLOCKED" = true := by decide

end Saipen.Operations
