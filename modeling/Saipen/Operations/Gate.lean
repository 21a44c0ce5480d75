import Saipen.Operations.Transition

/-! # Gates along a run of transitions

A live gate lets no move through but the one into BLOCKED, which keeps it. Leaving BLOCKED clears the
blocker, whatever it says: a gate outlives a run exactly when no move of the run leaves BLOCKED. -/

namespace Saipen.Operations

open Text Board

section Runs

/- The characters of `\w`. -/
variable (isWordChar : Char → Bool)

/-- The checkpoints a sequence of transitions goes through, each in a world of its own. -/
def trail : List (World × Request) → Checkpoint → List Checkpoint
  | [], c => [c]
  | (w, r) :: ms, c => c :: trail ms (w.transition isWordChar r c)

/-- Some accepted transition of a sequence leaves BLOCKED. -/
def LeavesBlocked : List (World × Request) → Checkpoint → Prop
  | [], _ => False
  | (w, r) :: ms, c =>
      (upper c.state.phase = "BLOCKED" ∧ ∃ c', w.planTransition isWordChar r c = .ok c') ∨
        LeavesBlocked ms (w.transition isWordChar r c)

/-- A gate that stands: it is live, or parked in BLOCKED. -/
structure Standing (c : Checkpoint) : Prop where
  opened : isOpen c.state.blocker = true
  held : LiveGate isWordChar c.state c.board ∨ upper c.state.phase = "BLOCKED"

end Runs

section Steps

variable {isWordChar : Char → Bool} {w : World} {r : Request} {c c' : Checkpoint}

/-- **The blocker rule.** A live gate lets the move into BLOCKED through and no other one. -/
theorem blockerAfter_live {destination blocker : String} {s : State} {b : Parsed}
    (hgate : LiveGate isWordChar s b) (h : blockerAfter isWordChar destination s b = .ok blocker) :
    destination = "BLOCKED" ∧ blocker = s.blocker := by
  obtain ⟨hopen, hactive, -⟩ := hgate.active
  obtain ⟨repair, hrepair, hrefuses⟩ := hgate
  have hfound : ((stateBlockerRepairs isWordChar s b).find? (·.refuses)).isSome := by
    rw [List.find?_isSome]
    exact ⟨repair, hrepair, hrefuses⟩
  unfold blockerAfter at h
  rw [hopen, Bool.not_true, if_neg Bool.false_ne_true, if_neg hactive] at h
  split at h
  case isTrue hdestination => exact ⟨hdestination, (Except.ok.inj h).symm⟩
  case isFalse =>
    obtain ⟨repair, hsome⟩ := Option.isSome_iff_exists.mp hfound
    simp only [hsome] at h
    cases h

/-- A live gate stays as it is, and the project is parked. -/
theorem planTransition_live (hgate : LiveGate isWordChar c.state c.board)
    (h : w.planTransition isWordChar r c = .ok c') :
    c'.state.blocker = c.state.blocker ∧ c'.state.phase = "BLOCKED" := by
  obtain ⟨subject, blocker, -, hrule, rfl⟩ := planTransition_ok h
  obtain ⟨hdestination, rfl⟩ := blockerAfter_live hgate hrule
  rw [hdestination]
  exact transitioned_blocker

/-- Leaving BLOCKED clears the blocker. -/
theorem planTransition_blocked (hopen : isOpen c.state.blocker = true)
    (hphase : upper c.state.phase = "BLOCKED") (h : w.planTransition isWordChar r c = .ok c') :
    c'.state.blocker = "none" := by
  obtain ⟨subject, blocker, -, hrule, rfl⟩ := planTransition_ok h
  rw [transitioned_blocker.1]
  unfold blockerAfter at hrule
  rw [hopen, Bool.not_true, if_neg Bool.false_ne_true, if_pos hphase] at hrule
  exact (Except.ok.inj hrule).symm

/-- One transition under a standing gate: it is refused, or it clears the blocker on leaving BLOCKED, or
the gate still stands with the same text. -/
theorem Standing.step (h : Standing isWordChar c) (w : World) (r : Request) :
    (upper c.state.phase = "BLOCKED" ∧ (∃ c', w.planTransition isWordChar r c = .ok c') ∧
        (w.transition isWordChar r c).state.blocker = "none") ∨
      ((¬ ∃ c', upper c.state.phase = "BLOCKED" ∧ w.planTransition isWordChar r c = .ok c') ∧
        Standing isWordChar (w.transition isWordChar r c) ∧
        (w.transition isWordChar r c).state.blocker = c.state.blocker) := by
  cases hplan : w.planTransition isWordChar r c with
  | error e =>
    have hsame : w.transition isWordChar r c = c := by rw [World.transition, hplan]
    rw [hsame]
    refine .inr ⟨?_, h, rfl⟩
    rintro ⟨c', -, hc⟩
    cases hc
  | ok c' =>
    have hnext : w.transition isWordChar r c = c' := by rw [World.transition, hplan]
    rw [hnext]
    rcases h.held with hgate | hphase
    · obtain ⟨hblocker, hblocked⟩ := planTransition_live hgate hplan
      refine .inr ⟨?_, ⟨hblocker ▸ h.opened, .inr (by rw [hblocked]; decide)⟩, hblocker⟩
      rintro ⟨-, hphase, -⟩
      exact hgate.active.2.1 hphase
    · exact .inl ⟨hphase, ⟨c', rfl⟩, planTransition_blocked h.opened hphase hplan⟩

/-- **Runs.** A standing gate keeps its text along a run exactly when no move of the run leaves
BLOCKED. -/
theorem Standing.run (ms : List (World × Request)) : ∀ {c : Checkpoint}, Standing isWordChar c →
    ((∀ c' ∈ trail isWordChar ms c, c'.state.blocker = c.state.blocker) ↔
      ¬ LeavesBlocked isWordChar ms c) := by
  induction ms with
  | nil =>
    intro c _
    simp [trail, LeavesBlocked]
  | cons m ms ih =>
    obtain ⟨w, r⟩ := m
    intro c h
    have hfirst : ∀ d : Checkpoint, d ∈ trail isWordChar ms d := by
      intro d
      cases ms with
      | nil => exact List.mem_singleton_self d
      | cons m ms => exact List.mem_cons_self
    rw [trail, LeavesBlocked, List.forall_mem_cons]
    rcases h.step w r with ⟨hphase, haccepted, hnone⟩ | ⟨hstays, hstanding, hsame⟩
    · -- the gate is gone in the next checkpoint already
      refine ⟨fun hkept => absurd (hkept.2 _ (hfirst _)) ?_, fun hnot => ?_⟩
      · rw [hnone]
        exact (ne_none_of_isOpen h.opened).symm
      · exact absurd (.inl ⟨hphase, haccepted⟩) hnot
    · rw [← hsame, ih hstanding]
      constructor
      · rintro ⟨-, hnot⟩ (⟨hphase, c', hc⟩ | hleaves)
        · exact hstays ⟨c', hphase, hc⟩
        · exact hnot hleaves
      · exact fun hnot => ⟨rfl, fun hleaves => hnot (.inr hleaves)⟩

end Steps

/-- A world whose other gates are open. -/
def openWorld : World where
  activeClaim := fun _ _ => none
  nonWork := fun _ => false
  boundary := fun _ _ => none
  shipGate := fun _ _ => none
  evidence := fun _ _ => none
  regression := fun _ => none
  acceptance := fun _ => none
  recorded := fun e => e.text
  authority := fun _ => none
  refresh := fun _ _ _ => none
  route := fun _ _ _ => none
  validate := fun _ _ => []

/-- A project in SHIP that an operator holds. -/
def heldProject : Checkpoint where
  state := ⟨"SHIP", "T-7", "ada", "HELD -- operator must decide before ship", "PHASE SHIP T-7",
    "2026-01-01T00:00:00Z", some "REVIEW", none, none, none, some 4⟩
  board := parseBoard "## DOING\n- [/] T-7 ship it | owner: ada\n## TODO\n## DONE\n## BLOCKED\n"
  events := [⟨4, "RUN", some "T-7", "ada", "transition to SHIP"⟩]

def moveTo (destination : String) : World × Request :=
  (openWorld, ⟨destination, "ada", none, "", "2026-01-02T00:00:00Z"⟩)

end Saipen.Operations
