import Saipen.Assoc
import Saipen.Log.Compaction
import Saipen.Log.Failure

/-! # Verification evidence

`verification_evidence` judges one ticket by its current cycle: from its latest VERIFY boundary to the
finish behind it. `bulk_verification_evidence` judges many in one backward walk over the same events.
Both read an event through the same predicates, and the walk of one ticket is what relates them. -/

namespace Saipen.Log

open Text
open Text.Pattern (all any many some1 lit space edge)

/-! ### Provenance -/

/-- `OP_CLASSES`: the prefixes of the operation ids the engine writes, with the widths of their bodies. -/
def opClasses : List (List String × List Nat) :=
  [(["checkpoint-", "claim-", "converge_intent-", "crew-defer-", "crew-run-", "finalize_crew-",
      "finalize_done-", "finalize_ship-", "finish-", "fpc-", "scope-", "stop-", "ticket-", "transition-",
      "valve-", "wait-"], [8, 32]),
    (["goal-"], [8, 16, 32]),
    (["attempt-close-", "attempt-open-", "bind-cohort-", "board-compact-", "board-scrub-", "ccc-entry-",
      "clear-wait-role-", "cohort-reconcile-", "convergence-", "crew-closure-", "goal-entry-",
      "goal-authorize-", "handover-", "improve-hold-", "improve-unhold-", "metadata-repair-",
      "migrate_generation-", "needs-detach-", "normalize-log-", "quarantine-log-tail-", "rebind_home-",
      "resolve-external-", "retire-", "retire-source-", "seal-log-", "supersede-", "ticket-reasoning-",
      "ticket-requires-", "ticket-verify-", "userreq-", "duplicate-id-", "release-",
      "source.requirement_add-", "cycle-", "improve-admit-", "improve-rebind-", "report-",
      "regression-execution-", "retrospective-", "run-", "seat-", "sweep-", "userperson-",
      "userperson-reset-"], [32]),
    (["sub-adopt-", "sub-clean-", "sub-collect-", "sub-disposition-", "sub-pause-", "sub-reconcile-",
      "sub-resume-", "sub-spawn-", "sub-sync-"], [8]),
    (["audit-consume-", "authority-capture-", "build-intake-", "cut-intake-", "milestone-",
      "source-link-", "undo-", "undo-intake-"], [16]),
    (["accepted_debt.rebind-", "accepted_debt.register-", "debt.snapshot-", "receipt-", "reverify.",
      "source.purge-", "source.receipt-range-", "source.reconcile-"], [12]),
    (["reconcile-"], [20])]

/-- What stands behind the prefix of an operation id: so many hexadecimal digits, and a newline at most. -/
def isOpBody (width : Nat) (body : List Char) : Bool :=
  (body.take width).length == width && (body.take width).all isLowerHex &&
    (body.drop width == [] || body.drop width == ['\n'])

/-- `_OP_ID_GRAMMAR`. -/
def isCanonicalOpId (opId : String) : Bool :=
  opClasses.any fun c => c.1.any fun pre =>
    (literal pre.toList opId.toList).any fun body => c.2.any fun width => isOpBody width body

/-- `_hand_authored`: the tag is there and no writer of the engine makes it. -/
def LogEvent.handAuthored (e : LogEvent) : Bool := e.opId.any fun id => id != "" && !isCanonicalOpId id

/-! ### What an event says -/

variable (word : Char → Bool)

/-- `parse_evidence(text) is not None`. -/
def isRegressionEvidence (text : String) : Bool :=
  (all [lit "REGRESSION-EVIDENCE", some1 space, any [lit "FAIL", lit "PASS"], edge]).matchesAt word
    (strip text).toList

/-- The text is the VERIFY entry marker the engine writes. -/
def isBoundaryText (text : String) : Bool :=
  text == "transition to VERIFY" || startsWith text "transition to VERIFY -- "

/-- `_MANUAL_RESULT_RE` with the given verdict. -/
def isManualResult (verdict text : String) : Bool :=
  (all [lit "MANUAL-VERIFY RESULT:", many space, lit verdict, edge]).matchesAt word (strip text).toList

/-- `_PASS_TOKEN_RE.search(text)`. -/
def hasPassToken (text : String) : Bool := (all [edge, lit "PASS", edge]).search word text.toList

/-- A verdict and the reason given for it. -/
abbrev Verdict := Bool × String

/-- What the text of a RUN event decides. -/
def decisive (text : String) : Option Verdict :=
  if isRegressionEvidence word text then none
  else if claimsFailure word text then some (false, text)
  else if isManualResult word "PASS" text then some (true, text)
  else if isManualResult word "FAIL" text then some (false, text)
  else if hasPassToken word text then
    if contains "conf: low" text ∨ contains "conf: med" text then some (false, text)
    else if contains "conf: high" text then some (true, text)
    else none
  else none

namespace LogEvent

/-- A RUN event of a ticket that no hand wrote. -/
def isRun (t : String) (e : LogEvent) : Bool :=
  e.ticket == some t && e.taxonomy == "RUN" && !e.handAuthored

/-- `_is_verify_boundary`, for a ticket's own events. -/
def opensCycle (t : String) (e : LogEvent) : Bool := e.isRun t && isBoundaryText e.text

/-- `_closes_the_cycle`. -/
def closesCycle (t : String) (e : LogEvent) : Bool :=
  e.ticket == some t && e.taxonomy == "DEC" && startsWith (e.opId.getD "") "finish-" &&
    startsWith e.text "ticket finished via SAIOPS" && !e.handAuthored

/-- What an event of a cycle decides. -/
def evidence (t : String) (e : LogEvent) : Option Verdict := if e.isRun t then decisive word e.text else none

end LogEvent

/-! ### One ticket -/

/-- `NO_VERIFY_BOUNDARY`. -/
def noVerifyBoundary : Verdict := (false, "no current-cycle VERIFY boundary")

/-- A cycle without evidence. -/
def unproven : Verdict := (false, "unproven/failed")

/-- The events from the latest boundary of a ticket on. -/
def currentCycle (t : String) : List LogEvent → Option (List LogEvent)
  | [] => none
  | e :: es =>
      match currentCycle t es with
      | some cycle => some cycle
      | none => if e.opensCycle t then some (e :: es) else none

/-- The events up to the first finish of a ticket. -/
def toFinish (t : String) : List LogEvent → List LogEvent
  | [] => []
  | e :: es => if e.closesCycle t then [e] else e :: toFinish t es

/-- The newest evidence among some events. -/
def newestEvidence (t : String) (es : List LogEvent) : Option Verdict :=
  es.reverse.findSome? (LogEvent.evidence word t)

/-- `verification_evidence`. -/
def verificationEvidence (t : String) (events : List LogEvent) : Verdict :=
  if t = "" then (false, "no ticket id provided")
  else
    match currentCycle t events with
    | none => noVerifyBoundary
    | some cycle => (newestEvidence word t (toFinish t cycle)).getD unproven

/-! ### All tickets at once -/

/-- What the backward walk keeps. -/
structure BulkPass where
  verdicts : List (String × Verdict) := []
  boundarySeen : List String := []
  pending : List (String × Verdict) := []

namespace BulkPass

/-- `pending[tid] = decisive`, where there is evidence and nothing newer. -/
def hold (s : BulkPass) (t : String) (found : Option Verdict) : BulkPass :=
  match found with
  | none => s
  | some verdict =>
      if s.pending.lookup t = none then { s with pending := Assoc.set t verdict s.pending } else s

/-- A RUN event of a wanted ticket whose cycle is still open to the walk. -/
def run (t : String) (s : BulkPass) (e : LogEvent) : BulkPass :=
  let held := s.hold t (decisive word e.text)
  if isRegressionEvidence word e.text then s
  else if isBoundaryText e.text then
    { held with
      boundarySeen := t :: held.boundarySeen
      verdicts := Assoc.set t ((held.pending.lookup t).getD unproven) held.verdicts }
  else held

/-- An event of a wanted ticket. -/
def own (t : String) (s : BulkPass) (e : LogEvent) : BulkPass :=
  if s.verdicts.lookup t = none ∧ t ∉ s.boundarySeen ∧ e.closesCycle t = true then
    { s with pending := Assoc.pop t s.pending }
  else if e.taxonomy ≠ "RUN" then s
  else if s.verdicts.lookup t ≠ none then s
  else if t ∈ s.boundarySeen then s
  else if e.handAuthored then s
  else s.run word t e

/-- One event of the walk. -/
def event (wanted : List String) (s : BulkPass) (e : LogEvent) : BulkPass :=
  match e.ticket with
  | none => s
  | some t => if t ∈ wanted then s.own word t e else s

/-- The verdict of a ticket the walk found no boundary for. -/
def rest (s : BulkPass) (t : String) : Verdict := if t ∈ s.boundarySeen then unproven else noVerifyBoundary

/-- The tickets that are left get their verdict. -/
def close (wanted : List String) (s : BulkPass) : List (String × Verdict) :=
  wanted.foldl (fun d t => if d.lookup t = none then Assoc.set t (s.rest t) d else d) s.verdicts

end BulkPass

/-- `bulk_verification_evidence`. -/
def bulkVerificationEvidence (events : List LogEvent) (wanted : List String) : List (String × Verdict) :=
  (events.reverse.foldl (BulkPass.event word wanted) {}).close wanted

/-! ### The walk of one ticket -/

/-- The backward walk as one ticket sees it: the evidence found since the last finish, and the events
still to come, newest first. -/
def walk (t : String) : Option Verdict → List LogEvent → Verdict
  | _, [] => noVerifyBoundary
  | found, e :: es =>
      if e.closesCycle t then walk t none es
      else if e.opensCycle t then (found.or (e.evidence word t)).getD unproven
      else walk t (found.or (e.evidence word t)) es

variable {word} {t u : String} {e : LogEvent} {es : List LogEvent}

theorem LogEvent.evidence_of_run (h : e.isRun t = true) : e.evidence word t = decisive word e.text := if_pos h

theorem LogEvent.evidence_of_not_run (h : e.isRun t = false) : e.evidence word t = none :=
  if_neg (by simp [h])

theorem LogEvent.not_run_of_closes (h : e.closesCycle t = true) : e.isRun t = false := by
  simp only [LogEvent.closesCycle, Bool.and_eq_true, beq_iff_eq] at h
  simp [LogEvent.isRun, h.1.1.1.2]

theorem LogEvent.run_of_opens (h : e.opensCycle t = true) : e.isRun t = true := by
  rw [LogEvent.opensCycle, Bool.and_eq_true] at h
  exact h.1

/-- A marker of the engine is no regression evidence. -/
theorem not_regressionEvidence_of_boundary {text : String} (h : isBoundaryText text = true) :
    isRegressionEvidence word text = false := by
  have hopens : ∃ rest, text.toList = "transition to VERIFY".toList ++ rest := by
    rcases Bool.or_eq_true_iff.mp h with h | h
    · exact ⟨[], by rw [eq_of_beq h, List.append_nil]⟩
    · obtain ⟨rest, hrest⟩ := List.isPrefixOf_iff_prefix.mp h
      exact ⟨" -- ".toList ++ rest, hrest.symm⟩
  obtain ⟨rest, hrest⟩ := hopens
  obtain ⟨kept, -, hkept⟩ := strip_opening hrest (by decide)
    (by rintro c ⟨⟩; decide) (by rintro c ⟨⟩; decide)
  rw [isRegressionEvidence, hkept]
  rfl

/-! ### One ticket by its walk -/

theorem toFinish_of_open (h : ∀ e ∈ es, e.closesCycle t = false) : toFinish t es = es := by
  induction es with
  | nil => rfl
  | cons e es ih =>
    rw [toFinish, if_neg (by simp [h e List.mem_cons_self]),
      ih fun d hd => h d (List.mem_cons_of_mem _ hd)]

theorem toFinish_append_of_closed {ds : List LogEvent} (h : ∃ e ∈ es, e.closesCycle t = true) :
    toFinish t (es ++ ds) = toFinish t es := by
  induction es with
  | nil =>
    obtain ⟨e, he, -⟩ := h
    cases he
  | cons e es ih =>
    rw [List.cons_append, toFinish, toFinish]
    split_ifs with hclose
    · rfl
    · obtain ⟨d, hd, hdclose⟩ := h
      rcases List.mem_cons.mp hd with rfl | hd
      · exact absurd hdclose hclose
      · rw [ih ⟨d, hd, hdclose⟩]

theorem toFinish_append_of_open {ds : List LogEvent} (h : ∀ e ∈ es, e.closesCycle t = false) :
    toFinish t (es ++ ds) = es ++ toFinish t ds := by
  induction es with
  | nil => rfl
  | cons e es ih =>
    rw [List.cons_append, toFinish, if_neg (by simp [h e List.mem_cons_self]), List.cons_append,
      ih fun d hd => h d (List.mem_cons_of_mem _ hd)]

theorem currentCycle_eq_none (h : ∀ e ∈ es, e.opensCycle t = false) : currentCycle t es = none := by
  induction es with
  | nil => rfl
  | cons e es ih =>
    rw [currentCycle, ih fun d hd => h d (List.mem_cons_of_mem _ hd)]
    simp [h e List.mem_cons_self]

theorem currentCycle_append {ds : List LogEvent} (h : ∀ e ∈ ds, e.opensCycle t = false) :
    currentCycle t (es ++ ds) = (currentCycle t es).map (· ++ ds) := by
  induction es with
  | nil => rw [List.nil_append, currentCycle_eq_none h, currentCycle, Option.map_none]
  | cons e es ih =>
    rw [List.cons_append, currentCycle, ih, currentCycle]
    cases currentCycle t es with
    | some cycle => rfl
    | none => by_cases hopen : e.opensCycle t <;> simp [hopen]

theorem currentCycle_snoc_of_opens (h : e.opensCycle t = true) :
    currentCycle t (es ++ [e]) = some [e] := by
  induction es with
  | nil => simp [currentCycle, h]
  | cons d es ih => rw [List.cons_append, currentCycle, ih]

theorem newestEvidence_append (es ds : List LogEvent) :
    newestEvidence word t (es ++ ds) = (newestEvidence word t ds).or (newestEvidence word t es) := by
  rw [newestEvidence, List.reverse_append, List.findSome?_append]
  rfl

theorem newestEvidence_singleton (e : LogEvent) : newestEvidence word t [e] = e.evidence word t := by
  simp only [newestEvidence, List.reverse_singleton, List.findSome?_cons, List.findSome?_nil]
  cases e.evidence word t <;> rfl

/-- What the walk comes to, given the evidence found behind the events: a finish among them takes it
away. -/
theorem walk_reverse (found : Option Verdict) (es : List LogEvent) :
    walk word t found es.reverse =
      ((currentCycle t es).elim noVerifyBoundary fun cycle =>
        if ∃ e ∈ cycle, e.closesCycle t = true then (newestEvidence word t (toFinish t cycle)).getD unproven
        else (found.or (newestEvidence word t cycle)).getD unproven) := by
  induction es using List.reverseRecOn generalizing found with
  | nil => rfl
  | append_singleton es e ih =>
    rw [List.reverse_append, List.reverse_singleton, List.singleton_append, walk]
    by_cases hclose : e.closesCycle t = true
    · -- the finish is the last event of the cycle: it counts unless an earlier one closed the cycle
      have hrun := LogEvent.not_run_of_closes hclose
      have hopen : e.opensCycle t = false := by simp [LogEvent.opensCycle, hrun]
      rw [if_pos hclose, ih, currentCycle_append (by simpa using hopen)]
      cases currentCycle t es with
      | none => rfl
      | some cycle =>
        have hhere : ∃ d ∈ cycle ++ [e], d.closesCycle t = true := ⟨e, by simp, hclose⟩
        simp only [Option.map_some, Option.elim_some, if_pos hhere]
        by_cases hclosed : ∃ d ∈ cycle, d.closesCycle t = true
        · rw [if_pos hclosed, toFinish_append_of_closed hclosed]
        · rw [if_neg hclosed, Option.none_or, toFinish_append_of_open (by simpa using hclosed),
            toFinish, if_pos hclose, newestEvidence_append, newestEvidence_singleton, LogEvent.evidence_of_not_run hrun,
            Option.none_or]
    · rw [if_neg hclose]
      by_cases hopen : e.opensCycle t = true
      · rw [if_pos hopen, currentCycle_snoc_of_opens hopen]
        simp [hclose, newestEvidence_singleton]
      · rw [if_neg hopen, ih, currentCycle_append (by simpa using hopen)]
        cases currentCycle t es with
        | none => rfl
        | some cycle =>
          simp only [Option.map_some, Option.elim_some, List.mem_append, List.mem_singleton, or_and_right,
            exists_or, exists_eq_left, hclose, Bool.false_eq_true, or_false]
          by_cases hclosed : ∃ d ∈ cycle, d.closesCycle t = true
          · rw [if_pos hclosed, if_pos hclosed, toFinish_append_of_closed hclosed]
          · rw [if_neg hclosed, if_neg hclosed, newestEvidence_append, newestEvidence_singleton, Option.or_assoc]

/-- A ticket alone is judged by its walk. -/
theorem verificationEvidence_eq_walk (ht : t ≠ "") (events : List LogEvent) :
    verificationEvidence word t events = walk word t none events.reverse := by
  rw [verificationEvidence, if_neg ht, walk_reverse]
  cases currentCycle t events with
  | none => rfl
  | some cycle =>
    show (newestEvidence word t (toFinish t cycle)).getD unproven = if _ then _ else _
    by_cases hclosed : ∃ d ∈ cycle, d.closesCycle t = true
    · rw [if_pos hclosed]
    · rw [if_neg hclosed, Option.none_or, toFinish_of_open (by simpa using hclosed)]

/-! ### Many tickets by their walks -/

namespace BulkPass

/-- What the pass still comes to for a ticket, with the given events to come. -/
def outcome (word : Char → Bool) (s : BulkPass) (t : String) (es : List LogEvent) : Verdict :=
  (s.verdicts.lookup t).getD (walk word t (s.pending.lookup t) es)

/-- The boundaries seen are those of the tickets judged. -/
def Settled (s : BulkPass) : Prop := ∀ t ∈ s.boundarySeen, s.verdicts.lookup t ≠ none

variable {s : BulkPass} {found : Option Verdict}

theorem hold_verdicts (s : BulkPass) (t : String) (found : Option Verdict) :
    (s.hold t found).verdicts = s.verdicts := by
  unfold hold
  cases found with
  | none => rfl
  | some verdict => dsimp only; split <;> rfl

theorem hold_boundarySeen (s : BulkPass) (t : String) (found : Option Verdict) :
    (s.hold t found).boundarySeen = s.boundarySeen := by
  unfold hold
  cases found with
  | none => rfl
  | some verdict => dsimp only; split <;> rfl

/-- Newer evidence stays in front of older. -/
theorem hold_pending (s : BulkPass) (t u : String) (found : Option Verdict) :
    (s.hold t found).pending.lookup u =
      if u = t then (s.pending.lookup t).or found else s.pending.lookup u := by
  cases found with
  | none =>
    show s.pending.lookup u = _
    rw [Option.or_none]
    split_ifs with h
    · rw [h]
    · rfl
  | some verdict =>
    show (if s.pending.lookup t = none then { s with pending := Assoc.set t verdict s.pending }
      else s : BulkPass).pending.lookup u = _
    by_cases hnone : s.pending.lookup t = none
    · rw [if_pos hnone, Assoc.lookup_set, hnone, Option.none_or]
    · obtain ⟨held, hheld⟩ := Option.ne_none_iff_exists'.mp hnone
      rw [if_neg hnone, hheld, Option.some_or]
      split_ifs with h
      · rw [h, hheld]
      · rfl

/-- A RUN event of a ticket with an open cycle either settles the ticket or adds to its evidence. -/
theorem run_eq (s : BulkPass) (t : String) (e : LogEvent) :
    s.run word t e =
      if isBoundaryText e.text then
        { s.hold t (decisive word e.text) with
          boundarySeen := t :: s.boundarySeen
          verdicts := Assoc.set t (((s.pending.lookup t).or (decisive word e.text)).getD unproven) s.verdicts }
      else s.hold t (decisive word e.text) := by
  unfold run
  by_cases hevidence : isRegressionEvidence word e.text = true
  · have hnone : decisive word e.text = none := if_pos hevidence
    have hboundary : ¬isBoundaryText e.text = true := fun hb => by
      rw [not_regressionEvidence_of_boundary hb] at hevidence
      cases hevidence
    rw [if_pos hevidence, if_neg hboundary, hnone]
    rfl
  · rw [if_neg hevidence]
    by_cases hboundary : isBoundaryText e.text = true
    · simp only [if_pos hboundary, hold_pending, hold_boundarySeen, hold_verdicts, if_true]
    · rw [if_neg hboundary, if_neg hboundary]

/-- The events of other tickets are nothing to a ticket. -/
theorem own_other (word : Char → Bool) (h : u ≠ t) (s : BulkPass) (e : LogEvent) :
    ((s.own word t e).verdicts.lookup u = s.verdicts.lookup u ∧
      (s.own word t e).pending.lookup u = s.pending.lookup u) ∧
      (u ∈ (s.own word t e).boundarySeen ↔ u ∈ s.boundarySeen) := by
  unfold own
  split_ifs
  · simp [Assoc.lookup_pop, h]
  · simp
  · simp
  · simp
  · simp
  · rw [run_eq]
    split_ifs
    · simp [Assoc.lookup_set, hold_pending, h]
    · simp [hold_verdicts, hold_pending, hold_boundarySeen, h]

/-- One event of a ticket: the pass goes on as the walk does. -/
theorem own_self (word : Char → Bool) (hs : s.Settled) (he : e.ticket = some t) (es : List LogEvent) :
    (s.own word t e).outcome word t es = s.outcome word t (e :: es) ∧
      (t ∈ (s.own word t e).boundarySeen → (s.own word t e).verdicts.lookup t ≠ none) := by
  cases hverdict : s.verdicts.lookup t with
  | some v =>
    -- a settled ticket stays as it is
    have hsame : s.own word t e = s := by
      unfold own
      rw [if_neg (by simp [hverdict])]
      split_ifs with hrun hjudged
      · rfl
      · rfl
      · simp [hverdict] at hjudged
      · simp [hverdict] at hjudged
      · simp [hverdict] at hjudged
    rw [hsame]
    simp [outcome, hverdict]
  | none =>
    have hseen : t ∉ s.boundarySeen := fun h => hs t h hverdict
    by_cases hclose : e.closesCycle t = true
    · have hown : s.own word t e = { s with pending := Assoc.pop t s.pending } := by
        unfold own
        rw [if_pos ⟨hverdict, hseen, hclose⟩]
      rw [hown]
      simp [outcome, hverdict, walk, hclose, Assoc.lookup_pop, hseen]
    by_cases hrun : e.isRun t = true
    · -- a RUN event: the last branch of the pass
      have hparts : e.taxonomy = "RUN" ∧ e.handAuthored = false := by
        simpa [LogEvent.isRun, he] using hrun
      have hown : s.own word t e = s.run word t e := by
        unfold own
        simp [hclose, hparts.1, hparts.2, hverdict, hseen]
      rw [hown, run_eq]
      have hevidence : e.evidence word t = decisive word e.text := LogEvent.evidence_of_run hrun
      by_cases hboundary : isBoundaryText e.text = true
      · have hopen : e.opensCycle t = true := by simp [LogEvent.opensCycle, hrun, hboundary]
        simp [hboundary, outcome, Assoc.lookup_set, hverdict, walk, hclose, hopen, hevidence]
      · have hopen : e.opensCycle t = false := by simp [LogEvent.opensCycle, hboundary]
        simp [hboundary, outcome, hverdict, walk, hclose, hopen, hevidence, hold_verdicts, hold_pending,
          hold_boundarySeen, hseen]
    · -- not a RUN event, or written by hand
      have hown : s.own word t e = s := by
        unfold own
        rw [if_neg (by simp [hclose])]
        by_cases htaxonomy : e.taxonomy = "RUN"
        · have hhand : e.handAuthored = true := by simpa [LogEvent.isRun, he, htaxonomy] using hrun
          rw [if_neg (not_not.mpr htaxonomy), if_neg (not_not.mpr hverdict), if_neg hseen, if_pos hhand]
        · rw [if_pos htaxonomy]
      have hnone : e.evidence word t = none :=
        LogEvent.evidence_of_not_run (Bool.eq_false_iff.mpr hrun)
      have hopen : e.opensCycle t = false := by simp [LogEvent.opensCycle, hrun]
      rw [hown]
      simp [outcome, hverdict, walk, hclose, hopen, hnone, hseen]

/-- One event of the walk over all tickets. -/
theorem event_step {wanted : List String} (ht : t ∈ wanted) (hs : s.Settled) (e : LogEvent)
    (es : List LogEvent) :
    (s.event word wanted e).outcome word t es = s.outcome word t (e :: es) := by
  have hother : e.ticket ≠ some t → s.outcome word t (e :: es) = s.outcome word t es := by
    intro h
    have hrun : e.isRun t = false := by simp [LogEvent.isRun, h]
    have hclose : e.closesCycle t = false := by simp [LogEvent.closesCycle, h]
    simp [outcome, walk, hclose, LogEvent.opensCycle, hrun, LogEvent.evidence_of_not_run hrun]
  unfold event
  cases he : e.ticket with
  | none => exact (hother (by simp [he])).symm
  | some u =>
    dsimp only
    by_cases hu : u = t
    · subst hu
      rw [if_pos ht]
      exact (own_self word hs he es).1
    · rw [hother (by simp [he, hu])]
      split_ifs
      · obtain ⟨⟨hverdict, hpending⟩, -⟩ := own_other word (Ne.symm hu) s e
        rw [outcome, outcome, hverdict, hpending]
      · rfl

theorem event_settled {wanted : List String} (hs : s.Settled) (e : LogEvent) :
    (s.event word wanted e).Settled := by
  intro t ht
  unfold event at ht ⊢
  cases he : e.ticket with
  | none => simpa [he] using hs t (by simpa [he] using ht)
  | some u =>
    rw [he] at ht
    dsimp only at ht ⊢
    split_ifs at ht ⊢ with hwanted
    · by_cases hu : t = u
      · subst hu
        exact (own_self word hs he []).2 ht
      · obtain ⟨⟨hverdict, -⟩, hseen⟩ := own_other word hu s e
        rw [hverdict]
        exact hs t (hseen.mp ht)
    · exact hs t ht

/-- The whole walk over all tickets. -/
theorem outcome_foldl (word : Char → Bool) {wanted : List String} (ht : t ∈ wanted) (es : List LogEvent) {s : BulkPass}
    (hs : s.Settled) : (es.foldl (event word wanted) s).Settled ∧
      (es.foldl (event word wanted) s).outcome word t [] = s.outcome word t es := by
  induction es generalizing s with
  | nil => exact ⟨hs, rfl⟩
  | cons e es ih =>
    rw [List.foldl_cons, ← event_step ht hs]
    exact ih (event_settled hs e)

/-- Closing gives every wanted ticket its outcome. -/
theorem lookup_close {wanted : List String} (hs : s.Settled) (ht : t ∈ wanted) :
    (s.close wanted).lookup t = some (s.outcome word t []) := by
  have hrest : s.verdicts.lookup t = none → s.rest t = s.outcome word t [] := by
    intro hverdict
    rw [rest, if_neg fun h => hs t h hverdict, outcome, hverdict]
    rfl
  -- the tickets still to close: those of the list that have no verdict yet
  have hfold : ∀ (ts : List String) (d : List (String × Verdict)),
      (d.lookup t = some (s.outcome word t []) ∨ d.lookup t = none ∧ s.verdicts.lookup t = none ∧ t ∈ ts) →
      (ts.foldl (fun d t => if d.lookup t = none then Assoc.set t (s.rest t) d else d) d).lookup t =
        some (s.outcome word t []) := by
    intro ts
    induction ts with
    | nil =>
      rintro d (h | ⟨-, -, h⟩)
      · exact h
      · cases h
    | cons u ts ih =>
      intro d h
      rw [List.foldl_cons]
      apply ih
      rcases h with h | ⟨hnone, hverdict, hmem⟩
      · left
        split_ifs with hu
        · rw [Assoc.lookup_set, if_neg (by rintro rfl; simp [h] at hu), h]
        · exact h
      · by_cases hu : t = u
        · subst hu
          left
          rw [if_pos hnone, Assoc.lookup_set, if_pos rfl, hrest hverdict]
        · right
          refine ⟨?_, hverdict, (List.mem_cons.mp hmem).resolve_left hu⟩
          split_ifs
          · rw [Assoc.lookup_set, if_neg hu, hnone]
          · exact hnone
  apply hfold
  cases hverdict : s.verdicts.lookup t with
  | some v => exact .inl (by rw [outcome, hverdict, Option.getD_some])
  | none => exact .inr ⟨rfl, rfl, ht⟩

end BulkPass

/-- Every ticket asked for is judged by its own walk. -/
theorem bulk_eq_walk (word : Char → Bool) {wanted : List String} (ht : t ∈ wanted) (events : List LogEvent) :
    (bulkVerificationEvidence word events wanted).lookup t = some (walk word t none events.reverse) := by
  have hempty : BulkPass.Settled {} := fun _ h => absurd h List.not_mem_nil
  obtain ⟨hs, houtcome⟩ := BulkPass.outcome_foldl word ht events.reverse hempty
  rw [bulkVerificationEvidence, BulkPass.lookup_close hs ht, houtcome]
  rfl

/-! ### Agreement -/

/-- What a walk can come to. -/
def Reached (word : Char → Bool) (found : Option Verdict) (es : List LogEvent) (v : Verdict) : Prop :=
  v = noVerifyBoundary ∨ v = unproven ∨ found = some v ∨ ∃ e ∈ es, decisive word e.text = some v

/-- Evidence of an event reached before it is evidence reached. -/
theorem Reached.cons {found : Option Verdict} {v : Verdict}
    (h : Reached word (found.or (e.evidence word t)) es v) : Reached word found (e :: es) v := by
  rcases h with h | h | h | ⟨d, hd, h⟩
  · exact .inl h
  · exact .inr (.inl h)
  · cases found with
    | some w => exact .inr (.inr (.inl h))
    | none =>
      rw [Option.none_or, LogEvent.evidence] at h
      split_ifs at h
      exact .inr (.inr (.inr ⟨e, List.mem_cons_self, h⟩))
  · exact .inr (.inr (.inr ⟨d, List.mem_cons_of_mem _ hd, h⟩))

theorem walk_reached (word : Char → Bool) (t : String) (found : Option Verdict) (es : List LogEvent) :
    Reached word found es (walk word t found es) := by
  induction es generalizing found with
  | nil => exact .inl rfl
  | cons e es ih =>
    rw [walk]
    split_ifs
    · rcases ih none with h | h | h | ⟨d, hd, h⟩
      · exact .inl h
      · exact .inr (.inl h)
      · cases h
      · exact .inr (.inr (.inr ⟨d, List.mem_cons_of_mem _ hd, h⟩))
    · apply Reached.cons (t := t)
      cases found.or (e.evidence word t) with
      | none => exact .inr (.inl rfl)
      | some v => exact .inr (.inr (.inl rfl))
    · exact Reached.cons (ih _)

theorem decisive_ascii (word word' : Char → Bool) {text : String} (h : ∀ c ∈ text.toList, c.toNat < 128) :
    decisive word text = decisive word' text := by
  have hstrip : ∀ c ∈ (strip text).toList, c.toNat < 128 := by
    obtain ⟨pre, post, hparts, -⟩ := strip_parts text
    intro c hc
    exact h c (by rw [hparts]; simp [hc])
  have hregression : isRegressionEvidence word text = isRegressionEvidence word' text :=
    Pattern.matchesAt_ascii word word' _ hstrip
  have hmanual : ∀ verdict, isManualResult word verdict text = isManualResult word' verdict text :=
    fun _ => Pattern.matchesAt_ascii word word' _ hstrip
  have hpass : hasPassToken word text = hasPassToken word' text := Pattern.search_ascii word word' _ h
  simp only [decisive, hregression, claimsFailure_ascii word word' h, hmanual, hpass]

theorem refusal_decides_nothing : decisive word "no ticket id provided" = none := by
  rw [decisive_ascii word asciiWords (by simp)]
  decide +kernel

/-- The refusal of an empty id is no verdict of a walk. -/
theorem walk_ne_refusal (es : List LogEvent) : walk word t none es ≠ (false, "no ticket id provided") := by
  intro heq
  have h := walk_reached word t none es
  rw [heq] at h
  rcases h with h | h | h | ⟨d, -, h⟩
  · exact absurd h (by decide)
  · exact absurd h (by decide)
  · cases h
  · -- evidence carries the text of its event, and this text decides nothing
    have htext : d.text = "no ticket id provided" := by
      unfold decisive at h
      split_ifs at h <;> simp_all
    rw [htext] at h
    exact absurd h (by rw [refusal_decides_nothing]; simp)

/-- The two readers agree on every ticket asked for. -/
def BulkAgrees (word : Char → Bool) (events : List LogEvent) (wanted : List String) : Prop :=
  ∀ t ∈ wanted,
    (bulkVerificationEvidence word events wanted).lookup t = some (verificationEvidence word t events)

end Saipen.Log
