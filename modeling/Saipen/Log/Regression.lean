import Saipen.Log.Attempts
import Saipen.Log.Evidence

/-! # Regression evidence

A ticket that owes a regression pair is judged by `regression_evidence`: the latest FAIL and the latest
PASS of its current cycle, recorded by one attempt, with one verifier and two subjects. Both evidence
readers are settled here against noise: events of other tickets, and events a hand wrote. -/

namespace Saipen.Log

open Text
open Text.Pattern (all any some1 lit space edge)

variable (word : Char → Bool)

/-! ### Identities -/

/-- The keys of `_TOKEN`, with the record key each lands on. -/
def tokenKeys : List (String × String) :=
  [("verifier", "verifier"), ("oracle", "verifier"), ("subject", "subject")]

/-- `_TOKEN` at a place: the record key, the value and the length of the match. The hexadecimal run has to
be a whole word, so that no shorter part of it can match. -/
def tokenAt (cs : List Char) : Option (String × String × Nat) :=
  tokenKeys.findSome? fun key => do
    let rest ← literal (key.1 ++ ":").toList cs
    let hex := rest.takeWhile isLowerHex
    if 8 ≤ hex.length ∧ hex.length ≤ 64 ∧ (rest.dropWhile isLowerHex).head?.all (!Pattern.isWord word ·) then
      some (key.2, String.ofList hex, key.1.length + 1 + hex.length)
    else none

/-- `_TOKEN.findall`, given whether a word character stands behind, and how much of a match is left. -/
def tokensFrom : Bool → Nat → List Char → List (String × String)
  | _, _, [] => []
  | _, skip + 1, c :: cs => tokensFrom (Pattern.isWord word c) skip cs
  | inWord, 0, c :: cs =>
      match if inWord then none else tokenAt word (c :: cs) with
      | some (key, value, length) => (key, value) :: tokensFrom (Pattern.isWord word c) (length - 1) cs
      | none => tokensFrom (Pattern.isWord word c) 0 cs

/-- `parse_identity`: no identity at all where two declarations contradict each other. -/
def parseIdentity (cs : List Char) : List (String × String) :=
  ((tokensFrom word false 0 cs).foldl
    (fun found token => found.bind fun found =>
      match found.lookup token.1 with
      | some value => if value = token.2 then some found else none
      | none => some (found ++ [token])) (some [])).getD []

/-! ### Evidence records -/

/-- A regression evidence record. -/
structure EvidenceRecord where
  result : String
  verifier : Option String
  subject : Option String
  attempt : Option String := none
deriving DecidableEq

/-- `parse_evidence`. -/
def parseEvidence (text : String) : Option EvidenceRecord :=
  ["FAIL", "PASS"].findSome? fun result =>
    ((all [lit "REGRESSION-EVIDENCE", some1 space, lit result, edge]).run word ⟨[], (strip text).toList⟩).head?.map
      fun place =>
        let found := parseIdentity word place.ahead
        { result, verifier := found.lookup "verifier", subject := found.lookup "subject" }

/-- A judgement: its code and its reason. -/
abbrev Judgement := String × String

/-- `str(value)[:12]`. -/
def abbreviated (value : String) : String := String.ofList (value.toList.take 12)

/-- `regression_pair_verdict`. -/
def regressionPairVerdict (p : Printable) (before after : EvidenceRecord) : Judgement :=
  let given (value : Option String) : Bool := value.any (· != "")
  if upper before.result ≠ "FAIL" ∨ upper after.result ≠ "PASS" then
    ("NOT_A_REGRESSION_PAIR", "a fix comparison is a FAIL against the pre-fix subject followed by a " ++
      "PASS against the post-fix subject; got " ++ reprStr p before.result ++ " -> " ++
      reprStr p after.result)
  else if !given before.verifier || !given after.verifier then
    ("ORACLE_CHANGED", "no verifier identity was recorded for one side of the comparison, so " ++
      "the two runs cannot be shown to have asked the same question. An " ++
      "unrecorded identity is not a matching one")
  else if before.verifier ≠ after.verifier then
    let detail := if given before.subject && given after.subject && before.subject != after.subject then
        "the subject changed too, so nothing attributes the green to the fix " ++
          "rather than to the weaker check"
      else "the subject did not change, so the only thing that turned this green was the check itself"
    ("ORACLE_CHANGED", "the verifier changed between the FAIL and the PASS (" ++
      abbreviated (before.verifier.getD "") ++ " -> " ++ abbreviated (after.verifier.getD "") ++ ") -- " ++
      detail ++ ". The earlier FAIL is not evidence for this fix; re-establish it against the current oracle")
  else if given before.subject && given after.subject && before.subject == after.subject then
    ("SUBJECT_UNCHANGED", "the same verifier reports FAIL then PASS against the same subject, " ++
      "which is an unstable verifier or an unrecorded change, never a proven fix")
  else if !given before.subject || !given after.subject then
    ("SUBJECT_UNRECORDED", "no subject identity was recorded for the " ++
      (if given before.subject then "post-fix" else "pre-fix") ++ " side, so nothing " ++
      "shows the implementation moved between the FAIL and the PASS. An " ++
      "unrecorded identity is not a changed one")
  else
    ("ADMISSIBLE", "the same verifier failed against the pre-fix subject and passed against " ++
      "the post-fix subject, so the implementation is what changed")

/-- The latest record with a result, and its index. -/
def latestResult (result : String) (records : List EvidenceRecord) : Option (EvidenceRecord × Nat) :=
  records.zipIdx.reverse.find? fun r => r.1.result == result

/-- `regression_evidence_verdict`. -/
def regressionEvidenceVerdict (p : Printable) (records : List EvidenceRecord) : Judgement :=
  let missing (half : String) : Judgement := ("NO_REGRESSION_EVIDENCE",
    "no " ++ half ++ " half of a regression pair was recorded in this VERIFY " ++
      "cycle. A ticket declaring `regression: required` owes both: the " ++
      "SAME verifier red against the pre-fix subject and green against the post-fix one")
  match latestResult "FAIL" records, latestResult "PASS" records with
  | none, _ => missing "FAIL"
  | some _, none => missing "PASS"
  | some (before, i), some (after, j) =>
      if j ≤ i then
        ("NOT_A_REGRESSION_PAIR", "the latest regression PASS precedes the latest FAIL in this VERIFY " ++
          "cycle. A newer failure invalidates the earlier pair; record a " ++
          "fresh PASS against the corrected subject with the same verifier")
      else regressionPairVerdict p before after

/-! ### The regression reader -/

variable (p : Printable) (readProvenance : String → Except String RuntimeProvenance)

/-- The attempts of a ticket. -/
def ownAttempts (t : String) (records : List (String × Attempt)) : List (String × Attempt) :=
  records.filter fun r => r.2.ticket == some t

/-- The only attempt that was open at an event. -/
def producing (own : List (String × Attempt)) (event : Nat) : Option String :=
  match own.filter fun r => r.2.openEvent ≤ event ∧ r.2.closeEvent.all (event ≤ ·) with
  | [r] => some r.2.id
  | _ => none

/-- The evidence records of a cycle. -/
def cycleRecords (t : String) (own : List (String × Attempt)) (cycle : List LogEvent) : List EvidenceRecord :=
  let latestOpen := (own.map fun r => r.2.openEvent).foldl max 0
  cycle.filterMap fun e =>
    if e.isRun t ∧ latestOpen ≤ e.event then
      (parseEvidence word e.text).map fun record => { record with attempt := producing own e.event }
    else none

/-- What the records of a cycle come to. -/
def judgeRecords (records : List EvidenceRecord) : Verdict :=
  let judged := regressionEvidenceVerdict p records
  match latestResult "FAIL" records, latestResult "PASS" records with
  | some (before, _), some (after, _) =>
      if before.attempt ≠ after.attempt then
        (false, "NOT_A_REGRESSION_PAIR: different producing Attempts")
      else (judged.1 == "ADMISSIBLE", judged.1 ++ ": " ++ judged.2)
  | _, _ => (judged.1 == "ADMISSIBLE", judged.1 ++ ": " ++ judged.2)

/-- `regression_evidence`. -/
def regressionEvidence (t : String) (events : List LogEvent) : Verdict :=
  if t = "" then (false, "no ticket id provided")
  else
    match currentCycle t events with
    | none => noVerifyBoundary
    | some cycle =>
        let (attempts, errors) := buildAttempts p readProvenance events
        if errors ≠ [] then (false, "NOT_A_REGRESSION_PAIR: invalid producing Attempt history")
        else judgeRecords p (cycleRecords word t (ownAttempts t attempts) cycle)

/-! ### A ticket's own events -/

/-- An event of a ticket that no hand wrote. -/
def LogEvent.own (t : String) (e : LogEvent) : Bool := e.ticket == some t && !e.handAuthored

variable {word p readProvenance} {t : String} {e : LogEvent} {es : List LogEvent}

theorem LogEvent.own_of_run (h : e.isRun t = true) : e.own t = true := by
  simp only [LogEvent.isRun, Bool.and_eq_true] at h
  simp only [LogEvent.own, Bool.and_eq_true]
  exact ⟨h.1.1, h.2⟩

theorem LogEvent.own_of_closes (h : e.closesCycle t = true) : e.own t = true := by
  simp only [LogEvent.closesCycle, Bool.and_eq_true] at h
  simp only [LogEvent.own, Bool.and_eq_true]
  exact ⟨h.1.1.1.1, h.2⟩

theorem LogEvent.own_of_opens (h : e.opensCycle t = true) : e.own t = true :=
  LogEvent.own_of_run (LogEvent.run_of_opens h)

theorem currentCycle_filter (es : List LogEvent) :
    currentCycle t (es.filter (LogEvent.own t)) = (currentCycle t es).map (List.filter (LogEvent.own t)) := by
  induction es with
  | nil => rfl
  | cons e es ih =>
    rw [currentCycle]
    by_cases hown : e.own t = true
    · rw [List.filter_cons_of_pos hown, currentCycle, ih]
      cases currentCycle t es with
      | some cycle => rfl
      | none =>
        dsimp only [Option.map_none]
        split_ifs
        · rw [Option.map_some, List.filter_cons_of_pos hown]
        · rfl
    · have hopen : ¬e.opensCycle t = true := fun h => hown (LogEvent.own_of_opens h)
      rw [List.filter_cons_of_neg hown, ih]
      cases currentCycle t es with
      | some cycle => rfl
      | none => rw [Option.map_none, if_neg hopen, Option.map_none]

theorem toFinish_filter (es : List LogEvent) :
    toFinish t (es.filter (LogEvent.own t)) = (toFinish t es).filter (LogEvent.own t) := by
  induction es with
  | nil => rfl
  | cons e es ih =>
    by_cases hown : e.own t = true
    · rw [List.filter_cons_of_pos hown, toFinish, toFinish, ih]
      split_ifs
      · rw [List.filter_cons_of_pos hown, List.filter_nil]
      · rw [List.filter_cons_of_pos hown]
    · have hclose : ¬e.closesCycle t = true := fun h => hown (LogEvent.own_of_closes h)
      rw [List.filter_cons_of_neg hown, toFinish, if_neg hclose, List.filter_cons_of_neg hown, ih]

theorem newestEvidence_filter (es : List LogEvent) :
    newestEvidence word t (es.filter (LogEvent.own t)) = newestEvidence word t es := by
  induction es using List.reverseRecOn with
  | nil => rfl
  | append_singleton es e ih =>
    rw [List.filter_append, newestEvidence_append, newestEvidence_append, ih]
    by_cases hown : e.own t = true
    · rw [List.filter_cons_of_pos hown, List.filter_nil]
    · have hrun : e.isRun t = false := Bool.eq_false_iff.mpr fun h => hown (LogEvent.own_of_run h)
      rw [List.filter_cons_of_neg hown, List.filter_nil, newestEvidence_singleton, LogEvent.evidence_of_not_run hrun]
      rfl

/-- The verdict on a ticket is read off its own events. -/
theorem verificationEvidence_filter (t : String) (events : List LogEvent) :
    verificationEvidence word t (events.filter (LogEvent.own t)) = verificationEvidence word t events := by
  unfold verificationEvidence
  split_ifs
  · rfl
  · rw [currentCycle_filter]
    cases currentCycle t events with
    | none => rfl
    | some cycle =>
      dsimp only [Option.map_some]
      rw [toFinish_filter, newestEvidence_filter]

theorem filter_insert {f : LogEvent → Bool} {pre noise post : List LogEvent}
    (h : ∀ e ∈ noise, f e = false) : (pre ++ noise ++ post).filter f = (pre ++ post).filter f := by
  have hnoise : noise.filter f = [] := List.filter_eq_nil_iff.mpr fun e he => by simp [h e he]
  rw [List.filter_append, List.filter_append, hnoise, List.append_nil, ← List.filter_append]

/-- The current cycle of a ticket ends in its finish. -/
def ClosedCycle (t : String) (events : List LogEvent) : Prop :=
  ∃ cycle, currentCycle t events = some cycle ∧ ∃ e ∈ cycle, e.closesCycle t = true

/-- What is logged behind the finish of a cycle is no evidence, as long as it opens no new cycle. -/
theorem verificationEvidence_append {events extra : List LogEvent} (hclosed : ClosedCycle t events)
    (h : ∀ e ∈ extra, e.opensCycle t = false) :
    verificationEvidence word t (events ++ extra) = verificationEvidence word t events := by
  obtain ⟨cycle, hcycle, hfinish⟩ := hclosed
  unfold verificationEvidence
  split_ifs
  · rfl
  · rw [currentCycle_append h, hcycle]
    dsimp only [Option.map_some]
    rw [toFinish_append_of_closed hfinish]

/-! ### A ticket's own attempts -/

/-- The attempts of a ticket, from its own events alone. -/
def ownStep (p : Printable) (readProvenance : String → Except String RuntimeProvenance) (t : String)
    (own : List (String × Attempt)) (e : LogEvent) : List (String × Attempt) :=
  if e.ticket = some t then
    match parseAttemptEvent p readProvenance e with
    | .ok (some (.opened id supersedes provenance)) => own ++ [(id, Attempt.begin e id supersedes provenance)]
    | .ok (some (.closed id result stop evidence unknown)) =>
        own.map fun r => if r.1 = id then (r.1, r.2.finish e result stop evidence unknown) else r
    | _ => own
  else own

namespace AttemptPass

variable {s : AttemptPass} {id result stop : String} {supersedes unknown : Option String}
  {provenance : Option RuntimeProvenance} {evidence : List String}

/-- Every attempt has its own id. -/
def Distinct (s : AttemptPass) : Prop := (s.records.map Prod.fst).Nodup

theorem fail_errors (s : AttemptPass) (e : LogEvent) (error : String) : (s.fail e error).errors ≠ [] := by
  simp [fail]

/-- An open event without an error adds its attempt. -/
theorem openAttempt_clean (h : (s.openAttempt e id supersedes provenance).errors = []) :
    s.errors = [] ∧ id ∉ s.records.map Prod.fst ∧
      (s.openAttempt e id supersedes provenance).records =
        s.records ++ [(id, Attempt.begin e id supersedes provenance)] := by
  unfold openAttempt at h ⊢
  cases hfirst : s.records.lookup id with
  | some first =>
    rw [hfirst] at h
    exact absurd h (fail_errors _ _ _)
  | none =>
    rw [hfirst] at h
    cases hmissing : supersedes.filter fun prior => (s.records.lookup prior).isNone with
    | none =>
      simp only [hmissing, Option.elim_none] at h ⊢
      exact ⟨h, Assoc.notMem_iff_lookup.mpr hfirst, trivial⟩
    | some prior =>
      simp only [hmissing, Option.elim_some] at h
      exact absurd h (fail_errors _ _ _)

/-- A close event without an error closes an attempt of the same ticket. -/
theorem closeAttempt_clean (h : (s.closeAttempt p e id result stop evidence unknown).errors = []) :
    s.errors = [] ∧ (∃ a, s.records.lookup id = some a ∧ a.ticket = e.ticket) ∧
      (s.closeAttempt p e id result stop evidence unknown).records =
        s.records.map fun r => if r.1 = id then (r.1, r.2.finish e result stop evidence unknown) else r := by
  unfold closeAttempt at h ⊢
  cases hfault : closeFault p e id result stop (s.records.lookup id) with
  | some error =>
    rw [hfault] at h
    exact absurd h (fail_errors _ _ _)
  | none =>
    rw [hfault] at h
    refine ⟨h, ?_, rfl⟩
    unfold closeFault at hfault
    cases hrecord : s.records.lookup id with
    | none => simp [hrecord] at hfault
    | some a =>
      simp only [hrecord] at hfault
      cases hclosed : a.closeEvent with
      | some first => simp [hclosed] at hfault
      | none =>
        simp only [hclosed] at hfault
        by_cases hticket : e.ticket = a.ticket
        · exact ⟨a, rfl, hticket.symm⟩
        · rw [if_pos hticket] at hfault
          cases hfault

/-- Closing leaves the attempts of other tickets alone. -/
theorem ownAttempts_close (records : List (String × Attempt)) (t : String) :
    ownAttempts t (records.map fun r =>
        if r.1 = id then (r.1, r.2.finish e result stop evidence unknown) else r) =
      (ownAttempts t records).map fun r =>
        if r.1 = id then (r.1, r.2.finish e result stop evidence unknown) else r := by
  unfold ownAttempts
  rw [List.filter_map]
  congr 1
  apply List.filter_congr
  intro r hr
  simp only [Function.comp_apply]
  split_ifs <;> rfl

/-- An error is never taken back. -/
theorem errors_of_event (h : (s.event p readProvenance e).errors = []) : s.errors = [] := by
  unfold event at h
  cases hparse : parseAttemptEvent p readProvenance e with
  | error error =>
    rw [hparse] at h
    exact absurd h (fail_errors _ _ _)
  | ok parsed =>
    rw [hparse] at h
    match parsed with
    | none => exact h
    | some (.opened id supersedes provenance) => exact (openAttempt_clean h).1
    | some (.closed id result stop evidence unknown) => exact (closeAttempt_clean h).1

/-- What one event without an error does to the attempts of a ticket. -/
theorem event_clean (hs : s.Distinct) (h : (s.event p readProvenance e).errors = []) :
    (s.event p readProvenance e).Distinct ∧
      ownAttempts t (s.event p readProvenance e).records =
        ownStep p readProvenance t (ownAttempts t s.records) e := by
  unfold event at h ⊢
  unfold ownStep
  cases hparse : parseAttemptEvent p readProvenance e with
  | error error =>
    rw [hparse] at h
    exact absurd h (fail_errors _ _ _)
  | ok parsed =>
    rw [hparse] at h
    cases parsed with
    | none => exact ⟨hs, (ite_self _).symm⟩
    | some text =>
      cases text with
      | opened id supersedes provenance =>
        obtain ⟨-, hnew, hrecords⟩ := openAttempt_clean h
        refine ⟨?_, ?_⟩
        · rw [Distinct, hrecords, List.map_append, List.nodup_append]
          refine ⟨hs, by simp, ?_⟩
          rintro a ha b hb rfl
          simp only [List.map_cons, List.map_nil, List.mem_singleton] at hb
          exact hnew (hb ▸ ha)
        · show ownAttempts t (s.openAttempt e id supersedes provenance).records = _
          rw [hrecords, ownAttempts, List.filter_append]
          by_cases hticket : e.ticket = some t
          · simp [ownAttempts, Attempt.begin, hticket]
          · simp [ownAttempts, Attempt.begin, hticket]
      | closed id result stop evidence unknown =>
        obtain ⟨-, ⟨a, hlookup, hsame⟩, hrecords⟩ := closeAttempt_clean h
        refine ⟨?_, ?_⟩
        · rw [Distinct, hrecords, List.map_map]
          have hkeys : (Prod.fst ∘ fun r : String × Attempt =>
              if r.1 = id then (r.1, r.2.finish e result stop evidence unknown) else r) = Prod.fst := by
            funext r
            simp only [Function.comp_apply]
            split_ifs <;> rfl
          rw [hkeys]
          exact hs
        · show ownAttempts t (s.closeAttempt p e id result stop evidence unknown).records = _
          rw [hrecords, ownAttempts_close]
          by_cases hticket : e.ticket = some t
          · rw [if_pos hticket]
          · -- the attempt belongs to another ticket, and no other has its id
            rw [if_neg hticket]
            refine (List.map_congr_left fun r hr => ?_).trans (List.map_id _)
            rw [if_neg]
            · rfl
            · rintro rfl
              obtain ⟨hmem, hown⟩ := List.mem_filter.mp hr
              have hr' := (Assoc.mem_iff_lookup hs r.1 r.2).mp hmem
              rw [hlookup, Option.some.injEq] at hr'
              exact hticket (by rw [← hsame, hr']; exact eq_of_beq hown)

/-- The attempts of a ticket in a history without errors. -/
theorem foldl_clean (events : List LogEvent) (hs : s.Distinct)
    (h : (events.foldl (event p readProvenance) s).errors = []) :
    (events.foldl (event p readProvenance) s).Distinct ∧
      ownAttempts t (events.foldl (event p readProvenance) s).records =
        events.foldl (ownStep p readProvenance t) (ownAttempts t s.records) := by
  induction events using List.reverseRecOn with
  | nil => exact ⟨hs, rfl⟩
  | append_singleton es e ih =>
    rw [List.foldl_append, List.foldl_cons, List.foldl_nil] at h ⊢
    obtain ⟨hdistinct, hfold⟩ := ih (errors_of_event h)
    obtain ⟨hnext, hstep⟩ := event_clean (t := t) hdistinct h
    exact ⟨hnext, by rw [hstep, hfold, List.foldl_append, List.foldl_cons, List.foldl_nil]⟩

end AttemptPass

/-- A history without errors gives a ticket the attempts of its own events. -/
theorem ownAttempts_buildAttempts {events : List LogEvent}
    (h : (buildAttempts p readProvenance events).2 = []) :
    ownAttempts t (buildAttempts p readProvenance events).1 =
      events.foldl (ownStep p readProvenance t) [] := by
  have hempty : AttemptPass.Distinct {} := List.nodup_nil
  exact (AttemptPass.foldl_clean events hempty (List.append_eq_nil_iff.mp h).1).2

/-! ### Noise -/

/-- An event that is nothing to the regression reader: another ticket's, or one a hand wrote that is no
attempt record. -/
def RegressionNoise (p : Printable) (readProvenance : String → Except String RuntimeProvenance) (t : String)
    (e : LogEvent) : Prop :=
  e.ticket ≠ some t ∨
    (e.handAuthored = true ∧ ∀ a, parseAttemptEvent p readProvenance e ≠ .ok (some a))

theorem RegressionNoise.not_own (h : RegressionNoise p readProvenance t e) : e.own t = false := by
  rcases h with h | ⟨h, -⟩
  · simp [LogEvent.own, h]
  · simp [LogEvent.own, h]

theorem RegressionNoise.ownStep (h : RegressionNoise p readProvenance t e)
    (own : List (String × Attempt)) : Log.ownStep p readProvenance t own e = own := by
  unfold Log.ownStep
  split_ifs with hticket
  · obtain ⟨-, hnone⟩ := h.resolve_left (not_not.mpr hticket)
    split
    · next heq => exact absurd heq (hnone _)
    · next heq => exact absurd heq (hnone _)
    · rfl
  · rfl

theorem cycleRecords_filter (own : List (String × Attempt)) (cycle : List LogEvent) :
    cycleRecords word t own (cycle.filter (LogEvent.own t)) = cycleRecords word t own cycle := by
  unfold cycleRecords
  rw [List.filterMap_filter]
  congr 1
  funext e
  by_cases hown : e.own t = true
  · rw [if_pos hown]
  · have hrun : ¬e.isRun t = true := fun h => hown (LogEvent.own_of_run h)
    rw [if_neg hown, if_neg fun h => hrun h.1]

/-- The regression reader reads the cycle of a ticket, its attempts, and whether the attempt history holds. -/
theorem regressionEvidence_eq (ht : t ≠ "") (events : List LogEvent) :
    regressionEvidence word p readProvenance t events =
      ((currentCycle t events).map (List.filter (LogEvent.own t))).elim noVerifyBoundary fun cycle =>
        if (buildAttempts p readProvenance events).2 ≠ [] then
          (false, "NOT_A_REGRESSION_PAIR: invalid producing Attempt history")
        else
          judgeRecords p
            (cycleRecords word t (ownAttempts t (buildAttempts p readProvenance events).1) cycle) := by
  rw [regressionEvidence, if_neg ht]
  cases currentCycle t events with
  | none => rfl
  | some cycle =>
    dsimp only [Option.map_some, Option.elim_some]
    rw [cycleRecords_filter]

theorem foldl_ownStep_noise {noise : List LogEvent} (h : ∀ e ∈ noise, RegressionNoise p readProvenance t e)
    (own : List (String × Attempt)) : noise.foldl (ownStep p readProvenance t) own = own := by
  induction noise with
  | nil => rfl
  | cons e es ih =>
    rw [List.foldl_cons, (h e List.mem_cons_self).ownStep]
    exact ih fun d hd => h d (List.mem_cons_of_mem _ hd)

/-- The regression verdict on a ticket does not change with the noise around its own events, as long as the
attempt history stays as valid as it was. -/
theorem regressionEvidence_insert {pre noise post : List LogEvent}
    (hnoise : ∀ e ∈ noise, RegressionNoise p readProvenance t e)
    (hvalid : (buildAttempts p readProvenance (pre ++ noise ++ post)).2 = [] ↔
      (buildAttempts p readProvenance (pre ++ post)).2 = []) :
    regressionEvidence word p readProvenance t (pre ++ noise ++ post) =
      regressionEvidence word p readProvenance t (pre ++ post) := by
  by_cases ht : t = ""
  · rw [regressionEvidence, if_pos ht, regressionEvidence, if_pos ht]
  rw [regressionEvidence_eq ht, regressionEvidence_eq ht, ← currentCycle_filter, ← currentCycle_filter,
    filter_insert fun e he => (hnoise e he).not_own]
  cases currentCycle t ((pre ++ post).filter (LogEvent.own t)) with
  | none => rfl
  | some cycle =>
    dsimp only [Option.elim_some]
    by_cases hclean : (buildAttempts p readProvenance (pre ++ post)).2 = []
    · rw [if_neg (not_not.mpr hclean), if_neg (not_not.mpr (hvalid.mpr hclean)),
        ownAttempts_buildAttempts hclean, ownAttempts_buildAttempts (hvalid.mpr hclean), List.foldl_append,
        List.foldl_append, foldl_ownStep_noise hnoise, ← List.foldl_append]
    · rw [if_pos hclean, if_pos fun h => hclean (hvalid.mp h)]

/-- Neither verdict on a ticket changes with noise: events of other tickets or of a hand inserted anywhere,
and events without a boundary of the ticket behind the finish of its cycle. The regression verdict rests
on a valid attempt history, whoever wrote it. -/
theorem evidence_ignores_noise (word : Char → Bool) (p : Printable)
    (readProvenance : String → Except String RuntimeProvenance) (t : String)
    (pre noise post : List LogEvent) :
    ((∀ e ∈ noise, e.ticket ≠ some t ∨ e.handAuthored = true) →
      verificationEvidence word t (pre ++ noise ++ post) = verificationEvidence word t (pre ++ post)) ∧
    (ClosedCycle t pre → (∀ e ∈ post, e.opensCycle t = false) →
      verificationEvidence word t (pre ++ post) = verificationEvidence word t pre) ∧
    ((∀ e ∈ noise, RegressionNoise p readProvenance t e) →
      ((buildAttempts p readProvenance (pre ++ noise ++ post)).2 = [] ↔
        (buildAttempts p readProvenance (pre ++ post)).2 = []) →
      regressionEvidence word p readProvenance t (pre ++ noise ++ post) =
        regressionEvidence word p readProvenance t (pre ++ post)) := by
  refine ⟨fun h => ?_, verificationEvidence_append, regressionEvidence_insert⟩
  have hnoise : ∀ e ∈ noise, e.own t = false := by
    intro e he
    rcases h e he with h | h
    · simp [LogEvent.own, h]
    · simp [LogEvent.own, h]
  rw [← verificationEvidence_filter, filter_insert hnoise, verificationEvidence_filter]

/-! ### A finished ticket -/

/-- An event of a small history. -/
def sampleEvent (event : Nat) (ticket opId taxonomy text : String) : LogEvent :=
  { date := none, event, parent := none, ticket := some ticket, agent := none, opId := some opId, taxonomy, text }

/-- A verified and finished ticket. -/
def finishedTicket : List LogEvent :=
  [sampleEvent 1 "T-1" "transition-0123abcd" "RUN" "transition to VERIFY",
    sampleEvent 2 "T-1" "checkpoint-0123abcd" "RUN" "verify -> PASS conf: high",
    sampleEvent 3 "T-1" "finish-0123abcd" "DEC" "ticket finished via SAIOPS"]

/-- No token is a provenance. -/
def noProvenance : String → Except String RuntimeProvenance := fun _ => .error "token syntax is invalid"

/-- A failure of another ticket, and one a hand wrote. -/
def someNoise : List LogEvent :=
  [sampleEvent 4 "T-2" "checkpoint-0123abcd" "RUN" "verify -> FAIL",
    sampleEvent 5 "T-1" "verify-1" "RUN" "verify -> FAIL"]

/-- A failure logged after the finish. -/
def lateFailure : List LogEvent := [sampleEvent 6 "T-1" "checkpoint-4567abcd" "RUN" "verify -> FAIL"]

theorem finished_ticket_ignores_noise :
    verificationEvidence asciiWords "T-1" (finishedTicket ++ someNoise ++ lateFailure) =
        verificationEvidence asciiWords "T-1" (finishedTicket ++ lateFailure) ∧
      verificationEvidence asciiWords "T-1" (finishedTicket ++ lateFailure) =
        verificationEvidence asciiWords "T-1" finishedTicket ∧
      regressionEvidence asciiWords samplePrintable noProvenance "T-1"
          (finishedTicket ++ someNoise ++ lateFailure) =
        regressionEvidence asciiWords samplePrintable noProvenance "T-1" (finishedTicket ++ lateFailure) := by
  obtain ⟨hinsert, happend, hregression⟩ := evidence_ignores_noise asciiWords samplePrintable noProvenance
    "T-1" finishedTicket someNoise lateFailure
  refine ⟨hinsert (by decide +kernel), happend ⟨finishedTicket, ?_⟩ (by decide +kernel),
    hregression ?_ (by decide +kernel)⟩
  · exact ⟨by decide +kernel, _, List.mem_of_mem_getLast? (by rfl), by decide +kernel⟩
  · intro e he
    rcases List.mem_pair.mp he with rfl | rfl
    · exact .inl (by decide)
    · exact .inr ⟨by decide +kernel, fun a h => by cases h⟩

/-- A ticket verified anew is unproven again, and another ticket's close without an open is an error of the
attempt history of all. -/
theorem new_cycle_and_stray_attempt :
    verificationEvidence asciiWords "T-1"
        (finishedTicket ++ [sampleEvent 4 "T-1" "transition-4567abcd" "RUN" "transition to VERIFY"]) ≠
      verificationEvidence asciiWords "T-1" finishedTicket ∧
    regressionEvidence asciiWords samplePrintable noProvenance "T-1" (finishedTicket ++
        [sampleEvent 4 "T-2" "attempt-close-0123456789abcdef0123456789abcdef" "DEC"
          "attempt A-001 close result candidate stop completed_execution"]) ≠
      regressionEvidence asciiWords samplePrintable noProvenance "T-1" finishedTicket := by
  decide +kernel

end Saipen.Log
