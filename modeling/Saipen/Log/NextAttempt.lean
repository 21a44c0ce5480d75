import Saipen.Intake.Revisions
import Saipen.Log.Attempts

/-! # The next attempt id

`next_attempt_id` counts up from the highest id that the parser accepts. An id that stands only in a damaged event, or
only as the attempt that another one supersedes, is not seen. -/

namespace Saipen.Log

open Text

/-- `int` of the digits of an id, `A-\d{3,}`. -/
def attemptNumber (id : String) : Option Nat :=
  (literal "A-".toList id.toList).bind fun digits => if digits.length < 3 then none else number? digits

/-- The id that a record is about. -/
def AttemptText.id : AttemptText → String
  | .opened id _ _ => id
  | .closed id _ _ _ _ => id

variable (p : Printable) (readProvenance : String → Except String RuntimeProvenance)

/-- The number of a record that the parser accepts. -/
def acceptedNumber (e : LogEvent) : Option Nat :=
  match parseAttemptEvent p readProvenance e with
  | .ok (some record) => attemptNumber record.id
  | _ => none

/-- The loop of `next_attempt_id`. -/
def highestAttempt (events : List LogEvent) : Nat :=
  events.foldl (fun highest e => (acceptedNumber p readProvenance e).elim highest (max highest ·)) 0

/-- `next_attempt_id`. -/
def nextAttemptId (events : List LogEvent) : String :=
  "A-" ++ Intake.padded (highestAttempt p readProvenance events + 1)

/-! ### The numbers that an event names -/

/-- A decision whose second word claims the grammar of attempts. -/
def isAttemptEvent (e : LogEvent) : Bool :=
  e.taxonomy = "DEC" && (literal "attempt ".toList (strip e.text).toList).isSome && namesAttempt (strip e.text).toList

/-- The number in the second word of a text. -/
def claimedNumber (cs : List Char) : Option Nat :=
  let second := ((cs.dropWhile fun c => !isSpace c).dropWhile isSpace).takeWhile fun c => !isSpace c
  (literal "A-".toList second).bind number?

/-- The number of the attempt that a text says it supersedes. -/
def supersededNumber (cs : List Char) : Option Nat := do
  let (_, rest) ← partitionOn "supersedes ".toList cs
  let digits ← literal "A-".toList rest
  number? (digits.takeWhile isDecimal)

/-- The numbers that an attempt event names, whether the parser accepts it or not. -/
def namedNumbers (e : LogEvent) : List Nat :=
  if isAttemptEvent e then
    (claimedNumber (strip e.text).toList).toList ++ (supersededNumber (strip e.text).toList).toList
  else []

variable {p readProvenance} {events : List LogEvent}

/-! ### What is counted -/

theorem le_highestAttempt_iff {k : Nat} : highestAttempt p readProvenance events ≤ k ↔
    ∀ e ∈ events, ∀ n, acceptedNumber p readProvenance e = some n → n ≤ k := by
  induction events using List.reverseRecOn with
  | nil => simp [highestAttempt]
  | append_singleton init last ih =>
    rw [highestAttempt, List.foldl_append, List.foldl_cons, List.foldl_nil, ← highestAttempt]
    cases hlast : acceptedNumber p readProvenance last with
    | none =>
      rw [Option.elim_none, ih]
      refine ⟨fun h e he n hn => ?_, fun h e he => h e (List.mem_append_left _ he)⟩
      rcases List.mem_append.mp he with he | he
      · exact h e he n hn
      · rw [List.mem_singleton.mp he, hlast] at hn
        cases hn
    | some m =>
      rw [Option.elim_some, max_le_iff, ih]
      constructor
      · rintro ⟨h, hm⟩ e he n hn
        rcases List.mem_append.mp he with he | he
        · exact h e he n hn
        · rw [List.mem_singleton.mp he, hlast] at hn
          exact Option.some.inj hn ▸ hm
      · exact fun h => ⟨fun e he => h e (List.mem_append_left _ he), h last (by simp) m hlast⟩

/-- A number above zero is at most the highest exactly when an accepted record has one as high. -/
theorem le_highestAttempt {n : Nat} : n ≤ highestAttempt p readProvenance events ↔
    n = 0 ∨ ∃ e ∈ events, ∃ m, acceptedNumber p readProvenance e = some m ∧ n ≤ m := by
  constructor
  · intro h
    by_contra hnone
    rw [not_or] at hnone
    have hbound : highestAttempt p readProvenance events ≤ n - 1 := by
      refine le_highestAttempt_iff.mpr fun e he m hm => ?_
      by_contra hlt
      exact hnone.2 ⟨e, he, m, hm, by omega⟩
    omega
  · rintro (rfl | ⟨e, he, m, hm, hle⟩)
    · exact Nat.zero_le _
    · exact hle.trans (le_highestAttempt_iff.mp le_rfl e he m hm)

theorem attemptNumber_padded (n : Nat) : attemptNumber ("A-" ++ Intake.padded n) = some n := by
  have hlist : ("A-" ++ Intake.padded n).toList = 'A' :: '-' :: (Intake.padded n).toList := by simp
  have hread : literal "A-".toList ('A' :: '-' :: (Intake.padded n).toList) = some (Intake.padded n).toList := rfl
  have hlen : ¬ (Intake.padded n).toList.length < 3 := by
    rw [Intake.padded, String.toList_append, String.toList_ofList, List.length_append, List.length_replicate,
      String.length_toList]
    omega
  rw [attemptNumber, hlist, hread, Option.bind_some, if_neg hlen, Intake.number?_padded]

/-- An attempt, and an event that names the next one with a word too many. -/
def damagedEvents : List LogEvent :=
  [⟨none, 1, none, some "T-1", some "a", none, "DEC", "attempt A-001 open", none, none⟩,
    ⟨none, 2, none, some "T-1", some "a", none, "DEC", "attempt A-002 open now", none, none⟩]

end Saipen.Log
