import Saipen.Text.Case
import Saipen.Text.Pattern

/-! # Failure claims

`_claims_failure`: whether the text of an event claims a failure. Counts that the text attributes to a
foreign scope, to a previous run, to a red control or to the red half of a measured pair are blanked
first. What is left claims a failure by a nonzero count or field anywhere, or by a `FAIL` in front of the
first ` -- ` that no zero exempts. -/

namespace Saipen.Log

open Text
open Text.Pattern (all any opt many upTo some1 lit word? space digit oneOf edge notAhead notBehind)

/-! ### Words and counts -/

/-- `FAIL(?:S|ED|URE|URES)?`. -/
def failStem : Pattern :=
  all [word? "fail", opt (any [word? "s", word? "ed", word? "ure", word? "ures"])]

/-- The same, up to the edge of the word. -/
def failWord : Pattern := all [failStem, edge]

/-- `_NOT_A_FIELD_KEY`. -/
def notAFieldKey : Pattern := notAhead (all [many space, oneOf "=:", many space, digit])

/-- `_NOT_AN_IDENTIFIER_TAIL`. -/
def notAnIdentifierTail : Pattern :=
  all [notBehind [Pattern.letter, (· == '-')],
    notBehind [fun c => Pattern.letter c || isAsciiAlnum c || c == '_', (· == ':')]]

/-- `(?!0+\b)`. -/
def notZero : Pattern := notAhead (all [some1 (lit "0"), edge])

/-- `\d+\s+FAIL…`. -/
def failCount : Pattern := all [some1 digit, some1 space, failWord]

/-- `_NEGATION_RE`. -/
def negationRe : Pattern :=
  all [edge, word? "not", some1 space, any [word? "pass", word? "manual-verify"], edge]

/-- `_ZERO_FAIL_RE`. -/
def zeroFailRe : Pattern :=
  all [edge, any [lit "0", word? "no", word? "zero"], some1 space, failWord, notAFieldKey]

/-- `_FAIL_TOKEN_RE`. -/
def failTokenRe : Pattern := all [edge, failWord]

/-- `_FAIL_COUNTED_RE`. -/
def failCountedRe : Pattern := all [edge, notAnIdentifierTail, notZero, failCount, notAFieldKey]

/-- `_FAIL_FIELD_RE`. -/
def failFieldRe : Pattern :=
  all [edge, failStem, many space, oneOf "=:", many space, notZero, some1 digit]

/-- `_ZERO_FIELD_RE`. -/
def zeroFieldRe : Pattern :=
  all [edge, failStem, many space, oneOf "=:", many space, some1 (lit "0"), edge]

/-! ### Attributed counts -/

/-- `_FOREIGN_SCOPE`. -/
def foreignScope : Pattern :=
  any [word? "inherited", word? "unrelated", word? "pre-existing", word? "carried", word? "foreign"]

/-- A count of failures, and one of warnings behind it. -/
def failAndWarnCount : Pattern :=
  all [edge, failCount,
    opt (all [many space, opt (lit "/"), many space, many digit, many space, word? "warn",
      opt (any [word? "ing", word? "ings"]), edge]), many space]

/-- `_FOREIGN_FAIL_RE`. -/
def foreignFailRe : Pattern :=
  any [all [edge, foreignScope, some1 space, failCount],
    all [edge, some1 digit, some1 space, foreignScope, some1 space, failWord],
    all [failAndWarnCount,
      any [all [lit "(", many space, foreignScope, many space, lit ")"], all [edge, foreignScope, edge]]]]

/-- `_HISTORICAL_SCOPE`. -/
def historicalScope : Pattern := any [word? "previous", word? "prior", word? "last", word? "earlier"]

/-- `_HISTORICAL_RUN`. -/
def historicalRun : Pattern :=
  any [all [word? "run", opt (word? "s")], all [word? "result", opt (word? "s")],
    all [word? "attempt", opt (word? "s")]]

/-- `\s*[:;,]?\s*(?:had|showed|with|of\s+)?\s*\b\d+\s+FAIL…`: a count that was announced. -/
def announcedCount : Pattern :=
  all [many space, opt (oneOf ":;,"), many space,
    opt (any [word? "had", word? "showed", word? "with", all [word? "of", some1 space]]), many space,
    edge, failCount]

/-- `_HIST_FAIL_RE`. -/
def histFailRe : Pattern :=
  any [all [edge, historicalScope, some1 space, historicalRun, announcedCount],
    all [edge, failCount, some1 space, any [word? "in", word? "on", word? "during", word? "for"],
      some1 space, word? "the", some1 space, historicalScope, some1 space, historicalRun, edge]]

/-- `_CONTROL_SCOPE`. -/
def controlScope : Pattern :=
  any [all [word? "red", opt (oneOf "- "), word? "control", opt (word? "s")],
    all [word? "pre", oneOf "- ", word? "fix"]]

/-- `_CONTROL_RUN`. -/
def controlRun : Pattern :=
  any [all [word? "run", opt (word? "s")], all [word? "measure", opt (word? "s")],
    all [word? "measurement", opt (word? "s")], all [word? "baseline", opt (word? "s")],
    all [word? "state", opt (word? "s")]]

/-- `_CONTROL_FAIL_RE`. -/
def controlFailRe : Pattern :=
  any [all [edge, controlScope, opt (all [some1 space, controlRun]), announcedCount],
    all [failAndWarnCount,
      any [all [lit "(", many space, controlScope,
          opt (all [many space, oneOf ",;", upTo 40 (.one fun c => c != '(' && c != ')')]), many space,
          lit ")"],
        all [edge, controlScope, edge]]]]

/-- `_PAIR_OTHER_COUNT`. -/
def pairOtherCount : Pattern :=
  all [some1 digit, some1 space, any [word? "ran", word? "passed", word? "skipped"]]

/-- `_PAIR_EXIT`. -/
def pairExit : Pattern :=
  all [many space, opt (lit ":"), many space, word? "exit", many space,
    opt (all [word? "code", many space]), opt (oneOf ":="), many space]

/-- `_PAIR_RED_HALF_RE`. -/
def pairRedHalfRe : Pattern :=
  all [edge, word? "before", pairExit, lit "1", edge, many space,
    any [all [lit "(", many space, many (all [pairOtherCount, many space, lit ",", many space]), failCount,
        many (all [many space, lit ",", many space, pairOtherCount]), many space, lit ")"],
      all [lit ",", many space, many (all [pairOtherCount, many space, lit ",", many space]), failCount]],
    .ahead (all [many space, opt (oneOf "/;,"), many space,
      opt (any [all [word? "and", some1 space], all [word? "then", some1 space]]), word? "after", pairExit,
      lit "0", edge])]

/-! ### The claim -/

variable (word : Char → Bool)

/-- The text without the counts it attributes to something else. -/
def ownCounts (text : String) : List Char :=
  [foreignFailRe, histFailRe, controlFailRe, pairRedHalfRe].foldl
    (fun cs p => p.blank word cs) text.toList

/-- `_claims_failure`. -/
def claimsFailure (text : String) : Bool :=
  negationRe.search word text.toList ||
    (let cs := ownCounts word text
     failCountedRe.search word cs || failFieldRe.search word cs ||
      (let verdict := before " -- ".toList cs
       zeroFailRe.count word verdict + zeroFieldRe.count word verdict < failTokenRe.count word verdict))

/-- No letters outside ASCII. -/
def asciiWords : Char → Bool := fun _ => false

theorem ownCounts_ascii (word word' : Char → Bool) {text : String} (h : ∀ c ∈ text.toList, c.toNat < 128) :
    ownCounts word text = ownCounts word' text ∧ ∀ c ∈ ownCounts word text, c.toNat < 128 := by
  have hfold : ∀ (ps : List Pattern) (cs : List Char), (∀ c ∈ cs, c.toNat < 128) →
      ps.foldl (fun cs p => p.blank word cs) cs = ps.foldl (fun cs p => p.blank word' cs) cs ∧
        ∀ c ∈ ps.foldl (fun cs p => p.blank word cs) cs, c.toNat < 128 := by
    intro ps
    induction ps with
    | nil => exact fun cs hcs => ⟨rfl, hcs⟩
    | cons p ps ih =>
      intro cs hcs
      obtain ⟨heq, hascii⟩ := Pattern.blank_ascii word word' p hcs
      rw [List.foldl_cons, List.foldl_cons, ← heq]
      exact ih _ hascii
  exact hfold _ _ h

theorem mem_of_mem_before {sep cs : List Char} {c : Char} (h : c ∈ before sep cs) : c ∈ cs := by
  induction cs with
  | nil => exact h
  | cons d cs ih =>
    rw [before] at h
    split_ifs at h
    · cases h
    · exact (List.mem_cons.mp h).elim (fun h => h ▸ List.mem_cons_self)
        fun h => List.mem_cons_of_mem _ (ih h)

theorem claimsFailure_ascii (word word' : Char → Bool) {text : String}
    (h : ∀ c ∈ text.toList, c.toNat < 128) : claimsFailure word text = claimsFailure word' text := by
  obtain ⟨hown, hascii⟩ := ownCounts_ascii word word' h
  have hverdict : ∀ c ∈ before " -- ".toList (ownCounts word text), c.toNat < 128 :=
    fun c hc => hascii c (mem_of_mem_before hc)
  simp only [claimsFailure, ← hown]
  rw [Pattern.search_ascii word word' negationRe h, Pattern.search_ascii word word' failCountedRe hascii,
    Pattern.search_ascii word word' failFieldRe hascii, Pattern.count_ascii word word' zeroFailRe hverdict,
    Pattern.count_ascii word word' zeroFieldRe hverdict, Pattern.count_ascii word word' failTokenRe hverdict]

example : claimsFailure asciiWords "PASS -- 12 tests; the pre-fix FAIL is re-established -- conf: high" =
    false := by decide +kernel

example : claimsFailure asciiWords "core 0 FAIL, ship 3 FAIL" = true := by decide +kernel

example : claimsFailure asciiWords "before exit 1 (28 ran, 7 failed) / after exit 0 PASS conf: high" =
    false := by decide +kernel

end Saipen.Log
