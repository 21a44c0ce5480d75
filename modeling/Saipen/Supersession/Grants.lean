import Saipen.Assoc
import Saipen.Text.Scan
import Saipen.Journal.Hash

/-! # Supersession capsules

`authority_grants` reads the capsules of an operator's text: a header, a line for every pair of Work, and a
terminator. A capsule in a code fence is quoted and grants nothing. -/

namespace Saipen.Supersession

open Text

/-! ### Lines -/

/-- `GRANT_HEADER`. -/
def grantHeader : String := "This message supplies operator authority for Work supersession:"

/-- `GRANT_TERMINATOR`. -/
def grantTerminator : String := "only."

/-- `str.rstrip`. -/
def rstrip (s : String) : String := String.ofList (s.toList.reverse.dropWhile isSpace).reverse

/-- `[ \t]`. -/
def isBlank (c : Char) : Bool := c = ' ' || c = '\t'

/-- `T-\d+` in front of a text, and what comes behind it. -/
def ticketPrefix (cs : List Char) : Option (String × List Char) :=
  match literal "T-".toList cs with
  | none => none
  | some rest =>
      if rest.takeWhile isDecimal = [] then none
      else some ("T-" ++ String.ofList (rest.takeWhile isDecimal), rest.dropWhile isDecimal)

/-- `_GRANT_ITEM_RE`: `OLD - NEW` with blanks around it. -/
def grantItem (line : String) : Option (String × String) :=
  match ticketPrefix (line.toList.dropWhile isBlank) with
  | none => none
  | some (old, rest) =>
      match rest.takeWhile isBlank, rest.dropWhile isBlank with
      | [], _ => none
      | _ :: _, '-' :: rest =>
          match rest.takeWhile isBlank, ticketPrefix (rest.dropWhile isBlank) with
          | _ :: _, some (new, rest) => if rest.all isBlank then some (old, new) else none
          | _, _ => none
      | _ :: _, _ => none

/-- The grave accent, of which code fences are made. -/
def backtick : Char := Char.ofNat 96

/-- A run of at least three backticks or tildes behind three blanks at most: its character, its length and the
rest of the line. -/
def fenceRun (line : String) : Option (Char × Nat × List Char) :=
  if 3 < (line.toList.takeWhile isBlank).length then none
  else
    match line.toList.dropWhile isBlank with
    | [] => none
    | c :: cs =>
        let run := (c :: cs).takeWhile (· = c)
        if (c = backtick ∨ c = '~') ∧ 3 ≤ run.length then
          some (c, run.length, (c :: cs).dropWhile (· = c))
        else none

/-- `_FENCE_RE`: the character of the three that are matched. -/
def fenceMark (line : String) : Option Char := (fenceRun line).map (·.1)

/-! ### The scanner -/

/-- A granted pair, with the line that grants it. -/
structure Item where
  old : String
  new : String
  raw : String
deriving DecidableEq

/-- What the inner loop comes to: the pairs, what is malformed, whether the terminator was found, and the lines
from the one at which it stops, with their index. -/
structure Reading where
  items : List Item
  malformed : Option String
  closed : Bool
  index : Nat
  rest : List String

/-- The inner loop. -/
def readItems (index : Nat) (items : List Item) : List String → Reading
  | [] => ⟨items, none, false, index, []⟩
  | line :: rest =>
      if strip line = "" then readItems (index + 1) items rest
      else if rstrip line = grantTerminator then ⟨items, none, true, index, line :: rest⟩
      else
        match grantItem line with
        | none => ⟨items, some ("line " ++ (index + 1).repr ++ " is neither OLD - NEW nor the terminator"), false,
            index, line :: rest⟩
        | some (old, new) => readItems (index + 1) (items ++ [⟨old, new, strip line⟩]) rest

/-- Why a capsule grants nothing. -/
def Reading.problem (r : Reading) : Option String :=
  match r.malformed with
  | some why => some why
  | none => if r.closed = false then some "it is never closed"
      else if r.items = [] then some "it grants no Work pair" else none

/-- Where the scan goes on, and the lines from there. -/
def Reading.resume (r : Reading) : Nat × List String :=
  if r.closed then (r.index + 1, r.rest.tail) else (r.index, r.rest)

/-- The pairs so far, the lines that grant them, and the conflicts. -/
structure Table where
  grants : List (String × String) := []
  lines : List (String × String) := []
  conflicted : List String := []

/-- `dict.setdefault`. -/
def setDefault (key value : String) (d : List (String × String)) : List (String × String) :=
  if (d.lookup key).isSome then d else d ++ [(key, value)]

/-- A pair is granted. -/
def Table.grant (t : Table) (item : Item) : Table where
  grants := setDefault item.old item.new t.grants
  lines := setDefault item.old item.raw t.lines
  conflicted :=
    if ∃ new ∈ t.grants.lookup item.old, new ≠ item.new then t.conflicted.insert item.old else t.conflicted

theorem length_readItems (index : Nat) (items : List Item) (lines : List String) :
    (readItems index items lines).rest.length ≤ lines.length := by
  induction lines generalizing index items with
  | nil => exact le_rfl
  | cons line rest ih =>
    rw [readItems]
    split_ifs
    · exact (ih _ _).trans (Nat.le_succ _)
    · exact le_rfl
    · split
      · exact le_rfl
      · exact (ih _ _).trans (Nat.le_succ _)

theorem length_resume (index : Nat) (lines : List String) :
    (readItems index [] lines).resume.2.length ≤ lines.length := by
  have hrest := length_readItems index [] lines
  rw [Reading.resume]
  split_ifs
  · show (readItems index [] lines).rest.tail.length ≤ _
    rw [List.length_tail]
    omega
  · exact hrest

/-- The outer loop, with the fence that is open. -/
def scan (fence : Option Char) (index : Nat) (t : Table) (problems : List String) (lines : List String) :
    Table × List String :=
  match lines with
  | [] => (t, problems)
  | line :: rest =>
      match fence with
      | some c => scan (if fenceMark line = some c then none else some c) (index + 1) t problems rest
      | none =>
          match fenceMark line with
          | some c => scan (some c) (index + 1) t problems rest
          | none =>
              if rstrip line ≠ grantHeader then scan none (index + 1) t problems rest
              else
                match (readItems (index + 1) [] rest).problem with
                | some why => scan none (readItems (index + 1) [] rest).resume.1 t
                    (problems ++ ["Work-supersession capsule at line " ++ (index + 1).repr ++ " is malformed (" ++
                      why ++ ") and grants nothing"]) (readItems (index + 1) [] rest).resume.2
                | none => scan none (readItems (index + 1) [] rest).resume.1
                    ((readItems (index + 1) [] rest).items.foldl Table.grant t) problems
                    (readItems (index + 1) [] rest).resume.2
termination_by lines.length
decreasing_by
  · exact Nat.lt_succ_self _
  · exact Nat.lt_succ_self _
  · exact Nat.lt_succ_self _
  · exact Nat.lt_succ_of_le (length_resume _ _)
  · exact Nat.lt_succ_of_le (length_resume _ _)

/-- `GrantParse`. -/
structure GrantParse where
  grants : List (String × String)
  lines : List (String × String)
  problems : List String

/-- A conflicting pair is taken back. -/
def GrantParse.drop (parse : GrantParse) (old : String) : GrantParse where
  grants := Assoc.pop old parse.grants
  lines := Assoc.pop old parse.lines
  problems := parse.problems ++ [old ++ " is granted to conflicting successors and so is not granted"]

/-- `authority_grants`. -/
def authorityGrants (text : String) : GrantParse :=
  let (t, problems) := scan none 0 {} [] (splitLines text)
  (t.conflicted.mergeSort (· ≤ ·)).foldl GrantParse.drop ⟨t.grants, t.lines, problems⟩

end Saipen.Supersession
