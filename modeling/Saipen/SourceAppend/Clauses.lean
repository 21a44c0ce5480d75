import Saipen.Text.Pattern

/-! # Requirement clauses

`derive_normative_clauses` cuts a handoff body into units, the headings, list items, fenced blocks and
sentences of it, and takes the normative ones. Headings decide which of the units behind them are normative. -/

namespace Saipen.SourceAppend

open Text
open Text.Pattern (all any opt many upTo some1 lit word? space digit oneOf edge notAhead notBehind)

/-! ### Grammar -/

section Grammar

/-- `^`. -/
def atStart : Pattern := notBehind [fun _ => true]

/-- `$`, in a text of one line. -/
def atEnd : Pattern := notAhead (.one fun _ => true)

/-- `.`. -/
def anyChar : Pattern := .one (· != '\n')

/-- `[A-Z]`. -/
def capital : Pattern := .one fun c => 65 ≤ c.toNat && c.toNat ≤ 90

/-- `[A-Z0-9]` and the characters of a text. -/
def capsOr (cs : String) : Pattern :=
  .one fun c => (65 ≤ c.toNat && c.toNat ≤ 90) || (48 ≤ c.toNat && c.toNat ≤ 57) || cs.toList.contains c

/-- `p{3,}`. -/
def threeOrMore (p : Pattern) : Pattern := all [p, p, p, many p]

/-- `_NORMATIVE`. -/
def normativeRe : Pattern :=
  any [all [edge, any [all [lit "MUST", opt (lit " NOT")], all [lit "SHALL", opt (lit " NOT")], lit "NEVER"], edge],
    all [edge, word? "must", opt (word? " not"), edge], all [edge, word? "shall", edge],
    all [atStart, many space, any [word? "do not", word? "never", word? "always", word? "avoid"], edge]]

/-- `_INVARIANT`. -/
def invariantRe : Pattern :=
  any [all [edge, any [word? "must not", word? "shall not", word? "never"], edge],
    all [atStart, many space, any [word? "do not", word? "avoid"], edge]]

/-- `_ACCEPTANCE_HEADING`. -/
def acceptanceHeadingRe : Pattern :=
  all [edge, any [word? "acceptance", word? "test matrix", all [word? "test", opt (word? "s")],
    all [word? "required", opt (word? " zeros")], all [word? "invariant", opt (word? "s")],
    word? "terminal conditions", word? "must", all [word? "constraint", opt (word? "s")]], edge]

/-- `_HEADING`. -/
def headingRe : Pattern :=
  all [atStart, many space, any [all [lit "#", upTo 5 (lit "#"), some1 space, some1 anyChar],
    all [capsOr "", threeOrMore (capsOr " /&'().:,-")],
    all [some1 digit, many (all [lit ".", some1 digit]), opt (lit "."), some1 space, capital, many anyChar]], atEnd]

/-- `_CAPS_TITLE`. -/
def capsTitleRe : Pattern := all [atStart, capsOr "", threeOrMore (capsOr " /&'().:,-—–"), atEnd]

/-- `_ITEM` up to its group. -/
def itemRe : Pattern :=
  all [atStart, many space, any [oneOf "-*+", all [some1 digit, oneOf ".)"]], some1 space]

end Grammar

variable (word : Char → Bool) (lower : String → String)

/-- The group of `_ITEM.match`. -/
def item? (line : String) : Option String :=
  ((Pattern.run word itemRe ⟨[], line.toList⟩).find? fun s => s.ahead ≠ [] ∧ '\n' ∉ s.ahead).map fun s =>
    String.ofList s.ahead

/-- `_CAPS_TITLE.match`. -/
def isCapsTitle (text : String) : Bool := capsTitleRe.matchesAt word text.toList

/-- Where a sentence may begin. -/
def opensSentence (c : Char) : Bool :=
  (65 ≤ c.toNat && c.toNat ≤ 90) || (48 ≤ c.toNat && c.toNat ≤ 57) || "\"'`(".toList.contains c

/-- `_SENTENCE_END.split`. The piece is reversed; behind an end, white space is skipped. -/
def sentences : Bool → List Char → List Char → List (List Char)
  | _, piece, [] => [piece.reverse]
  | skipping, piece, c :: cs =>
      if skipping && isSpace c then sentences true piece cs
      else if isSpace c && piece.head?.any (".!?".toList.contains ·) && (cs.dropWhile isSpace).head?.any opensSentence then
        piece.reverse :: sentences true [] cs
      else sentences false (c :: piece) cs

/-- `str.split`. The word is reversed. -/
def words (piece : List Char) : List Char → List (List Char)
  | [] => if piece = [] then [] else [piece.reverse]
  | c :: cs =>
      if isSpace c then (if piece = [] then words [] cs else piece.reverse :: words [] cs)
      else words (c :: piece) cs

/-- `str.strip(chars)`. -/
def stripOf (chars : List Char) (cs : List Char) : List Char :=
  ((cs.dropWhile (chars.contains ·)).reverse.dropWhile (chars.contains ·)).reverse

/-- `MAX_CLAUSE_CHARS`. -/
def maxClauseChars : Nat := 400

/-- `MAX_CLAUSES`. -/
def maxClauses : Nat := 250

/-- `_normalize`. -/
def normalize (text : String) : String :=
  let compact := stripOf " -*;".toList (List.intercalate [' '] (words [] text.toList))
  if maxClauseChars < compact.length then
    String.ofList ((compact.take (maxClauseChars - 1)).reverse.dropWhile isSpace).reverse ++ "…"
  else String.ofList compact

/-! ### Units -/

/-- How a unit was found. -/
inductive UnitKind where
  | title
  | listed
  | sentence
deriving DecidableEq

/-- A unit of a body: its text and how it was found. -/
structure BodyUnit where
  text : String
  kind : UnitKind
deriving DecidableEq

/-- What `_units` has gathered in front of a line. -/
structure Gathered where
  block : List String := []
  items : List (List String) := []
  inFence : Bool := false

/-- `flush`. -/
def Gathered.flush (g : Gathered) : List BodyUnit :=
  if g.items ≠ [] then g.items.map fun item => ⟨" ".intercalate item, .listed⟩
  else if g.block ≠ [] then
    if g.inFence then [⟨" ".intercalate g.block, .listed⟩]
    else ((sentences false [] (" ".intercalate g.block).toList).map fun cs => strip (String.ofList cs)).filterMap
      fun text => if text ≠ "" then some ⟨text, .sentence⟩ else none
  else []

/-- `items[-1].append(line)`. -/
def continued (items : List (List String)) (line : String) : List (List String) :=
  match items.getLast? with
  | some item => items.dropLast ++ [item ++ [line]]
  | none => items

/-- One line of `_units`: the units in front of it, and what is gathered then. -/
def unitStep (g : Gathered) (raw : String) : List BodyUnit × Gathered :=
  let stripped := strip raw
  if startsWith stripped "```" then (g.flush, { inFence := !g.inFence })
  else if stripped = "" ∨ (g.inFence = false ∧ stripped.toList.all ("=-_*#~".toList.contains ·) = true) then
    (g.flush, { inFence := g.inFence })
  else
    match if g.inFence then none else item? word raw with
    | some text =>
        if isCapsTitle word text then (g.flush ++ [⟨strip text, .title⟩], { inFence := g.inFence })
        else if g.block ≠ [] then
          -- the block is flushed with the items in front of it, which stay
          (g.flush, { g with block := [], items := g.items ++ [[text]] })
        else ([], { g with items := g.items ++ [[text]] })
    | none =>
        if g.items ≠ [] ∧ g.inFence = false then ([], { g with items := continued g.items stripped })
        else ([], { g with block := g.block ++ [stripped] })

/-- The units of lines, and what is left gathered behind them. -/
def unitsFrom (g : Gathered) : List String → List BodyUnit × Gathered
  | [] => ([], g)
  | raw :: rest =>
      let behind := unitsFrom (unitStep word g raw).2 rest
      ((unitStep word g raw).1 ++ behind.1, behind.2)

/-- `_units`. -/
def units (body : String) : List BodyUnit :=
  let found := unitsFrom word {} (splitLines body ++ [""])
  found.1 ++ found.2.flush

/-! ### Clauses -/

/-- Whether a unit is a heading for the units behind it. -/
def isHeading (u : BodyUnit) : Bool :=
  u.kind = .title ||
    (u.kind = .sentence && !normativeRe.search word u.text.toList &&
      (headingRe.matchesAt word u.text.toList || isCapsTitle word u.text ||
        (u.text.toList.getLast? = some ':' && u.text.length ≤ 80)))

/-- The list items under this heading are normative. -/
def underAcceptance (heading : String) : Bool := heading ≠ "" && acceptanceHeadingRe.search word heading.toList

/-- The class of a normative unit. -/
def classOf (heading : String) (u : BodyUnit) : String :=
  if invariantRe.search word u.text.toList then "invariant"
  else if underAcceptance word heading then "acceptance-criterion" else "requirement"

/-- Whether a unit under a heading is normative. -/
def isNormative (heading : String) (u : BodyUnit) : Bool :=
  normativeRe.search word u.text.toList || (u.kind = .listed && underAcceptance word heading)

/-- The loop of `derive_normative_clauses`. -/
def deriveFrom (heading : String) (seen : List String) (clauses : List (String × String)) :
    List BodyUnit → List (String × String)
  | [] => clauses
  | u :: rest =>
      if isHeading word u then deriveFrom u.text seen clauses rest
      else if isNormative word heading u = false then deriveFrom heading seen clauses rest
      else
        let normalized := normalize u.text
        if normalized = "" ∨ lower normalized ∈ seen then deriveFrom heading seen clauses rest
        else
          let clauses := clauses ++ [(classOf word heading u, normalized)]
          if maxClauses ≤ clauses.length then clauses
          else deriveFrom heading (lower normalized :: seen) clauses rest

/-- `derive_normative_clauses`. -/
def deriveNormativeClauses (body : String) : List (String × String) := deriveFrom word lower "" [] [] (units word body)

end Saipen.SourceAppend
