import Mathlib.Data.Finset.Union
import Saipen.Accumulate
import Saipen.Text.Case
import Saipen.Text.Lines
import Saipen.SourceAppend.Clauses

/-! # Consolidated handoffs

Bodies that begin with a heading of their own and close their fences have the units of each of them when they
are joined by blank lines. Their clauses are then the clauses of each of them, up to the case of their letters,
as long as all of them together stay within the bound on clauses. -/

namespace Saipen.SourceAppend

open Text

variable {word : Char → Bool} {lower : String → String}

/-! ### Lines of joined bodies -/

/-- A newline behind a text ends its last line, and is an empty line where there is none to end. -/
theorem linesFrom_newline_append (ds cs : List Char) : ∀ line : List Char, ∃ blanks : List (List Char),
    (∀ b ∈ blanks, b = []) ∧ linesFrom line (cs ++ '\n' :: ds) = linesFrom line cs ++ blanks ++ linesFrom [] ds := by
  have hnewline : ∀ line : List Char, ∃ blanks : List (List Char), (∀ b ∈ blanks, b = []) ∧
      linesFrom line ('\n' :: ds) = linesFrom line [] ++ blanks ++ linesFrom [] ds := by
    intro line
    rw [linesFrom_cons (by decide), if_pos isLineBreak_newline, linesFrom]
    cases line with
    | nil => exact ⟨[[]], by simp, rfl⟩
    | cons c line => exact ⟨[], by simp, by simp⟩
  induction cs using List.twoStepInduction with
  | nil => exact hnewline
  | singleton c =>
    intro line
    rw [List.singleton_append, linesFrom, linesFrom]
    by_cases hc : c = '\r'
    · -- a carriage return and the newline are one end of a line
      subst hc
      rw [if_pos ⟨rfl, rfl⟩, if_pos (by decide)]
      exact ⟨[], by simp, by simp⟩
    · rw [if_neg fun h => hc h.1]
      by_cases hbreak : isLineBreak c = true
      · rw [if_pos hbreak, if_pos hbreak]
        obtain ⟨blanks, hblanks, hlines⟩ := hnewline []
        refine ⟨blanks, hblanks, ?_⟩
        rw [hlines]
        rfl
      · rw [if_neg hbreak, if_neg hbreak]
        obtain ⟨blanks, hblanks, hlines⟩ := hnewline (c :: line)
        refine ⟨blanks, hblanks, ?_⟩
        rw [hlines, linesFrom, if_neg (List.cons_ne_nil c line)]
  | cons_cons c d cs ih ih' =>
    intro line
    rw [List.cons_append, List.cons_append, linesFrom, linesFrom]
    split
    · obtain ⟨blanks, hblanks, hlines⟩ := ih []
      exact ⟨blanks, hblanks, by rw [hlines]; rfl⟩
    · split
      · obtain ⟨blanks, hblanks, hlines⟩ := ih' d []
        exact ⟨blanks, hblanks, by rw [← List.cons_append, hlines]; rfl⟩
      · exact ih' d (c :: line)

/-- Between the lines of two bodies joined by an empty line there are empty lines only, and one at least. -/
theorem splitLines_join (a b : String) : ∃ n, splitLines (a ++ "\n\n" ++ b) =
    splitLines a ++ List.replicate (n + 1) "" ++ splitLines b := by
  obtain ⟨blanks, hblanks, hlines⟩ := linesFrom_newline_append ('\n' :: b.toList) a.toList []
  refine ⟨blanks.length, ?_⟩
  have hchars : (a ++ "\n\n" ++ b).toList = a.toList ++ '\n' :: '\n' :: b.toList := by
    simp [String.toList_append]
  have hempty : linesFrom [] ('\n' :: b.toList) = [] :: linesFrom [] b.toList := by
    rw [linesFrom_cons (by decide), if_pos isLineBreak_newline, List.reverse_nil]
  have hreplicate : blanks.map String.ofList = List.replicate blanks.length "" := by
    rw [List.eq_replicate_iff, List.length_map]
    refine ⟨rfl, fun s hs => ?_⟩
    obtain ⟨b, hb, rfl⟩ := List.mem_map.mp hs
    rw [hblanks b hb]
  rw [splitLines, hchars, hlines, hempty, List.map_append, List.map_append, List.map_cons, hreplicate,
    List.replicate_succ', splitLines, splitLines]
  simp

/-! ### Units of joined bodies -/

theorem unitsFrom_append (g : Gathered) (xs ys : List String) : unitsFrom word g (xs ++ ys) =
    ((unitsFrom word g xs).1 ++ (unitsFrom word (unitsFrom word g xs).2 ys).1,
      (unitsFrom word (unitsFrom word g xs).2 ys).2) := by
  induction xs generalizing g with
  | nil => rfl
  | cons raw xs ih =>
    rw [List.cons_append, unitsFrom, unitsFrom, ih]
    dsimp only
    rw [List.append_assoc]

/-- An empty line ends what is gathered. -/
theorem unitStep_empty (g : Gathered) : unitStep word g "" = (g.flush, { inFence := g.inFence }) := by
  rw [unitStep]
  rfl

theorem unitsFrom_empty (g : Gathered) (n : Nat) : unitsFrom word g (List.replicate (n + 1) "") =
    (g.flush, { inFence := g.inFence }) := by
  induction n generalizing g with
  | zero =>
    rw [List.replicate_one, unitsFrom, unitStep_empty]
    simp [unitsFrom]
  | succ n ih =>
    rw [List.replicate_succ, unitsFrom, unitStep_empty, ih]
    simp [Gathered.flush]

/-- A line that opens or closes a fence. -/
def isFence (raw : String) : Bool := startsWith (strip raw) "```"

/-- The fences of a body are closed. -/
def Balanced (body : String) : Prop := (splitLines body).countP isFence % 2 = 0

theorem inFence_unitStep (g : Gathered) (raw : String) :
    (unitStep word g raw).2.inFence = (g.inFence ^^ isFence raw) := by
  rw [unitStep, isFence]
  by_cases hfence : startsWith (strip raw) "```" = true
  · rw [if_pos hfence, hfence, Bool.xor_true]
  · rw [if_neg hfence, Bool.eq_false_iff.mpr hfence, Bool.xor_false]
    split
    · rfl
    · split
      · split
        · rfl
        · split <;> rfl
      · split <;> rfl

/-- Whether a fence is open depends on the number of fence lines. -/
theorem inFence_unitsFrom (g : Gathered) (lines : List String) :
    (unitsFrom word g lines).2.inFence = (g.inFence ^^ decide (lines.countP isFence % 2 = 1)) := by
  induction lines generalizing g with
  | nil => simp [unitsFrom]
  | cons raw lines ih =>
    rw [unitsFrom]
    dsimp only
    rw [ih, inFence_unitStep, List.countP_cons]
    cases isFence raw with
    | false => simp
    | true =>
      rw [Bool.xor_assoc, if_pos rfl]
      congr 1
      rcases Nat.mod_two_eq_zero_or_one (lines.countP isFence) with h | h
      · rw [Nat.add_mod, h]
        rfl
      · rw [Nat.add_mod, h]
        rfl

/-- The units of a body are those of its lines. -/
theorem units_eq (body : String) : units word body =
    (unitsFrom word {} (splitLines body)).1 ++ (unitsFrom word {} (splitLines body)).2.flush := by
  rw [units, unitsFrom_append, show [""] = List.replicate (0 + 1) "" from rfl, unitsFrom_empty]
  simp [Gathered.flush]

/-- Two bodies of which the first closes its fences. -/
theorem units_join {a b : String} (h : Balanced a) : units word (a ++ "\n\n" ++ b) = units word a ++ units word b := by
  obtain ⟨n, hlines⟩ := splitLines_join a b
  have hclosed : (unitsFrom word {} (splitLines a)).2.inFence = false := by
    rw [inFence_unitsFrom, show (splitLines a).countP isFence % 2 = 0 from h]
    rfl
  rw [units_eq, units_eq, units_eq, hlines, List.append_assoc, unitsFrom_append, unitsFrom_append, unitsFrom_empty,
    hclosed]
  simp only [List.append_assoc]

/-- The units of bodies joined by empty lines. -/
theorem units_intercalate {bodies : List String} (h : ∀ body ∈ bodies, Balanced body) :
    units word ("\n\n".intercalate bodies) = bodies.flatMap (units word) := by
  induction bodies with
  | nil => rfl
  | cons a bodies ih =>
    cases bodies with
    | nil => simp
    | cons b bodies =>
      have hjoin : "\n\n".intercalate (a :: b :: bodies) = a ++ "\n\n" ++ "\n\n".intercalate (b :: bodies) := by
        rw [← String.toList_inj, String.toList_append, String.toList_append, String.toList_intercalate,
          String.toList_intercalate, List.map_cons, List.map_cons, List.intercalate_cons_cons, List.append_assoc]
      rw [hjoin, units_join (h a List.mem_cons_self), ih fun body hbody => h body (List.mem_cons_of_mem a hbody)]
      rfl

/-! ### Keys of clauses -/

variable (word lower)

/-- The keys of the normative units, before repetitions and the bound. -/
def candidateKeys (heading : String) : List BodyUnit → List String
  | [] => []
  | u :: rest =>
      if isHeading word u then candidateKeys u.text rest
      else if isNormative word heading u = false ∨ normalize u.text = "" then candidateKeys heading rest
      else lower (normalize u.text) :: candidateKeys heading rest

/-- The texts of clauses up to the case of their letters. -/
def keysOf (clauses : List (String × String)) : Finset String := (clauses.map fun c => lower c.2).toFinset

/-- The texts of the clauses of a body up to the case of their letters. -/
def clauseKeys (body : String) : Finset String := keysOf lower (deriveNormativeClauses word lower body)

/-- A body that begins with a heading. -/
def Headed (body : String) : Prop := ∃ u rest, units word body = u :: rest ∧ isHeading word u = true

variable {word lower} {heading : String} {clauses : List (String × String)}

theorem keysOf_append (c : String × String) : keysOf lower (clauses ++ [c]) = insert (lower c.2) (keysOf lower clauses) := by
  rw [keysOf, keysOf, List.map_append, List.toFinset_append, List.map_singleton, List.toFinset_cons,
    List.toFinset_nil, insert_empty_eq, Finset.union_comm, Finset.insert_eq]

/-- The clauses that are derived have the first keys that are different from each other. -/
theorem keysOf_deriveFrom {seen : List String} {us : List BodyUnit} (hlength : clauses.length < maxClauses)
    (hseen : seen.toFinset = keysOf lower clauses) (hcard : (keysOf lower clauses).card = clauses.length) :
    keysOf lower (deriveFrom word lower heading seen clauses us) =
      Accumulate.gather maxClauses (keysOf lower clauses) (candidateKeys word lower heading us) := by
  induction us generalizing heading seen clauses with
  | nil => rfl
  | cons u us ih =>
    rw [deriveFrom, candidateKeys]
    by_cases hheading : isHeading word u = true
    · rw [if_pos hheading, if_pos hheading]
      exact ih hlength hseen hcard
    rw [if_neg hheading, if_neg hheading]
    by_cases hnormative : isNormative word heading u = false
    · rw [if_pos hnormative, if_pos (.inl hnormative)]
      exact ih hlength hseen hcard
    rw [if_neg hnormative]
    dsimp only
    by_cases hempty : normalize u.text = ""
    · rw [if_pos (.inl hempty), if_pos (.inr hempty)]
      exact ih hlength hseen hcard
    rw [if_neg (not_or.mpr ⟨hnormative, hempty⟩)]
    have hmem : lower (normalize u.text) ∈ seen ↔ lower (normalize u.text) ∈ keysOf lower clauses := by
      rw [← hseen, List.mem_toFinset]
    show _ = Accumulate.gather maxClauses (Accumulate.absorb maxClauses (keysOf lower clauses) _) _
    by_cases hknown : lower (normalize u.text) ∈ seen
    · rw [if_pos (.inr hknown), Accumulate.absorb, if_pos (.inl (hmem.mp hknown))]
      exact ih hlength hseen hcard
    rw [if_neg (not_or.mpr ⟨hempty, hknown⟩)]
    have hnew : lower (normalize u.text) ∉ keysOf lower clauses := fun h => hknown (hmem.mpr h)
    have habsorb : Accumulate.absorb maxClauses (keysOf lower clauses) (lower (normalize u.text)) =
        keysOf lower (clauses ++ [(classOf word heading u, normalize u.text)]) := by
      rw [keysOf_append, Accumulate.absorb, if_neg (not_or.mpr ⟨hnew, by omega⟩)]
    have hcard' : (keysOf lower (clauses ++ [(classOf word heading u, normalize u.text)])).card =
        (clauses ++ [(classOf word heading u, normalize u.text)]).length := by
      rw [keysOf_append, Finset.card_insert_of_notMem hnew, hcard, List.length_append, List.length_singleton]
    rw [habsorb]
    by_cases hfull : maxClauses ≤ (clauses ++ [(classOf word heading u, normalize u.text)]).length
    · rw [if_pos hfull, Accumulate.gather_of_full (hcard'.symm ▸ hfull)]
    · rw [if_neg hfull]
      refine ih (not_le.mp hfull) ?_ hcard'
      rw [List.toFinset_cons, hseen, keysOf_append]

theorem clauseKeys_eq (body : String) : clauseKeys word lower body =
    Accumulate.gather maxClauses ∅ (candidateKeys word lower "" (units word body)) :=
  keysOf_deriveFrom (by decide) rfl rfl

/-- A heading makes the units behind it independent of those in front of it. -/
theorem candidateKeys_append {us vs : List BodyUnit} (h : ∃ u rest, vs = u :: rest ∧ isHeading word u = true) :
    candidateKeys word lower heading (us ++ vs) =
      candidateKeys word lower heading us ++ candidateKeys word lower "" vs := by
  induction us generalizing heading with
  | nil =>
    obtain ⟨u, rest, rfl, hu⟩ := h
    rw [List.nil_append, candidateKeys, candidateKeys, candidateKeys, if_pos hu, if_pos hu, List.nil_append]
  | cons u us ih =>
    rw [List.cons_append, candidateKeys, candidateKeys]
    split_ifs
    · exact ih
    · exact ih
    · rw [ih, List.cons_append]

/-- A body with a heading leaves nothing of the heading in front of it. -/
theorem candidateKeys_headed {us : List BodyUnit} (h : ∃ u rest, us = u :: rest ∧ isHeading word u = true) :
    candidateKeys word lower heading us = candidateKeys word lower "" us := by
  have hnone : candidateKeys word lower heading ([] ++ us) =
      candidateKeys word lower heading [] ++ candidateKeys word lower "" us := candidateKeys_append h
  rwa [List.nil_append, candidateKeys, List.nil_append] at hnone

theorem candidateKeys_flatMap {bodies : List String} (h : ∀ body ∈ bodies, Headed word body) :
    candidateKeys word lower heading (bodies.flatMap (units word)) =
      (bodies.map fun body => candidateKeys word lower "" (units word body)).flatten := by
  induction bodies generalizing heading with
  | nil => rfl
  | cons a bodies ih =>
    have ha := h a List.mem_cons_self
    have hbodies : ∀ body ∈ bodies, Headed word body := fun body hbody => h body (List.mem_cons_of_mem a hbody)
    have hrest : candidateKeys word lower "" (bodies.flatMap (units word)) =
        (bodies.map fun body => candidateKeys word lower "" (units word body)).flatten := ih hbodies
    rw [List.flatMap_cons, List.map_cons, List.flatten_cons, ← hrest]
    cases bodies with
    | nil =>
      rw [List.flatMap_nil, List.append_nil, candidateKeys_headed ha, candidateKeys, List.append_nil]
    | cons b bodies =>
      obtain ⟨u, rest, hunits, hu⟩ := hbodies b List.mem_cons_self
      rw [candidateKeys_append ⟨u, rest ++ bodies.flatMap (units word), by rw [List.flatMap_cons, hunits]; rfl, hu⟩,
        candidateKeys_headed ha]

/-! ### The clauses of a consolidated handoff -/

/-- **Handoffs.** The clauses of joined bodies are those of the bodies, up to case, exactly when the bodies
have no more of them together than the bound admits. -/
theorem clauseKeys_join (word : Char → Bool) (lower : String → String) (bodies : List String)
    (h : ∀ body ∈ bodies, Balanced body ∧ Headed word body) :
    clauseKeys word lower ("\n\n".intercalate bodies) = bodies.toFinset.biUnion (clauseKeys word lower) ↔
      (bodies.toFinset.biUnion (clauseKeys word lower)).card ≤ maxClauses := by
  have heach : Accumulate.gatherEach maxClauses
      (bodies.map fun body => candidateKeys word lower "" (units word body)) =
        bodies.toFinset.biUnion (clauseKeys word lower) := by
    ext k
    simp only [Accumulate.mem_gatherEach, Finset.mem_biUnion, List.mem_toFinset, List.mem_map, exists_exists_and_eq_and, clauseKeys_eq]
  rw [clauseKeys_eq, units_intercalate fun body hbody => (h body hbody).1,
    candidateKeys_flatMap fun body hbody => (h body hbody).2, ← heach]
  exact Accumulate.gather_flatten_iff

/-- Two bodies with a requirement that differs in the case of its letters. -/
def sampleBodies : List String := ["# One\n\nX must be Y.", "# Two\n\nx must be y."]

theorem sampleBodies_wellFormed : ∀ body ∈ sampleBodies, Balanced body ∧ Headed isAsciiAlnum body := by
  have hunits : ∀ body ∈ sampleBodies, (splitLines body).countP isFence % 2 = 0 ∧
      ((units isAsciiAlnum body).head?.any (isHeading isAsciiAlnum)) = true := by decide +kernel
  intro body hbody
  obtain ⟨hbalanced, hheading⟩ := hunits body hbody
  refine ⟨hbalanced, ?_⟩
  rw [Headed]
  cases hfound : units isAsciiAlnum body with
  | nil =>
    rw [hfound] at hheading
    cases hheading
  | cons u rest =>
    rw [hfound] at hheading
    exact ⟨u, rest, rfl, hheading⟩

/-- The handoff made of them has one of the two texts. -/
theorem clause_texts_differ : (∀ body ∈ sampleBodies, Balanced body ∧ Headed isAsciiAlnum body) ∧
    (deriveNormativeClauses isAsciiAlnum Text.lower ("\n\n".intercalate sampleBodies)).map (·.2) = ["X must be Y."] ∧
    sampleBodies.flatMap (fun body => (deriveNormativeClauses isAsciiAlnum Text.lower body).map (·.2)) =
      ["X must be Y.", "x must be y."] :=
  ⟨sampleBodies_wellFormed, by decide +kernel, by decide +kernel⟩

/-- Up to case it has both. -/
theorem clause_keys_agree : clauseKeys isAsciiAlnum Text.lower ("\n\n".intercalate sampleBodies) =
    sampleBodies.toFinset.biUnion (clauseKeys isAsciiAlnum Text.lower) :=
  (clauseKeys_join isAsciiAlnum Text.lower sampleBodies sampleBodies_wellFormed).mpr (by decide +kernel)

end Saipen.SourceAppend
