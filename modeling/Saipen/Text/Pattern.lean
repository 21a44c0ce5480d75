import Saipen.Text.Scan

/-! # Patterns with backtracking

The part of a regular-expression language the evidence grammar is written in: classes of characters,
greedy repetition, word edges, and the two assertions about what stands ahead and behind. A pattern gives
all the places a match can end at, the preferred one first, so that a sequence backtracks by taking the
next of them. -/

namespace Text

/-- A place in a text: what stands behind it, nearest first, and what stands ahead. -/
structure Cursor where
  behind : List Char
  ahead : List Char

/-- A pattern. -/
inductive Pattern where
  | empty
  | one (f : Char → Bool)
  | seq (p q : Pattern)
  | alt (p q : Pattern)
  | many (p : Pattern)
  | upTo (n : Nat) (p : Pattern)
  | edge
  | ahead (p : Pattern)
  | notAhead (p : Pattern)
  | notBehind (fs : List (Char → Bool))

/-- At most `n` rounds of a step, as many as it takes first. -/
def rounds (step : Cursor → List Cursor) : Nat → Cursor → List Cursor
  | 0, s => [s]
  | n + 1, s => (step s).flatMap (rounds step n) ++ [s]

namespace Pattern

variable (word : Char → Bool)

/-- `\w`, given the characters outside ASCII that are part of words. -/
def isWord (c : Char) : Bool := isAsciiAlnum c || c == '_' || (128 ≤ c.toNat && word c)

/-- Whether a place is the edge of a word. -/
def atEdge (s : Cursor) : Bool := s.behind.head?.any (isWord word) != s.ahead.head?.any (isWord word)

/-- Whether the characters behind a place are of the given classes, the nearest last. -/
def endsWith (s : Cursor) (fs : List (Char → Bool)) : Bool :=
  fs.length ≤ s.behind.length && (List.zipWith (fun f c => f c) fs.reverse s.behind).all id

/-- Where a match from a place can end. -/
def run : Pattern → Cursor → List Cursor
  | empty, s => [s]
  | one f, s =>
      match s.ahead with
      | [] => []
      | c :: cs => if f c then [⟨c :: s.behind, cs⟩] else []
  | seq p q, s => (run p s).flatMap (run q)
  | alt p q, s => run p s ++ run q s
  | many p, s => rounds (run p) s.ahead.length s
  | upTo n p, s => rounds (run p) n s
  | edge, s => if atEdge word s then [s] else []
  | ahead p, s => if (run p s).isEmpty then [] else [s]
  | notAhead p, s => if (run p s).isEmpty then [s] else []
  | notBehind fs, s => if endsWith s fs then [] else [s]

/-- The matches of a text from left to right, `none` for each, among the characters outside them. No
pattern here matches the empty text. -/
def pieces (p : Pattern) : Nat → Cursor → List (Option Char)
  | 0, _ => []
  | n + 1, s =>
      match s.ahead with
      | [] => []
      | c :: cs =>
          match (run word p s).head? with
          | some e => none :: pieces p n e
          | none => some c :: pieces p n ⟨c :: s.behind, cs⟩

/-- The pieces of a whole text. -/
def scan (p : Pattern) (cs : List Char) : List (Option Char) := pieces word p cs.length ⟨[], cs⟩

/-- `p.search(text) is not None`. -/
def search (p : Pattern) (cs : List Char) : Bool := (scan word p cs).any Option.isNone

/-- `len(p.findall(text))`. -/
def count (p : Pattern) (cs : List Char) : Nat := (scan word p cs).countP Option.isNone

/-- `p.sub(" ", text)`. -/
def blank (p : Pattern) (cs : List Char) : List Char := (scan word p cs).map fun c => c.getD ' '

/-- `p.match(text) is not None`. -/
def matchesAt (p : Pattern) (cs : List Char) : Bool := !(run word p ⟨[], cs⟩).isEmpty

/-! ### The parts patterns are written with -/

/-- A character without its case, as a pattern that ignores case compares it. -/
def fold (c : Char) : Char :=
  if c.toNat = 0x130 ∨ c.toNat = 0x131 then 'i'
  else if c.toNat = 0x17f then 's'
  else if c.toNat = 0x212a then 'k'
  else c.toLower

/-- One pattern behind another. -/
def all (ps : List Pattern) : Pattern := ps.foldr seq empty

/-- One of several patterns, the first preferred. -/
def any : List Pattern → Pattern
  | [] => notAhead empty
  | [p] => p
  | p :: ps => alt p (any ps)

/-- `p?`. -/
def opt (p : Pattern) : Pattern := upTo 1 p

/-- `p+`. -/
def some1 (p : Pattern) : Pattern := seq p (many p)

/-- A literal. -/
def lit (s : String) : Pattern := all (s.toList.map fun c => one (· == c))

/-- A literal written in lower case, in any case. -/
def word? (s : String) : Pattern := all (s.toList.map fun c => one fun d => fold d == c)

/-- `\s`. -/
def space : Pattern := one isSpace

/-- `\d`. -/
def digit : Pattern := one isDecimal

/-- A character of a list. -/
def oneOf (cs : String) : Pattern := one fun c => cs.toList.contains c

/-- `[A-Za-z]` in a pattern that ignores case. -/
def letter (c : Char) : Bool := isAsciiAlpha (fold c)

end Pattern

/-! ### Text in ASCII -/

/-- Every character around a place is ASCII. -/
def Cursor.Ascii (s : Cursor) : Prop := (∀ c ∈ s.behind, c.toNat < 128) ∧ ∀ c ∈ s.ahead, c.toNat < 128

/-- Two steps that agree, and stay, inside a set of places agree over all their rounds. -/
theorem rounds_congr {P : Cursor → Prop} {step step' : Cursor → List Cursor}
    (h : ∀ s, P s → step s = step' s ∧ ∀ e ∈ step s, P e) (n : Nat) (s : Cursor) (hs : P s) :
    rounds step n s = rounds step' n s ∧ ∀ e ∈ rounds step n s, P e := by
  induction n generalizing s with
  | zero => exact ⟨rfl, fun e he => by rw [List.mem_singleton.mp he]; exact hs⟩
  | succ n ih =>
    obtain ⟨heq, hstay⟩ := h s hs
    refine ⟨?_, fun e he => ?_⟩
    · rw [rounds, rounds, ← heq, List.flatMap_congr fun e he => (ih e (hstay e he)).1]
    · rw [rounds, List.mem_append, List.mem_flatMap] at he
      rcases he with ⟨d, hd, he⟩ | he
      · exact (ih d (hstay d hd)).2 e he
      · rw [List.mem_singleton.mp he]
        exact hs

namespace Pattern

variable (word word' : Char → Bool) {s : Cursor}

theorem isWord_ascii {c : Char} (h : c.toNat < 128) : isWord word c = isWord word' c := by
  have hno : ¬128 ≤ c.toNat := by omega
  simp [isWord, hno]

theorem atEdge_ascii (hs : s.Ascii) : atEdge word s = atEdge word' s := by
  have hany : ∀ cs : List Char, (∀ c ∈ cs, c.toNat < 128) →
      cs.head?.any (isWord word) = cs.head?.any (isWord word') := by
    intro cs hcs
    cases cs with
    | nil => rfl
    | cons c cs => exact isWord_ascii word word' (hcs c List.mem_cons_self)
  rw [atEdge, atEdge, hany _ hs.1, hany _ hs.2]

/-- Which characters outside ASCII are part of words is nothing to an ASCII text. -/
theorem run_ascii (p : Pattern) (s : Cursor) (hs : s.Ascii) :
    run word p s = run word' p s ∧ ∀ e ∈ run word p s, e.Ascii := by
  have hself : ∀ e ∈ [s], e.Ascii := fun e he => by rw [List.mem_singleton.mp he]; exact hs
  have hnone : ∀ e ∈ ([] : List Cursor), e.Ascii := fun e he => absurd he List.not_mem_nil
  induction p generalizing s with
  | empty => exact ⟨rfl, hself⟩
  | one f =>
    refine ⟨rfl, ?_⟩
    unfold run
    split
    · exact hnone
    · next c cs hahead =>
      have hc : ∀ d ∈ c :: cs, d.toNat < 128 := hahead ▸ hs.2
      have hnext : Cursor.Ascii ⟨c :: s.behind, cs⟩ :=
        ⟨fun d hd => (List.mem_cons.mp hd).elim (fun h => h ▸ hc c List.mem_cons_self) (hs.1 d),
          fun d hd => hc d (List.mem_cons_of_mem _ hd)⟩
      split_ifs
      · exact fun e he => by rw [List.mem_singleton.mp he]; exact hnext
      · exact hnone
  | seq p q ihp ihq =>
    obtain ⟨heq, hstay⟩ := ihp s hs hself
    have hq : ∀ e ∈ run word p s, run word q e = run word' q e ∧ ∀ d ∈ run word q e, d.Ascii :=
      fun e he => ihq e (hstay e he) fun d hd => by rw [List.mem_singleton.mp hd]; exact hstay e he
    refine ⟨?_, fun e he => ?_⟩
    · rw [run, run, ← heq, List.flatMap_congr fun e he => (hq e he).1]
    · obtain ⟨d, hd, he⟩ := List.mem_flatMap.mp he
      exact (hq d hd).2 e he
  | alt p q ihp ihq =>
    obtain ⟨hp, hpstay⟩ := ihp s hs hself
    obtain ⟨hq, hqstay⟩ := ihq s hs hself
    exact ⟨by rw [run, run, hp, hq], fun e he => (List.mem_append.mp he).elim (hpstay e) (hqstay e)⟩
  | many p ih =>
    exact rounds_congr (fun e he => ih e he fun d hd => by rw [List.mem_singleton.mp hd]; exact he) _ s hs
  | upTo n p ih =>
    exact rounds_congr (fun e he => ih e he fun d hd => by rw [List.mem_singleton.mp hd]; exact he) _ s hs
  | edge =>
    rw [run, run, atEdge_ascii word word' hs]
    refine ⟨rfl, ?_⟩
    split_ifs
    · exact hself
    · exact hnone
  | ahead p ih =>
    rw [run, run, (ih s hs hself).1]
    refine ⟨rfl, ?_⟩
    split_ifs
    · exact hnone
    · exact hself
  | notAhead p ih =>
    rw [run, run, (ih s hs hself).1]
    refine ⟨rfl, ?_⟩
    split_ifs
    · exact hself
    · exact hnone
  | notBehind fs =>
    refine ⟨rfl, ?_⟩
    rw [run]
    split_ifs
    · exact hnone
    · exact hself

theorem pieces_ascii (p : Pattern) (n : Nat) (s : Cursor) (hs : s.Ascii) :
    pieces word p n s = pieces word' p n s ∧ ∀ c ∈ pieces word p n s, (c.getD ' ').toNat < 128 := by
  induction n generalizing s with
  | zero => exact ⟨rfl, fun _ hc => absurd hc List.not_mem_nil⟩
  | succ n ih =>
    obtain ⟨heq, hstay⟩ := run_ascii word word' p s hs
    rw [pieces, pieces, ← heq]
    cases hahead : s.ahead with
    | nil => exact ⟨rfl, fun _ hc => absurd hc List.not_mem_nil⟩
    | cons c cs =>
      have hc : ∀ d ∈ c :: cs, d.toNat < 128 := hahead ▸ hs.2
      cases hhead : (run word p s).head? with
      | some e =>
        obtain ⟨hrest, hascii⟩ := ih e (hstay e (List.mem_of_head? hhead))
        refine ⟨congrArg _ hrest, fun d hd => ?_⟩
        rcases List.mem_cons.mp hd with rfl | hd
        · decide
        · exact hascii d hd
      | none =>
        obtain ⟨hrest, hascii⟩ := ih ⟨c :: s.behind, cs⟩
          ⟨fun d hd => (List.mem_cons.mp hd).elim (fun h => h ▸ hc c List.mem_cons_self) (hs.1 d),
            fun d hd => hc d (List.mem_cons_of_mem _ hd)⟩
        refine ⟨congrArg _ hrest, fun d hd => ?_⟩
        rcases List.mem_cons.mp hd with rfl | hd
        · exact hc c List.mem_cons_self
        · exact hascii d hd

variable {cs : List Char}

theorem scan_ascii (p : Pattern) (h : ∀ c ∈ cs, c.toNat < 128) : scan word p cs = scan word' p cs :=
  (pieces_ascii word word' p _ _ ⟨fun _ hc => absurd hc List.not_mem_nil, h⟩).1

theorem search_ascii (p : Pattern) (h : ∀ c ∈ cs, c.toNat < 128) : search word p cs = search word' p cs := by
  rw [search, search, scan_ascii word word' p h]

theorem count_ascii (p : Pattern) (h : ∀ c ∈ cs, c.toNat < 128) : count word p cs = count word' p cs := by
  rw [count, count, scan_ascii word word' p h]

theorem matchesAt_ascii (p : Pattern) (h : ∀ c ∈ cs, c.toNat < 128) :
    matchesAt word p cs = matchesAt word' p cs := by
  rw [matchesAt, matchesAt, (run_ascii word word' p _ ⟨fun _ hc => absurd hc List.not_mem_nil, h⟩).1]

theorem blank_ascii (p : Pattern) (h : ∀ c ∈ cs, c.toNat < 128) :
    blank word p cs = blank word' p cs ∧ ∀ c ∈ blank word p cs, c.toNat < 128 := by
  obtain ⟨heq, hascii⟩ := pieces_ascii word word' p cs.length ⟨[], cs⟩
    ⟨fun _ hc => absurd hc List.not_mem_nil, h⟩
  refine ⟨congrArg (List.map _) heq, fun c hc => ?_⟩
  obtain ⟨d, hd, rfl⟩ := List.mem_map.mp hc
  exact hascii d hd

end Pattern

end Text
