import Saipen.Operations.Transition

/-! # Goal counters from the LOG

`_derived_goal_counters` counts the increments since the newest goal marker. An event counts by its
text: whoever writes a DEC event that reads like a marker or an increment is counted. -/

namespace Saipen.Operations

open Text

/-- The goal counters. -/
@[ext] structure Counts where
  waves : Nat := 0
  tickets : Nat := 0
deriving DecidableEq

def Counts.get (n : Counts) : Counter → Nat
  | .waves => n.waves
  | .tickets => n.tickets

def Counts.add (n : Counts) : Counter → Counts
  | .waves => { n with waves := n.waves + 1 }
  | .tickets => { n with tickets := n.tickets + 1 }

@[simp] theorem Counts.get_add (n : Counts) (k l : Counter) :
    (n.add k).get l = if k = l then n.get l + 1 else n.get l := by
  cases k <;> cases l <;> rfl

theorem Counts.ext_get {n m : Counts} (h : ∀ k, n.get k = m.get k) : n = m :=
  Counts.ext (h .waves) (h .tickets)

@[simp] theorem Counts.get_zero (k : Counter) : Counts.get {} k = 0 := by cases k <;> rfl

/-! ### What an event means -/

/-- What an event does to the counters. -/
inductive Effect where
  | nothing
  | marker
  | increment (k : Counter)
deriving DecidableEq

section Meaning

/- The characters of `\w`. -/
variable (isWordChar : Char → Bool)

/-- The openings of the goal markers. -/
def markerWords : List String := ["goal pivot", "goal reauthorized", "goal checkpoint"]

/-- `_GOAL_MARKER_RE.match`. -/
def isMarker (cs : List Char) : Bool :=
  markerWords.any fun word => (literal word.toList cs).any fun rest => !rest.head?.any isWordChar

/-- `goal_(waves|tickets) ` at the beginning of a text. -/
def counterAt (cs : List Char) : Option (Counter × List Char) :=
  match literal "goal_waves ".toList cs with
  | some rest => some (.waves, rest)
  | none => (literal "goal_tickets ".toList cs).map (.tickets, ·)

/-- `_GOAL_INCREMENT_RE.match`. -/
def incrementOf (cs : List Char) : Option (Counter × Nat × Nat) := do
  let (k, rest) ← counterAt cs
  let n ← number? (rest.takeWhile isDecimal)
  let more ← literal "->".toList (rest.dropWhile isDecimal)
  let m ← number? more
  some (k, n, m)

/-- What a DEC text means. -/
def meaning (text : String) : Effect :=
  let cs := (strip text).toList
  if isMarker isWordChar cs then .marker
  else
    match incrementOf cs with
    | some (k, n, m) => if n < m then .increment k else .nothing
    | none => .nothing

/-- What an event means: only DEC events count. -/
def effect (e : Event) : Effect := if e.taxonomy = "DEC" then meaning isWordChar e.text else .nothing

end Meaning

/-- One event of the count. -/
def Effect.apply (n : Counts) : Effect → Counts
  | .nothing => n
  | .marker => {}
  | .increment k => n.add k

/-- `_derived_goal_counters`. -/
def derivedGoalCounters (isWordChar : Char → Bool) (events : List Event) : Counts :=
  (events.map (effect isWordChar)).foldl Effect.apply {}

theorem derived_append (isWordChar : Char → Bool) (es fs : List Event) :
    derivedGoalCounters isWordChar (es ++ fs) =
      (fs.map (effect isWordChar)).foldl Effect.apply (derivedGoalCounters isWordChar es) := by
  rw [derivedGoalCounters, List.map_append, List.foldl_append, ← derivedGoalCounters]

/-- Events that mean nothing are not counted. -/
theorem derived_append_nothing {isWordChar : Char → Bool} (es : List Event) {fs : List Event}
    (h : ∀ e ∈ fs, effect isWordChar e = .nothing) :
    derivedGoalCounters isWordChar (es ++ fs) = derivedGoalCounters isWordChar es := by
  rw [derived_append]
  induction fs with
  | nil => rfl
  | cons e fs ih =>
    rw [List.map_cons, List.foldl_cons, h e List.mem_cons_self]
    exact ih fun f hf => h f (List.mem_cons_of_mem _ hf)

/-! ### What the engine writes -/

section Written

variable {isWordChar : Char → Bool}

theorem effect_of_taxonomy {e : Event} (h : e.taxonomy ≠ "DEC") : effect isWordChar e = .nothing :=
  if_neg h

/-- A text that opens with another letter than `g` means nothing. -/
theorem meaning_of_head {text : String} {c : Char} (h : text.toList.head? = some c)
    (hspace : isSpace c = false) (hletter : c ≠ 'g') : meaning isWordChar text = .nothing := by
  have hone : ∀ d ∈ [c].head?, isSpace d = false := fun d hd => Option.some.inj hd ▸ hspace
  obtain ⟨cs, hcs⟩ := List.head?_eq_some_iff.mp h
  obtain ⟨kept, -, hkept⟩ := strip_opening (show text.toList = [c] ++ cs from hcs) (List.cons_ne_nil _ _) hone hone
  have hliteral : ∀ word : String, word.toList.head? = some 'g' → literal word.toList ([c] ++ kept) = none := by
    intro word hword
    obtain ⟨more, hmore⟩ := List.head?_eq_some_iff.mp hword
    rw [hmore, List.singleton_append, literal, if_neg (Ne.symm hletter)]
  have hcounter : counterAt ([c] ++ kept) = none := by
    rw [counterAt, hliteral _ (by decide), hliteral _ (by decide)]
    rfl
  have hmarker : isMarker isWordChar ([c] ++ kept) = false := by
    have hopen : ∀ word ∈ markerWords, word.toList.head? = some 'g' := by decide
    rw [isMarker, List.any_eq_false]
    intro word hword
    rw [hliteral word (hopen word hword)]
    exact Bool.false_ne_true
  simp only [meaning, hkept, hmarker, Bool.false_eq_true, if_false]
  rw [incrementOf, hcounter]
  rfl

/-- A text that opens with the words of a marker and a blank is a marker. -/
theorem meaning_of_marker (hword : isWordChar ' ' = false) {text word : String}
    (hmem : word ∈ markerWords) (h : word.toList ++ [' '] <+: text.toList) :
    meaning isWordChar text = .marker := by
  obtain ⟨cs, hcs⟩ := h
  have h : text.toList = word.toList ++ ' ' :: cs := by rw [← hcs, List.append_assoc, List.singleton_append]
  have hends : ∀ word ∈ markerWords, word.toList.head?.any (!isSpace ·) = true ∧
      word.toList.getLast?.any (!isSpace ·) = true := by
    decide
  obtain ⟨hfirst, hfinal⟩ := hends word hmem
  have hne : word.toList ≠ [] := fun hnil => by rw [hnil] at hfirst; cases hfirst
  have hhead : ∀ c ∈ word.toList.head?, isSpace c = false := fun c hc => by
    rw [Option.mem_def.mp hc] at hfirst
    simpa using hfirst
  have hlast : ∀ c ∈ word.toList.getLast?, isSpace c = false := fun c hc => by
    rw [Option.mem_def.mp hc] at hfinal
    simpa using hfinal
  obtain ⟨kept, hkept, hstrip⟩ := strip_opening h hne hhead hlast
  have hmarker : isMarker isWordChar (strip text).toList = true := by
    rw [isMarker, List.any_eq_true]
    refine ⟨word, hmem, ?_⟩
    rw [hstrip, literal_append, Option.any_some]
    cases kept with
    | nil => rfl
    | cons d kept =>
      obtain ⟨more, hmore⟩ := hkept
      rw [List.cons_append, List.cons.injEq] at hmore
      rw [hmore.1, List.head?_cons, Option.any_some, hword]
      rfl
  simp only [meaning, hmarker, if_true]

theorem isDecimal_of_mem_repr {n : Nat} {c : Char} (h : c ∈ n.repr.toList) : isDecimal c = true :=
  isDecimal_of_isDigit (isDigit_of_mem_repr h)

/-- The increment an operation writes is read as one. -/
theorem meaning_incrementText (k : Counter) {n m : Nat} (h : n < m) :
    meaning isWordChar (incrementText k n m) = .increment k := by
  have hlist : (incrementText k n m).toList =
      ("goal_".toList ++ k.name.toList ++ [' '] ++ n.repr.toList ++ ['-', '>']) ++ m.repr.toList := by
    simp [incrementText]
  have hstrip : strip (incrementText k n m) = incrementText k n m := by
    refine strip_eq_self (fun c hc => ?_) (fun c hc => ?_)
    · rw [hlist] at hc
      obtain rfl : 'g' = c := Option.some.inj hc
      decide
    · rw [hlist, List.getLast?_append] at hc
      cases hlast : m.repr.toList.getLast? with
      | none =>
        have hnum := number?_repr m
        rw [List.getLast?_eq_none_iff.mp hlast] at hnum
        cases hnum
      | some d =>
        rw [hlast] at hc
        obtain rfl : d = c := Option.some.inj hc
        exact isSpace_of_isDecimal (isDecimal_of_mem_repr (List.mem_of_getLast? hlast))
  have hmarker : isMarker isWordChar (strip (incrementText k n m)).toList = false := by
    rw [hstrip, hlist]
    cases k <;> rfl
  have hcounter : counterAt (strip (incrementText k n m)).toList =
      some (k, n.repr.toList ++ ('-' :: '>' :: m.repr.toList)) := by
    rw [hstrip, hlist]
    cases k
    · simp [counterAt, Counter.name, literal]
    · simp [counterAt, Counter.name, literal]
  have hdigits : ∀ c ∈ n.repr.toList, isDecimal c = true := fun _ hc => isDecimal_of_mem_repr hc
  have hdash : isDecimal '-' = false := by decide
  have htake : (n.repr.toList ++ ('-' :: '>' :: m.repr.toList)).takeWhile isDecimal = n.repr.toList := by
    rw [List.takeWhile_append_of_pos hdigits, List.takeWhile_cons_of_neg (by simp [hdash]), List.append_nil]
  have hdrop : (n.repr.toList ++ ('-' :: '>' :: m.repr.toList)).dropWhile isDecimal =
      "->".toList ++ m.repr.toList := by
    rw [List.dropWhile_append_of_pos hdigits, List.dropWhile_cons_of_neg (by simp [hdash])]
    rfl
  have hparse : incrementOf (strip (incrementText k n m)).toList = some (k, n, m) := by
    rw [incrementOf, hcounter]
    simp only [Option.bind_eq_bind, Option.bind_some, htake, hdrop, literal_append, number?_repr]
  simp only [meaning, hmarker, Bool.false_eq_true, if_false, hparse, if_pos h]

end Written

end Saipen.Operations
