import Saipen.Sorting
import Saipen.Text
import Mathlib.Data.List.Dedup
import Mathlib.Data.String.Basic

/-! # Deltas of the worktree

`git status --porcelain=v1 -z` ends every path with a NUL. An entry begins with two status letters, and a rename or a
copy has its second path in a field of its own. `source_worktree_deltas` looks for the second path behind the first
letter only. -/

namespace Saipen.Convergence.Deltas

open Text Sorting

/-! ### The output of git -/

/-- An entry of `git status`: the letters of the index and of the worktree, the path, and the path that it was renamed
or copied from. -/
structure Entry where
  index : Char
  worktree : Char
  path : List Char
  second : Option (List Char)
deriving DecidableEq

/-- The character that ends a path. -/
def nul : Char := Char.ofNat 0

/-- The letter of a rename or of a copy. -/
def IsPaired (letter : Char) : Prop := letter = 'R' ∨ letter = 'C'

instance (letter : Char) : Decidable (IsPaired letter) := inferInstanceAs (Decidable (_ ∨ _))

/-- The letters that git prints: changes in the index and in the worktree, unmerged, untracked and ignored paths. -/
def statusLetters : List (Char × Char) :=
  ([' ', 'M', 'T', 'A', 'R', 'C'].flatMap fun x => ['M', 'T', 'D'].map fun y => (x, y)) ++
    ['M', 'T', 'A', 'D', 'R', 'C'].map (fun x => (x, ' ')) ++ ['A', 'R', 'C'].map (fun y => (' ', y)) ++
    [('D', 'D'), ('A', 'U'), ('U', 'D'), ('U', 'A'), ('D', 'U'), ('A', 'A'), ('U', 'U'), ('?', '?'), ('!', '!')]

/-- An entry that git can print. -/
structure Entry.Valid (e : Entry) : Prop where
  letters : (e.index, e.worktree) ∈ statusLetters
  path : e.path ≠ [] ∧ nul ∉ e.path
  paired : e.second.isSome = true ↔ IsPaired e.index ∨ IsPaired e.worktree
  second : ∀ s ∈ e.second, s ≠ [] ∧ nul ∉ s

/-- The fields of an entry. -/
def Entry.fields (e : Entry) : List (List Char) := (e.index :: e.worktree :: ' ' :: e.path) :: e.second.toList

/-- The `-z` encoding of a list of entries. -/
def encode (entries : List Entry) : List Char := (entries.flatMap Entry.fields).flatMap fun f => f ++ [nul]

/-! ### The reader -/

/-- The letters and the path of a record whose third character is a space. -/
def recordOf? : List Char → Option (Char × Char × List Char)
  | x :: y :: gap :: path => if gap = ' ' then some (x, y, path) else none
  | _ => none

/-- The loop over the fields, up to an empty one: the records, each with the second path that was read for it. -/
def scan : List (List Char) → Option (List Entry)
  | [] => some []
  | field :: rest =>
      if field = [] then some []
      else
        match recordOf? field with
        | none => none
        | some (x, y, path) =>
            if IsPaired x then
              match rest with
              | [] => none
              | second :: rest =>
                  if second = [] then none else (scan rest).map fun es => ⟨x, y, path, some second⟩ :: es
            else (scan rest).map fun es => ⟨x, y, path, none⟩ :: es

/-- The paths that a record adds. -/
def Entry.taken (e : Entry) : List (List Char) :=
  if e.index = 'R' then e.path :: e.second.toList
  else if e.index = 'C' then [e.path]
  else if e.path = [] then [] else [e.path]

/-- `_is_main_source`. -/
def isMainSource (path : String) : Bool :=
  ".saipen" ∉ split '/' (replaceChar '\\' '/' path) &&
    [".workbuddy-ai/", ".saiwork/", "_tmp_dbg/"].all fun scratch => !startsWith path scratch

/-- `sorted({...})`. -/
def sortedSet (paths : List String) : List String := sortBy id paths.dedup

/-- The main-source paths of some paths. -/
def mainSource (paths : List (List Char)) : List String := sortedSet ((paths.map String.ofList).filter isMainSource)

/-- The fields of an output. -/
def fieldsOf (output : String) : List (List Char) := output.toList.splitOn nul

/-- `source_worktree_deltas`: `status` is what git printed, when it ran and ended well. -/
def sourceWorktreeDeltas (status : Option String) : Option (List String) := do
  let output ← status
  let records ← scan (fieldsOf output)
  some (mainSource (records.flatMap Entry.taken))

/-- The paths of an entry: both of a rename, the new one of a copy. -/
def Entry.paths (e : Entry) : List (List Char) :=
  if e.index = 'R' ∨ e.worktree = 'R' then e.path :: e.second.toList else [e.path]

variable {entries : List Entry} {e : Entry} {fs : List (List Char)} {output path : String} {paths : List String}

/-! ### Sorted sets -/

theorem mem_sortedSet : path ∈ sortedSet paths ↔ path ∈ paths := by
  rw [sortedSet, mem_sortBy, List.mem_dedup]

/-- The answer is sorted and holds no path twice. -/
theorem sortedSet_sorted (paths : List String) :
    (sortedSet paths).Pairwise (· ≤ ·) ∧ (sortedSet paths).Nodup :=
  ⟨pairwise_sortBy paths.dedup, (sortBy_perm paths.dedup).nodup_iff.mpr paths.nodup_dedup⟩

/-! ### What an encoding is read as -/

theorem nul_notMem_fields (h : e.Valid) : ∀ f ∈ e.fields, nul ∉ f := by
  have hletters : ∀ p ∈ statusLetters, nul ≠ p.1 ∧ nul ≠ p.2 ∧ nul ≠ ' ' := by decide
  obtain ⟨hx, hy, hspace⟩ := hletters _ h.letters
  intro f hf
  rcases List.mem_cons.mp hf with rfl | hf
  · simp only [List.mem_cons, not_or]
    exact ⟨hx, hy, hspace, h.path.2⟩
  · exact (h.second f (Option.mem_toList.mp hf)).2

/-- The fields of an encoding are those of its entries, and an empty one. -/
theorem splitOn_encode (h : ∀ e ∈ entries, e.Valid) :
    (encode entries).splitOn nul = entries.flatMap Entry.fields ++ [[]] := by
  have hfields : ∀ f ∈ entries.flatMap Entry.fields ++ [[]], nul ∉ f := by
    intro f hf
    rcases List.mem_append.mp hf with hf | hf
    · obtain ⟨e, he, hf⟩ := List.mem_flatMap.mp hf
      exact nul_notMem_fields (h e he) f hf
    · rw [List.mem_singleton.mp hf]
      exact List.not_mem_nil
  have hjoin : ∀ gs : List (List Char), (gs.flatMap fun f => f ++ [nul]) = [nul].intercalate (gs ++ [[]]) := by
    intro gs
    induction gs with
    | nil => rfl
    | cons g gs ih =>
      rw [List.flatMap_cons, ih]
      cases gs with
      | nil => simp [List.intercalate]
      | cons f gs => simp [List.intercalate]
  rw [encode, hjoin]
  exact List.splitOn_intercalate nul hfields (by simp)

/-- An entry whose only letter of a rename or of a copy is the second one. -/
def Entry.SecondOnly (e : Entry) : Prop := IsPaired e.worktree ∧ ¬ IsPaired e.index

section Records

variable {field second path : List Char} {rest : List (List Char)} {x y : Char}

theorem recordOf?_fields (x y : Char) (path : List Char) : recordOf? (x :: y :: ' ' :: path) = some (x, y, path) := by
  rw [recordOf?, if_pos rfl]

theorem ne_nil_of_recordOf? (h : recordOf? field = some (x, y, path)) : field ≠ [] := by
  rintro rfl
  cases h

theorem scan_end (rest : List (List Char)) : scan ([] :: rest) = some [] := by
  rw [scan, if_pos rfl]

theorem scan_malformed (hfield : field ≠ []) (h : recordOf? field = none) : scan (field :: rest) = none := by
  rw [scan, if_neg hfield, h]

theorem scan_plain (h : recordOf? field = some (x, y, path)) (hx : ¬ IsPaired x) :
    scan (field :: rest) = (scan rest).map fun es => ⟨x, y, path, none⟩ :: es := by
  rw [scan, if_neg (ne_nil_of_recordOf? h), h]
  simp only [if_neg hx]

theorem scan_paired (h : recordOf? field = some (x, y, path)) (hx : IsPaired x) (hsecond : second ≠ []) :
    scan (field :: second :: rest) = (scan rest).map fun es => ⟨x, y, path, some second⟩ :: es := by
  rw [scan, if_neg (ne_nil_of_recordOf? h), h]
  simp only [if_pos hx, if_neg hsecond]

theorem scan_alone (h : recordOf? field = some (x, y, path)) (hx : IsPaired x) : scan [field] = none := by
  rw [scan, if_neg (ne_nil_of_recordOf? h), h]
  simp only [if_pos hx]

theorem scan_alone_end (h : recordOf? field = some (x, y, path)) (hx : IsPaired x) :
    scan (field :: [] :: rest) = none := by
  rw [scan, if_neg (ne_nil_of_recordOf? h), h]
  simp only [if_pos hx, if_true]

end Records

/-- Entries without such letters are read one by one. -/
theorem scan_fields (hvalid : ∀ e ∈ entries, e.Valid) (hfirst : ∀ e ∈ entries, ¬ e.SecondOnly) :
    scan (entries.flatMap Entry.fields ++ [[]]) = some entries := by
  induction entries with
  | nil => exact scan_end []
  | cons e entries ih =>
    have hrest := ih (fun d hd => hvalid d (List.mem_cons_of_mem _ hd)) fun d hd => hfirst d (List.mem_cons_of_mem _ hd)
    have he := hvalid e List.mem_cons_self
    have honly := hfirst e List.mem_cons_self
    obtain ⟨x, y, path, second⟩ := e
    rw [List.flatMap_cons, List.append_assoc]
    by_cases hx : IsPaired x
    · obtain ⟨s, rfl⟩ := Option.isSome_iff_exists.mp (he.paired.mpr (.inl hx))
      show scan ((x :: y :: ' ' :: path) :: s :: (entries.flatMap Entry.fields ++ [[]])) = _
      rw [scan_paired (recordOf?_fields x y path) hx (he.second s rfl).1, hrest, Option.map_some]
    · have hnone : second = none := by
        have hy : ¬ IsPaired y := fun hy => honly ⟨hy, hx⟩
        rw [← Option.not_isSome_iff_eq_none, he.paired, not_or]
        exact ⟨hx, hy⟩
      subst hnone
      show scan ((x :: y :: ' ' :: path) :: (entries.flatMap Entry.fields ++ [[]])) = _
      rw [scan_plain (recordOf?_fields x y path) hx, hrest, Option.map_some]

/-- What is read has a second path where the first letter asks for one. -/
theorem paired_of_scan (h : scan fs = some entries) : ∀ e ∈ entries, e.second.isSome = true ↔ IsPaired e.index := by
  induction fs using scan.induct generalizing entries with
  | case1 =>
    obtain rfl : [] = entries := Option.some.inj h
    exact fun _ he => by cases he
  | case2 rest =>
    obtain rfl : [] = entries := Option.some.inj ((scan_end rest).symm.trans h)
    exact fun _ he => by cases he
  | case3 field rest hfield hrecord =>
    rw [scan_malformed hfield hrecord] at h
    cases h
  | case4 field hfield x y path hrecord hx =>
    rw [scan_alone hrecord hx] at h
    cases h
  | case5 field hfield x y path hrecord hx rest =>
    rw [scan_alone_end hrecord hx] at h
    cases h
  | case6 field hfield x y path hrecord hx second rest hsecond ih =>
    rw [scan_paired hrecord hx hsecond] at h
    obtain ⟨es, hes, rfl⟩ := Option.map_eq_some_iff.mp h
    exact List.forall_mem_cons.mpr ⟨iff_of_true rfl hx, ih hes⟩
  | case7 field rest hfield x y path hrecord hx ih =>
    rw [scan_plain hrecord hx] at h
    obtain ⟨es, hes, rfl⟩ := Option.map_eq_some_iff.mp h
    exact List.forall_mem_cons.mpr ⟨iff_of_false Bool.false_ne_true hx, ih hes⟩

/-! ### What is not refused -/

/-- Fields that are records, with a second path behind those whose first letter asks for one. -/
inductive Readable : List (List Char) → Prop
  | nil : Readable []
  | plain {field path : List Char} {rest : List (List Char)} {x y : Char} : recordOf? field = some (x, y, path) →
      ¬ IsPaired x → Readable rest → Readable (field :: rest)
  | paired {field second path : List Char} {rest : List (List Char)} {x y : Char} :
      recordOf? field = some (x, y, path) → IsPaired x → Readable rest → Readable (field :: second :: rest)

/-- The fields in front of the first empty one. -/
def leading (fs : List (List Char)) : List (List Char) := fs.takeWhile (· ≠ [])

theorem leading_cons {field : List Char} (rest : List (List Char)) (h : field ≠ []) :
    leading (field :: rest) = field :: leading rest := List.takeWhile_cons_of_pos (by simpa using h)

theorem leading_end (rest : List (List Char)) : leading ([] :: rest) = [] := List.takeWhile_cons_of_neg (by simp)

section Inversion

variable {field second path : List Char} {rest : List (List Char)} {x y : Char}

theorem not_readable_malformed (h : recordOf? field = none) : ¬ Readable (field :: rest) := by
  intro hread
  cases hread with
  | plain h' _ _ => rw [h] at h'; cases h'
  | paired h' _ _ => rw [h] at h'; cases h'

/-- A record whose first letter asks for a second path is not the last one. -/
theorem not_readable_alone (h : recordOf? field = some (x, y, path)) (hx : IsPaired x) : ¬ Readable [field] := by
  intro hread
  cases hread with
  | plain h' hx' _ =>
    rw [h] at h'
    obtain ⟨rfl, -⟩ := Prod.mk.inj (Option.some.inj h')
    exact hx' hx

theorem readable_plain (h : recordOf? field = some (x, y, path)) (hx : ¬ IsPaired x) :
    Readable (field :: rest) ↔ Readable rest := by
  refine ⟨fun hread => ?_, .plain h hx⟩
  cases hread with
  | plain _ _ hrest => exact hrest
  | paired h' hx' _ =>
    rw [h] at h'
    obtain ⟨rfl, -⟩ := Prod.mk.inj (Option.some.inj h')
    exact absurd hx' hx

theorem readable_paired (h : recordOf? field = some (x, y, path)) (hx : IsPaired x) :
    Readable (field :: second :: rest) ↔ Readable rest := by
  refine ⟨fun hread => ?_, .paired h hx⟩
  cases hread with
  | plain h' hx' _ =>
    rw [h] at h'
    obtain ⟨rfl, -⟩ := Prod.mk.inj (Option.some.inj h')
    exact absurd hx hx'
  | paired _ _ hrest => exact hrest

end Inversion

/-- The reader refuses what has fields of no such form in front of the first empty one, and nothing else. -/
theorem scan_eq_none_iff : scan fs = none ↔ ¬ Readable (leading fs) := by
  induction fs using scan.induct with
  | case1 => exact iff_of_false (by rw [scan]; exact Option.some_ne_none _) (not_not.mpr .nil)
  | case2 rest =>
    rw [scan_end, leading_end]
    exact iff_of_false (Option.some_ne_none _) (not_not.mpr .nil)
  | case3 field rest hfield hrecord =>
    rw [scan_malformed hfield hrecord, leading_cons rest hfield]
    exact iff_of_true rfl (not_readable_malformed hrecord)
  | case4 field hfield x y path hrecord hx =>
    rw [scan_alone hrecord hx, leading_cons [] hfield]
    exact iff_of_true rfl (not_readable_alone hrecord hx)
  | case5 field hfield x y path hrecord hx rest =>
    rw [scan_alone_end hrecord hx, leading_cons _ hfield, leading_end]
    exact iff_of_true rfl (not_readable_alone hrecord hx)
  | case6 field hfield x y path hrecord hx second rest hsecond ih =>
    rw [scan_paired hrecord hx hsecond, leading_cons _ hfield, leading_cons _ hsecond, Option.map_eq_none_iff, ih,
      readable_paired hrecord hx]
  | case7 field rest hfield x y path hrecord hx ih =>
    rw [scan_plain hrecord hx, leading_cons _ hfield, Option.map_eq_none_iff, ih, readable_plain hrecord hx]

theorem sourceWorktreeDeltas_eq_none_iff :
    sourceWorktreeDeltas (some output) = none ↔ ¬ Readable (leading (fieldsOf output)) := by
  rw [← scan_eq_none_iff]
  cases h : scan (fieldsOf output) with
  | none => exact iff_of_true (by simp [sourceWorktreeDeltas, h]) rfl
  | some records => exact iff_of_false (by simp [sourceWorktreeDeltas, h]) (Option.some_ne_none _)

/-! ### Exact reading -/

/-- The entries of an encoding are read one by one and their paths are answered; other outputs are refused. -/
def ReadExactly (output : String) : Prop :=
  (∀ entries, (∀ e ∈ entries, e.Valid) → encode entries = output.toList → scan (fieldsOf output) = some entries ∧
      sourceWorktreeDeltas (some output) = some (mainSource (entries.flatMap Entry.paths))) ∧
    ((¬ ∃ entries, (∀ e ∈ entries, e.Valid) ∧ encode entries = output.toList) →
      sourceWorktreeDeltas (some output) = none)

/-- A valid entry adds its paths. -/
theorem taken_eq_paths (hvalid : e.Valid) (hfirst : ¬ e.SecondOnly) : e.taken = e.paths := by
  have hcopy : ∀ p ∈ statusLetters, p.1 = 'C' → p.2 ≠ 'R' := by decide
  by_cases hx : e.index = 'R'
  · rw [Entry.taken, if_pos hx, Entry.paths, if_pos (.inl hx)]
  · have hy : e.worktree ≠ 'R' := by
      intro hy
      by_cases hc : e.index = 'C'
      · exact hcopy _ hvalid.letters hc hy
      · exact hfirst ⟨.inl hy, fun h => h.elim hx hc⟩
    rw [Entry.taken, if_neg hx, Entry.paths, if_neg (not_or.mpr ⟨hx, hy⟩), if_neg hvalid.path.1, ite_self]

/-- The output of git is read exactly if and only if no entry has the letter of a rename or of a copy in the second
place only, and an output that encodes no entries does not look like one up to its first empty field. -/
theorem deltas_read_exactly_iff (output : String) : ReadExactly output ↔
    (∀ entries, (∀ e ∈ entries, e.Valid) → encode entries = output.toList → ∀ e ∈ entries, ¬ e.SecondOnly) ∧
      ((¬ ∃ entries, (∀ e ∈ entries, e.Valid) ∧ encode entries = output.toList) →
        ¬ Readable (leading (fieldsOf output))) := by
  refine and_congr (forall_congr' fun entries => forall_congr' fun hvalid => forall_congr' fun hencode => ?_)
    (imp_congr_right fun _ => sourceWorktreeDeltas_eq_none_iff)
  constructor
  · rintro ⟨hscan, -⟩ e he ⟨hy, hx⟩
    -- The entry has a second path, which the reader does not look for.
    have hsome := (hvalid e he).paired.mpr (.inr hy)
    exact hx ((paired_of_scan hscan e he).mp hsome)
  · intro hfirst
    have hscan : scan (fieldsOf output) = some entries := by
      rw [fieldsOf, ← hencode, splitOn_encode hvalid]
      exact scan_fields hvalid hfirst
    have htaken : entries.flatMap Entry.taken = entries.flatMap Entry.paths :=
      List.flatMap_congr fun e he => taken_eq_paths (hvalid e he) (hfirst e he)
    refine ⟨hscan, ?_⟩
    rw [← htaken]
    simp [sourceWorktreeDeltas, hscan]

/-- A file that is renamed in the worktree. -/
def renamedEntry : Entry := ⟨' ', 'R', "new.py".toList, some "old.py".toList⟩

theorem renamedEntry_valid : renamedEntry.Valid := by
  constructor <;> decide

/-- The second path of such an entry is taken for an entry, and the output is refused. -/
theorem renamed_not_read : renamedEntry.Valid ∧
    sourceWorktreeDeltas (some (String.ofList (encode [renamedEntry]))) = none ∧
    mainSource renamedEntry.paths = ["new.py", "old.py"] ∧ ¬ ∀ output, ReadExactly output := by
  have hnone : sourceWorktreeDeltas (some (String.ofList (encode [renamedEntry]))) = none := by decide +kernel
  refine ⟨renamedEntry_valid, hnone, by decide +kernel, fun h => ?_⟩
  have hread := (h (String.ofList (encode [renamedEntry]))).1 [renamedEntry]
    (fun e he => List.mem_singleton.mp he ▸ renamedEntry_valid) (String.toList_ofList ..).symm
  rw [hnone] at hread
  cases hread.2

end Saipen.Convergence.Deltas
