import Saipen.Supersession.Grants
import Mathlib.Data.List.Nodup

/-! # What capsules grant

A capsule is read from its header to its terminator. The capsules that count are those whose header lies
outside every code fence, and their pairs are granted unless two of them disagree. The scanner's fences are
opened by three characters and closed by any line that begins with them; Markdown's are closed by a run that is
as long as the one that opened them and stands alone. -/

namespace Saipen.Supersession

open Text

/-! ### Capsules -/

/-- The pairs of a capsule whose lines begin here, when it is closed and well-formed. -/
def capsuleBody : List String → Option (List (String × String))
  | [] => none
  | line :: rest =>
      if strip line = "" then capsuleBody rest
      else if rstrip line = grantTerminator then some []
      else
        match grantItem line with
        | none => none
        | some pair => (capsuleBody rest).map (pair :: ·)

/-- The pairs of the closed, well-formed capsule with its header at a line, if there is one. -/
def capsule (line : String) (rest : List String) : List (String × String) :=
  if rstrip line = grantHeader then (capsuleBody rest).getD [] else []

universe u

variable {σ τ : Type u}

/-- The pairs of the capsules outside every fence, for a reading of the fences. -/
def listed (step : Option σ → String → Option σ) (fence : Option σ) : List String → List (String × String)
  | [] => []
  | line :: rest => (if fence.isNone then capsule line rest else []) ++ listed step (step fence line) rest

/-- A pair that is listed, and not with another successor. -/
def Granted (pairs : List (String × String)) (old new : String) : Prop :=
  (old, new) ∈ pairs ∧ ∀ new', (old, new') ∈ pairs → new' = new

/-! ### Fences -/

/-- The fences of the scanner. -/
def codeFence (fence : Option Char) (line : String) : Option Char :=
  match fence with
  | some c => if fenceMark line = some c then none else some c
  | none => fenceMark line

/-- The fences of Markdown: a run of at least three is closed by one of the same character that is at least as
long and alone on its line. -/
def markdownFence (fence : Option (Char × Nat)) (line : String) : Option (Char × Nat) :=
  match fence, fenceRun line with
  | none, none => none
  | none, some (c, n, _) => some (c, n)
  | some open', none => some open'
  | some (c, n), some (d, m, after) => if d = c ∧ n ≤ m ∧ after.all isSpace then none else some (c, n)

/-! ### Lines of a capsule -/

variable {line : String} {rest lines : List String} {old new : String}

theorem rstrip_parts (s : String) : ∃ post, s.toList = (rstrip s).toList ++ post ∧ ∀ c ∈ post, isSpace c = true := by
  refine ⟨(s.toList.reverse.takeWhile isSpace).reverse, ?_, fun c hc => ?_⟩
  · rw [rstrip, String.toList_ofList, ← List.reverse_append, List.takeWhile_append_dropWhile, List.reverse_reverse]
  · exact List.mem_takeWhile_imp (List.mem_reverse.mp hc)

/-- A line that is neither a header nor a fence. -/
structure Inert (line : String) : Prop where
  fence : fenceMark line = none
  header : rstrip line ≠ grantHeader

theorem fenceMark_eq_none (h : ∀ c ∈ (line.toList.dropWhile isBlank).head?, c ≠ backtick ∧ c ≠ '~') :
    fenceMark line = none := by
  rw [fenceMark, fenceRun]
  split_ifs
  · rfl
  · cases hrest : line.toList.dropWhile isBlank with
    | nil => rfl
    | cons c cs =>
      rw [hrest] at h
      dsimp only
      rw [if_neg fun hrun => (hrun.1.elim (h c rfl).1 (h c rfl).2)]
      rfl

/-- A header has letters. -/
theorem header_chars (h : rstrip line = grantHeader) : ∃ post, line.toList = 'T' :: 'h' :: post := by
  obtain ⟨post, hline, -⟩ := rstrip_parts line
  rw [h] at hline
  exact ⟨_, hline⟩

theorem inert_of_blank (h : strip line = "") : Inert line := by
  have hspaces : ∀ c ∈ line.toList, isSpace c = true := by
    obtain ⟨pre, post, hline, hpre, hpost⟩ := strip_parts line
    rw [h] at hline
    rw [hline]
    exact fun c hc => (List.mem_append.mp hc).elim (hpre c) (hpost c)
  constructor
  · refine fenceMark_eq_none fun c hc => ?_
    have hspace := hspaces c ((List.dropWhile_suffix _).subset (List.mem_of_mem_head? hc))
    constructor <;> rintro rfl <;> exact absurd hspace (by decide)
  · intro hheader
    obtain ⟨post, hline⟩ := header_chars hheader
    exact absurd (hspaces 'T' (by rw [hline]; exact List.mem_cons_self)) (by decide)

theorem inert_of_terminator (h : rstrip line = grantTerminator) : Inert line := by
  constructor
  · obtain ⟨post, hline, -⟩ := rstrip_parts line
    rw [h] at hline
    refine fenceMark_eq_none fun c hc => ?_
    rw [hline, show (grantTerminator.toList ++ post).dropWhile isBlank = grantTerminator.toList ++ post from rfl] at hc
    obtain rfl : 'o' = c := Option.some.inj hc
    decide
  · rw [h]
    decide

theorem inert_of_item {pair : String × String} (h : grantItem line = some pair) : Inert line := by
  obtain ⟨rest, hrest⟩ : ∃ rest, line.toList.dropWhile isBlank = 'T' :: '-' :: rest := by
    rw [grantItem, ticketPrefix] at h
    cases hliteral : literal "T-".toList (line.toList.dropWhile isBlank) with
    | none =>
      rw [hliteral] at h
      cases h
    | some rest => exact ⟨rest, literal_eq_some_iff.mp hliteral⟩
  constructor
  · refine fenceMark_eq_none fun c hc => ?_
    rw [hrest] at hc
    obtain rfl : 'T' = c := Option.some.inj hc
    decide
  · intro hheader
    obtain ⟨post, hline⟩ := header_chars hheader
    rw [hline, show ('T' :: 'h' :: post).dropWhile isBlank = 'T' :: 'h' :: post from rfl] at hrest
    exact absurd (List.cons.inj (List.cons.inj hrest).2).1 (by decide)

/-! ### The inner loop -/

/-- Inert lines list nothing and leave the text outside every fence. -/
theorem listed_inert {skipped : List String} (h : ∀ line ∈ skipped, Inert line) :
    listed codeFence none (skipped ++ lines) = listed codeFence none lines := by
  induction skipped with
  | nil => rfl
  | cons line skipped ih =>
    have hline := h line List.mem_cons_self
    rw [List.cons_append, listed, capsule, if_neg hline.header, show codeFence none line = none from hline.fence,
      ih fun l hl => h l (List.mem_cons_of_mem _ hl)]
    rfl

/-- A pair without its line. -/
def Item.pair (item : Item) : String × String := (item.old, item.new)

/-- The inner loop reads the body of a capsule and skips inert lines. -/
theorem readItems_spec (index : Nat) (items : List Item) (lines : List String) :
    ∃ skipped, lines = skipped ++ (readItems index items lines).resume.2 ∧ (∀ line ∈ skipped, Inert line) ∧
      ∃ more, (readItems index items lines).items = items ++ more ∧
        capsuleBody lines = if (readItems index items lines).closed then some (more.map Item.pair) else none := by
  induction lines generalizing index items with
  | nil => exact ⟨[], rfl, List.forall_mem_nil _, [], (List.append_nil _).symm, rfl⟩
  | cons line rest ih =>
    rw [readItems, capsuleBody]
    by_cases hblank : strip line = ""
    · rw [if_pos hblank, if_pos hblank]
      obtain ⟨skipped, hrest, hinert, more, hitems, hbody⟩ := ih (index + 1) items
      exact ⟨line :: skipped, congrArg _ hrest, List.forall_mem_cons.mpr ⟨inert_of_blank hblank, hinert⟩, more,
        hitems, hbody⟩
    rw [if_neg hblank, if_neg hblank]
    by_cases hterminator : rstrip line = grantTerminator
    · rw [if_pos hterminator, if_pos hterminator]
      exact ⟨[line], rfl, List.forall_mem_singleton.mpr (inert_of_terminator hterminator), [],
        (List.append_nil _).symm, rfl⟩
    rw [if_neg hterminator, if_neg hterminator]
    cases hitem : grantItem line with
    | none => exact ⟨[], rfl, List.forall_mem_nil _, [], (List.append_nil _).symm, rfl⟩
    | some pair =>
      obtain ⟨old, new⟩ := pair
      dsimp only
      obtain ⟨skipped, hrest, hinert, more, hitems, hbody⟩ := ih (index + 1) (items ++ [⟨old, new, strip line⟩])
      refine ⟨line :: skipped, congrArg _ hrest, List.forall_mem_cons.mpr ⟨inert_of_item hitem, hinert⟩,
        ⟨old, new, strip line⟩ :: more, by rw [hitems, List.append_assoc, List.singleton_append], ?_⟩
      rw [hbody]
      split_ifs <;> rfl

theorem malformed_of_closed (index : Nat) (items : List Item) (lines : List String)
    (h : (readItems index items lines).closed = true) : (readItems index items lines).malformed = none := by
  induction lines generalizing index items with
  | nil => rfl
  | cons line rest ih =>
    rw [readItems] at h ⊢
    split_ifs at h ⊢
    · exact ih _ _ h
    · rfl
    · split at h
      · cases h
      · exact ih _ _ h

/-- A capsule grants its pairs, unless it is malformed. -/
theorem capsule_of_readItems (index : Nat) (hheader : rstrip line = grantHeader) : capsule line rest =
    if (readItems index [] rest).problem = none then (readItems index [] rest).items.map Item.pair else [] := by
  obtain ⟨-, -, -, more, hitems, hbody⟩ := readItems_spec index [] rest
  rw [List.nil_append] at hitems
  rw [capsule, if_pos hheader, hbody, ← hitems, Reading.problem]
  by_cases hclosed : (readItems index [] rest).closed = true
  · rw [if_pos hclosed, malformed_of_closed _ _ _ hclosed]
    by_cases hempty : (readItems index [] rest).items = []
    · simp [hclosed, hempty]
    · simp [hclosed, hempty]
  · rw [if_neg hclosed]
    cases (readItems index [] rest).malformed with
    | none => simp [hclosed]
    | some why => rfl

/-! ### The outer loop -/

/-- In a fence nothing is listed. -/
theorem listed_some (step : Option σ → String → Option σ) (fence : σ) :
    listed step (some fence) (line :: rest) = listed step (step (some fence) line) rest := rfl

/-- Outside every fence, the lines behind a header list what the lines behind its capsule list. -/
theorem listed_header (index : Nat) (hmark : fenceMark line = none) :
    listed codeFence none (line :: rest) =
      capsule line rest ++ listed codeFence none (readItems index [] rest).resume.2 := by
  obtain ⟨skipped, hrest, hinert, -⟩ := readItems_spec index [] rest
  have hskip := (congrArg (listed codeFence none) hrest).trans (listed_inert hinert)
  rw [listed, show codeFence none line = none from hmark, hskip]
  rfl

/-- The scanner grants the pairs of the capsules outside its fences, one after the other. -/
theorem scan_items (fence : Option Char) (index : Nat) (t : Table) (problems lines : List String) :
    ∃ items : List Item, (scan fence index t problems lines).1 = items.foldl Table.grant t ∧
      items.map Item.pair = listed codeFence fence lines := by
  fun_induction scan with
  | case1 => exact ⟨[], rfl, rfl⟩
  | case2 index t problems line rest c ih =>
    obtain ⟨items, hscan, hitems⟩ := ih
    exact ⟨items, hscan, hitems⟩
  | case3 index t problems line rest c hmark ih =>
    obtain ⟨items, hscan, hitems⟩ := ih
    refine ⟨items, hscan, ?_⟩
    -- a line that opens a fence is no header
    have hheader : rstrip line ≠ grantHeader := by
      intro hheader
      obtain ⟨post, hline⟩ := header_chars hheader
      rw [fenceMark_eq_none] at hmark
      · cases hmark
      · intro d hd
        rw [hline] at hd
        obtain rfl : 'T' = d := Option.some.inj hd
        decide
    rw [listed, capsule, if_neg hheader, show codeFence none line = some c from hmark, hitems]
    rfl
  | case4 index t problems line rest hmark hheader ih =>
    obtain ⟨items, hscan, hitems⟩ := ih
    refine ⟨items, hscan, ?_⟩
    rw [listed, capsule, if_neg hheader, show codeFence none line = none from hmark, hitems]
    rfl
  | case5 index t problems line rest hmark hheader why hproblem ih =>
    obtain ⟨items, hscan, hitems⟩ := ih
    refine ⟨items, hscan, ?_⟩
    rw [listed_header (index + 1) hmark, capsule_of_readItems (index + 1) (not_not.mp hheader), hproblem,
      if_neg (Option.some_ne_none why), hitems]
    rfl
  | case6 index t problems line rest hmark hheader hproblem ih =>
    obtain ⟨items, hscan, hitems⟩ := ih
    refine ⟨(readItems (index + 1) [] rest).items ++ items, by rw [hscan, List.foldl_append], ?_⟩
    rw [listed_header (index + 1) hmark, capsule_of_readItems (index + 1) (not_not.mp hheader), hproblem,
      if_pos rfl, List.map_append, hitems]

/-! ### The table -/

theorem lookup_setDefault {key value k : String} {d : List (String × String)} :
    (setDefault key value d).lookup k = (d.lookup k).or (if k = key then some value else none) := by
  rw [setDefault]
  by_cases hkey : (d.lookup key).isSome = true
  · rw [if_pos hkey]
    by_cases hk : k = key
    · subst hk
      obtain ⟨v, hv⟩ := Option.isSome_iff_exists.mp hkey
      rw [hv, Option.some_or]
    · rw [if_neg hk, Option.or_none]
  · rw [if_neg hkey, List.lookup_append, Assoc.lookup_cons]
    rfl

/-- The pairs that have been granted, and the conflicts between them. -/
structure Table.Reads (t : Table) (pairs : List (String × String)) : Prop where
  grants : ∀ old, t.grants.lookup old = pairs.lookup old
  conflicted : ∀ old, old ∈ t.conflicted ↔ ∃ new, (old, new) ∈ pairs ∧ pairs.lookup old ≠ some new

theorem Table.Reads.grant {t : Table} {pairs : List (String × String)} (h : t.Reads pairs) (item : Item) :
    (t.grant item).Reads (pairs ++ [item.pair]) := by
  have hlookup : ∀ old, (pairs ++ [item.pair]).lookup old =
      (pairs.lookup old).or (if old = item.old then some item.new else none) := by
    intro old
    rw [List.lookup_append, Item.pair, Assoc.lookup_cons]
    rfl
  refine ⟨fun old => ?_, fun old => ?_⟩
  · rw [hlookup, Table.grant, lookup_setDefault, h.grants]
  · rw [hlookup, Table.grant, h.grants]
    dsimp only
    by_cases hold : old = item.old
    · subst hold
      rw [if_pos rfl]
      cases hfirst : pairs.lookup item.old with
      | none =>
        -- the first pair of this ticket: nothing to disagree with
        have hnew : ∀ new, (item.old, new) ∉ pairs := fun new hmem =>
          Assoc.notMem_iff_lookup.mpr hfirst (List.mem_map_of_mem (f := Prod.fst) hmem)
        rw [if_neg (by simp), h.conflicted, hfirst]
        refine iff_of_false (fun ⟨new, hmem, _⟩ => hnew new hmem) ?_
        rintro ⟨new, hmem, hne⟩
        rcases List.mem_append.mp hmem with hmem | hmem
        · exact hnew new hmem
        · exact hne (congrArg some (Prod.mk.inj (List.mem_singleton.mp hmem)).2.symm)
      | some v =>
        rw [Option.some_or]
        by_cases hagree : v = item.new
        · rw [if_neg (by simp [hagree]), h.conflicted, hfirst]
          constructor
          · rintro ⟨new, hmem, hne⟩
            exact ⟨new, List.mem_append_left _ hmem, hne⟩
          · rintro ⟨new, hmem, hne⟩
            rcases List.mem_append.mp hmem with hmem | hmem
            · exact ⟨new, hmem, hne⟩
            · exact absurd (congrArg some (hagree.trans (Prod.mk.inj (List.mem_singleton.mp hmem)).2.symm)) hne
        · rw [if_pos ⟨v, rfl, hagree⟩]
          refine iff_of_true (List.mem_insert_self) ⟨item.new, ?_, fun h => hagree (Option.some.inj h)⟩
          exact List.mem_append_right _ (List.mem_singleton_self _)
    · rw [if_neg hold, Option.or_none]
      have hinsert : (old ∈ if ∃ new ∈ pairs.lookup item.old, new ≠ item.new then t.conflicted.insert item.old
          else t.conflicted) ↔ old ∈ t.conflicted := by
        split_ifs
        · rw [List.mem_insert_iff, or_iff_right hold]
        · rfl
      rw [hinsert, h.conflicted]
      refine exists_congr fun new => and_congr_left fun _ => ?_
      rw [List.mem_append, List.mem_singleton, or_iff_left]
      exact fun heq => hold (Prod.mk.inj heq).1

theorem reads_items (items : List Item) : (items.foldl Table.grant {}).Reads (items.map Item.pair) := by
  induction items using List.reverseRecOn with
  | nil => exact ⟨fun _ => rfl, fun old => iff_of_false List.not_mem_nil fun ⟨_, h, _⟩ => by cases h⟩
  | append_singleton items item ih =>
    rw [List.foldl_append, List.map_append]
    exact ih.grant item

theorem grants_drop (parse : GrantParse) (conflicted : List String) (old : String) :
    (conflicted.foldl GrantParse.drop parse).grants.lookup old =
      if old ∈ conflicted then none else parse.grants.lookup old := by
  induction conflicted generalizing parse with
  | nil => rfl
  | cons c conflicted ih =>
    rw [List.foldl_cons, ih, GrantParse.drop]
    dsimp only
    rw [Assoc.lookup_pop]
    by_cases hmem : old ∈ conflicted
    · rw [if_pos hmem, if_pos (List.mem_cons_of_mem _ hmem)]
    · rw [if_neg hmem]
      by_cases hc : old = c
      · rw [if_pos hc, if_pos (List.mem_cons.mpr (.inl hc))]
      · rw [if_neg hc, if_neg fun h => (List.mem_cons.mp h).elim hc hmem]

/-- The first pair of a ticket, when no pair disagrees with it. -/
theorem granted_iff {pairs : List (String × String)} : Granted pairs old new ↔
    pairs.lookup old = some new ∧ ¬ ∃ new', (old, new') ∈ pairs ∧ pairs.lookup old ≠ some new' := by
  constructor
  · rintro ⟨hmem, honly⟩
    have hlookup : pairs.lookup old = some new := by
      cases hfirst : pairs.lookup old with
      | none => exact absurd (List.mem_map_of_mem (f := Prod.fst) hmem) (Assoc.notMem_iff_lookup.mpr hfirst)
      | some v => rw [honly v (Assoc.mem_of_lookup hfirst)]
    refine ⟨hlookup, ?_⟩
    rintro ⟨new', hmem', hne⟩
    exact hne (by rw [hlookup, honly new' hmem'])
  · rintro ⟨hlookup, hagree⟩
    refine ⟨Assoc.mem_of_lookup hlookup, fun new' hmem' => ?_⟩
    by_contra hne
    exact hagree ⟨new', hmem', fun h => hne (Option.some.inj (hlookup.symm.trans h)).symm⟩

/-- What the scanner grants, in terms of its own fences. -/
theorem authorityGrants_lookup (text : String) : (authorityGrants text).grants.lookup old = some new ↔
    Granted (listed codeFence none (splitLines text)) old new := by
  obtain ⟨items, hscan, hitems⟩ := scan_items none 0 {} [] (splitLines text)
  have hreads := reads_items items
  rw [hitems, ← hscan] at hreads
  rw [authorityGrants]
  dsimp only
  rw [grants_drop, granted_iff]
  by_cases hconflict : old ∈ (scan none 0 {} [] (splitLines text)).1.conflicted
  · rw [if_pos (List.mem_mergeSort.mpr hconflict)]
    exact iff_of_false (fun h => by cases h) fun h => h.2 ((hreads.conflicted old).mp hconflict)
  · rw [if_neg (fun h => hconflict (List.mem_mergeSort.mp h)), hreads.grants, ← hreads.conflicted, and_iff_left hconflict]

/-! ### Two readings of the fences -/

/-- The pairs of the capsules with their header in the first lines, which are followed by others. -/
def listedBefore (step : Option σ → String → Option σ) (fence : Option σ) (lines : List String) :
    List String → List (String × String)
  | [] => []
  | line :: rest =>
      (if fence.isNone then capsule line (rest ++ lines) else []) ++ listedBefore step (step fence line) lines rest

theorem listed_append (step : Option σ → String → Option σ) (fence : Option σ) (pre lines : List String) :
    listed step fence (pre ++ lines) =
      listedBefore step fence lines pre ++ listed step (pre.foldl step fence) lines := by
  induction pre generalizing fence with
  | nil => rfl
  | cons line pre ih => rw [List.cons_append, listed, listedBefore, ih, List.append_assoc, List.foldl_cons]

/-- No fence is ever open. -/
def noFence (_ : Option Unit) (_ : String) : Option Unit := none

theorem foldl_noFence (lines : List String) : lines.foldl noFence none = none := by
  induction lines with
  | nil => rfl
  | cons line lines ih => exact ih

/-- Every listed pair is in some capsule of the text. -/
theorem listed_subset (step : Option σ → String → Option σ) (fence : Option σ) (lines : List String) :
    listed step fence lines ⊆ listed noFence none lines := by
  induction lines generalizing fence with
  | nil => exact List.Subset.refl _
  | cons line rest ih =>
    rw [listed, listed]
    refine List.append_subset.mpr ⟨?_, List.Subset.trans (ih _) (List.subset_append_right _ _)⟩
    by_cases hfence : fence.isNone = true
    · rw [if_pos hfence]
      exact List.subset_append_left _ _
    · rw [if_neg hfence]
      exact List.nil_subset _

theorem listedBefore_subset (step : Option σ → String → Option σ) (fence : Option σ) (pre lines : List String) :
    listedBefore step fence lines pre ⊆ listedBefore noFence none lines pre := by
  induction pre generalizing fence with
  | nil => exact List.Subset.refl _
  | cons line rest ih =>
    rw [listedBefore, listedBefore]
    refine List.append_subset.mpr ⟨?_, List.Subset.trans (ih _) (List.subset_append_right _ _)⟩
    by_cases hfence : fence.isNone = true
    · rw [if_pos hfence]
      exact List.subset_append_left _ _
    · rw [if_neg hfence]
      exact List.nil_subset _

/-- Two readings of the fences agree at the header of every closed, well-formed capsule. -/
def AgreeAt (f : Option σ → String → Option σ) (g : Option τ → String → Option τ) (fence : Option σ)
    (fence' : Option τ) (lines : List String) : Prop :=
  ∀ pre line rest, lines = pre ++ line :: rest → capsule line rest ≠ [] →
    (pre.foldl f fence = none ↔ pre.foldl g fence' = none)

/-- Readings that agree at every capsule list the same pairs. -/
theorem listed_congr {f : Option σ → String → Option σ} {g : Option τ → String → Option τ} {fence : Option σ}
    {fence' : Option τ} (h : AgreeAt f g fence fence' lines) : listed f fence lines = listed g fence' lines := by
  induction lines generalizing fence fence' with
  | nil => rfl
  | cons line rest ih =>
    have hrest : AgreeAt f g (f fence line) (g fence' line) rest := fun pre line' rest' heq hcapsule =>
      h (line :: pre) line' rest' (congrArg _ heq) hcapsule
    rw [listed, listed, ih hrest]
    congr 1
    by_cases hcapsule : capsule line rest = []
    · rw [hcapsule, ite_self, ite_self]
    · have hagree : fence = none ↔ fence' = none := h [] line rest rfl hcapsule
      cases fence <;> cases fence' <;> simp_all

/-- Where no ticket is listed twice, readings that grant the same pairs agree at every capsule. -/
theorem agree_of_granted {f : Option σ → String → Option σ} {g : Option τ → String → Option τ} {fence : Option σ}
    {fence' : Option τ} (hsingle : ((listed noFence none lines).map Prod.fst).Nodup)
    (h : ∀ old new, Granted (listed f fence lines) old new → Granted (listed g fence' lines) old new)
    {pre : List String} (heq : lines = pre ++ line :: rest) (hcapsule : capsule line rest ≠ [])
    (hf : pre.foldl f fence = none) : pre.foldl g fence' = none := by
  subst heq
  obtain ⟨⟨old, new⟩, hpair⟩ := List.exists_mem_of_ne_nil _ hcapsule
  have hlisted : (old, new) ∈ listed f fence (pre ++ line :: rest) := by
    rw [listed_append, listed, hf]
    exact List.mem_append_right _ (List.mem_append_left _ hpair)
  have hgranted : Granted (listed f fence (pre ++ line :: rest)) old new := by
    refine ⟨hlisted, fun new' hmem => ?_⟩
    have hfirst := (Assoc.mem_iff_lookup hsingle old new).mp (listed_subset _ _ _ hlisted)
    have hfirst' := (Assoc.mem_iff_lookup hsingle old new').mp (listed_subset _ _ _ hmem)
    exact Option.some.inj (hfirst'.symm.trans hfirst)
  by_contra hg
  obtain ⟨s, hs⟩ := Option.ne_none_iff_exists'.mp hg
  -- in the other reading it is listed in front of this capsule or behind it, where no other pair of it is
  rw [listed_append, show pre.foldl noFence none = none from foldl_noFence pre, listed, List.map_append,
    List.map_append] at hsingle
  obtain ⟨-, hbehind, hbefore⟩ := List.nodup_append.mp hsingle
  obtain ⟨-, -, hdisjoint⟩ := List.nodup_append.mp hbehind
  have hhere : old ∈ (capsule line rest).map Prod.fst := List.mem_map_of_mem (f := Prod.fst) hpair
  have hother := (h old new hgranted).1
  rw [listed_append, hs, listed_some] at hother
  rcases List.mem_append.mp hother with hother | hother
  · have hmem := List.mem_map_of_mem (f := Prod.fst) (listedBefore_subset _ _ _ _ hother)
    exact hbefore old hmem old (List.mem_append_left _ hhere) rfl
  · have hmem := List.mem_map_of_mem (f := Prod.fst) (listed_subset _ _ _ hother)
    exact hdisjoint old hhere old hmem rfl

/-! ### The law of capsules -/

/-- A text grants exactly the pairs of its capsules outside Markdown's fences that no other capsule there
contradicts. -/
def GrantsExactly (text : String) : Prop :=
  ∀ old new, (authorityGrants text).grants.lookup old = some new ↔
    Granted (listed markdownFence none (splitLines text)) old new

/-- No ticket is listed twice, wherever the capsules are. -/
def ListsOnce (text : String) : Prop := ((listed noFence none (splitLines text)).map Prod.fst).Nodup

/-- **Capsules.** Where the scanner's fences agree with Markdown's at the header of every closed, well-formed
capsule, the grants are exact; and where no ticket is listed twice, they are exact only there. -/
theorem grantsExactly_of_agree (text : String) :
    (AgreeAt codeFence markdownFence none none (splitLines text) → GrantsExactly text) ∧
      (ListsOnce text → GrantsExactly text → AgreeAt codeFence markdownFence none none (splitLines text)) := by
  constructor
  · intro hagree old new
    rw [authorityGrants_lookup, listed_congr hagree]
  · intro hsingle hexact pre line rest heq hcapsule
    have hgranted : ∀ old new, Granted (listed codeFence none (splitLines text)) old new ↔
        Granted (listed markdownFence none (splitLines text)) old new := fun old new => by
      rw [← authorityGrants_lookup, hexact old new]
    exact ⟨agree_of_granted hsingle (fun old new => (hgranted old new).mp) heq hcapsule,
      agree_of_granted hsingle (fun old new => (hgranted old new).mpr) heq hcapsule⟩

/-- The characters of a fence of four. -/
def longFence : String := String.ofList (List.replicate 4 backtick)

/-- The characters of a fence of three. -/
def shortFence : String := String.ofList (List.replicate 3 backtick)

/-- A capsule in a fence of four characters, behind a line of three. -/
def quoted : String :=
  "\n".intercalate [longFence, shortFence, grantHeader, "T-1 - T-2", grantTerminator, shortFence, longFence]

/-- The line of three ends the fence for the scanner, and the quoted capsule grants its pair. -/
theorem quoted_capsule_grants : (authorityGrants quoted).grants.lookup "T-1" = some "T-2" ∧
    listed markdownFence none (splitLines quoted) = [] := by
  refine ⟨?_, by decide +kernel⟩
  rw [authorityGrants_lookup]
  have hlisted : listed codeFence none (splitLines quoted) = [("T-1", "T-2")] := by decide +kernel
  rw [hlisted]
  exact ⟨List.mem_singleton_self _, fun new' h => (Prod.mk.inj (List.mem_singleton.mp h)).2⟩

/-- The readings agree where there is no fence. -/
theorem agreeAt_of_noRun (h : ∀ line ∈ lines, fenceRun line = none) :
    AgreeAt codeFence markdownFence none none lines := by
  rintro pre line rest rfl -
  have hpre : ∀ l ∈ pre, fenceRun l = none := fun l hl => h l (List.mem_append_left _ hl)
  clear h
  induction pre with
  | nil => exact iff_of_true rfl rfl
  | cons l pre ih =>
    have hl := hpre l List.mem_cons_self
    have hcode : codeFence none l = none := by
      show (fenceRun l).map (·.1) = none
      rw [hl, Option.map_none]
    have hmarkdown : markdownFence none l = none := by
      simp only [markdownFence, hl]
    rw [List.foldl_cons, List.foldl_cons, hcode, hmarkdown]
    exact ih fun m hm => hpre m (List.mem_cons_of_mem _ hm)

/-- A capsule without a fence. -/
def plain : String := "\n".intercalate [grantHeader, "T-1 - T-2", grantTerminator]

/-- It grants what it states. -/
theorem plain_capsule_grants : (authorityGrants plain).grants.lookup "T-1" = some "T-2" ∧ GrantsExactly plain := by
  have hagree : AgreeAt codeFence markdownFence none none (splitLines plain) :=
    agreeAt_of_noRun (by decide +kernel)
  have hexact := (grantsExactly_of_agree plain).1 hagree
  refine ⟨(hexact "T-1" "T-2").mpr ?_, hexact⟩
  have hlisted : listed markdownFence none (splitLines plain) = [("T-1", "T-2")] := by decide +kernel
  rw [hlisted]
  exact ⟨List.mem_singleton_self _, fun new' h => (Prod.mk.inj (List.mem_singleton.mp h)).2⟩

end Saipen.Supersession
