import Saipen.Json.Compact
import Saipen.Storage.Order
import Saipen.Text.Case

/-! # The digest of a directory tree

`_hash_directory` hashes a JSON text of the paths of the directories and of the path, the digest and the size of
every file. The text is read in one way, so the digest names the walk; it names the tree where the walk does. -/

namespace Saipen.Storage

open Text Sorting Json

variable (sha : Bytes → String) (casefold : String → String)

/-- `as_posix` of a path that is relative to the tree. -/
def asPosix (p : Path) : String := (String.singleton '/').intercalate p

/-- The entry of a file: its path, the digest of its content and its size. -/
def fileEntry (f : Path × Bytes) : String × String × Nat := (asPosix f.1, sha f.2, f.2.length)

/-- The entry in JSON. -/
def entryText (e : String × String × Nat) : List Char :=
  array [quotedRaw e.1, quotedRaw e.2.1, e.2.2.repr.toList]

/-- `json.dumps` of what was collected. -/
def encoded (w : Walked) : String :=
  String.ofList ("\x7b\"directories\":".toList ++ (array (w.directories.map fun p => quotedRaw (asPosix p)) ++
    (",\"files\":".toList ++ (array ((w.files.map (fileEntry sha)).map entryText) ++ "\x7d".toList))))

/-- `_hash_directory`: the digest of the tree and the bytes in it. -/
def hashDirectory (t : Tree) : String × Nat :=
  let w := t.walk casefold
  (sha (encodeUtf8 (encoded sha w)), (w.files.map fun f => f.2.length).sum)

variable {sha casefold} {t t' l l' : Tree} {w w' : Walked} {p q : Path} {content : Bytes}

/-! ### The text is read in one way -/

theorem prefixCode_entryText : PrefixCode entryText := by
  have hsize := prefixCode_lastNat.between [','] []
  have hdigest := (prefixCode_quotedRaw.between [','] []).append hsize
  have hentry := (prefixCode_quotedRaw.append hdigest).between ['['] []
  have htext : entryText = fun e => ['['] ++ (quotedRaw e.1 ++ ([','] ++ (quotedRaw e.2.1 ++ []) ++
      ([','] ++ (e.2.2.repr.toList ++ [']'] ++ []))) ++ []) := by
    funext e
    simp [entryText, array, Json.sequence]
  rw [htext]
  exact hentry

theorem encoded_injective (h : encoded sha w = encoded sha w') :
    w.directories.map asPosix = w'.directories.map asPosix ∧
      w.files.map (fileEntry sha) = w'.files.map (fileEntry sha) := by
  have hquoted : ∀ s : String, ∃ c cs, quotedRaw s = c :: cs ∧ c ≠ ']' := fun s => ⟨'"', _, rfl, by decide⟩
  have hentry : ∀ e : String × String × Nat, ∃ c cs, entryText e = c :: cs ∧ c ≠ ']' :=
    fun e => ⟨'[', _, rfl, by decide⟩
  have hmap : ∀ v : Walked, (v.directories.map fun p => quotedRaw (asPosix p)) =
      (v.directories.map asPosix).map quotedRaw := by
    intro v
    rw [List.map_map]
    rfl
  have htext := List.append_cancel_left (String.ofList_inj.mp h)
  rw [hmap, hmap] at htext
  obtain ⟨hdirectories, hrest⟩ := (prefixCode_quotedRaw.array hquoted) _ _ _ _ htext
  obtain ⟨hfiles, -⟩ := (prefixCode_entryText.array hentry) _ _ _ _ (List.append_cancel_left hrest)
  exact ⟨hdirectories, hfiles⟩

/-! ### Paths are read off their spelling -/

theorem isEntryName_of_hasDirectory (hvalid : t.Valid) (h : t.HasDirectory p) : ∀ name ∈ p, IsEntryName name := by
  induction h with
  | here hmem =>
    cases hvalid with
    | dir _ hentries _ =>
      intro name hname
      rw [List.mem_singleton.mp hname]
      exact hentries _ (List.mem_append_left _ (List.mem_map_of_mem hmem))
  | within hmem _ ih =>
    cases hvalid with
    | dir _ hentries hall =>
      intro name hname
      rcases List.mem_cons.mp hname with rfl | hrest
      · exact hentries _ (List.mem_append_left _ (List.mem_map_of_mem hmem))
      · exact ih (hall _ hmem) name hrest

theorem isEntryName_of_hasFile (hvalid : t.Valid) (h : t.HasFile p content) : ∀ name ∈ p, IsEntryName name := by
  induction h with
  | here hmem =>
    cases hvalid with
    | dir _ hentries _ =>
      intro name hname
      rw [List.mem_singleton.mp hname]
      exact hentries _ (List.mem_append_right _ (List.mem_map_of_mem hmem))
  | within hmem _ ih =>
    cases hvalid with
    | dir _ hentries hall =>
      intro name hname
      rcases List.mem_cons.mp hname with rfl | hrest
      · exact hentries _ (List.mem_append_left _ (List.mem_map_of_mem hmem))
      · exact ih (hall _ hmem) name hrest

theorem split_asPosix (hne : p ≠ []) (h : ∀ name ∈ p, IsEntryName name) : split '/' (asPosix p) = p :=
  split_intercalate (fun name hname => (h name hname).2.2.2) hne

/-- What a list was made of, where the entries tell. -/
theorem map_leftInverse {α β : Type} {f : α → β} {g : β → α} {xs : List α} (h : ∀ x ∈ xs, g (f x) = x) :
    (xs.map f).map g = xs := by
  rw [List.map_map]
  exact (List.map_congr_left h).trans (List.map_id xs)

theorem directories_of_spelled (hvalid : t.Valid) :
    ((t.walk casefold).directories.map asPosix).map (split '/') = (t.walk casefold).directories := by
  refine map_leftInverse fun p hp => ?_
  have hdir := (mem_walk_directories t p).mp hp
  exact split_asPosix hdir.ne_nil (isEntryName_of_hasDirectory hvalid hdir)

theorem files_of_spelled (hsha : Function.Injective sha) (hvalid : t.Valid) :
    ((t.walk casefold).files.map (fileEntry sha)).map (fun e => (split '/' e.1, Function.invFun sha e.2.1)) =
      (t.walk casefold).files := by
  refine map_leftInverse ?_
  rintro ⟨p, content⟩ hp
  have hfile := (mem_walk_files t p content).mp hp
  refine Prod.ext (split_asPosix hfile.ne_nil (isEntryName_of_hasFile hvalid hfile)) ?_
  exact Function.leftInverse_invFun hsha content

/-- The digest names the walk. -/
theorem hashDirectory_eq_iff (hsha : Function.Injective sha) (hvalid : t.Valid) (hvalid' : t'.Valid) :
    (hashDirectory sha casefold t).1 = (hashDirectory sha casefold t').1 ↔ t.walk casefold = t'.walk casefold := by
  constructor
  · intro h
    obtain ⟨hdirectories, hfiles⟩ := encoded_injective (encodeUtf8_injective (hsha h))
    refine Walked.ext ?_ ?_
    · rw [← directories_of_spelled hvalid, hdirectories, directories_of_spelled hvalid']
    · rw [← files_of_spelled hsha hvalid, hfiles, files_of_spelled hsha hvalid']
  · intro h
    rw [hashDirectory, hashDirectory, h]

/-! ### What the digest identifies -/

theorem same_iff_of_lists (hl : l.Lists t) (hl' : l'.Lists t') : l.Same l' ↔ t.Same t' :=
  ⟨fun h => hl.2.symm.trans (h.trans hl'.2), fun h => hl.2.trans (h.trans hl'.2.symm)⟩

/-- Equal digests, for every listing of the two trees, exactly when the trees are equal: this holds of two trees
if and only if they differ, or no directory of them has two directories or two files whose names fold to one. -/
theorem hashDirectory_identifies_iff (hsha : Function.Injective sha) (hvalid : t.Valid) :
    (∀ l l' : Tree, l.Lists t → l'.Lists t' →
      ((hashDirectory sha casefold l).1 = (hashDirectory sha casefold l').1 ↔ t.Same t')) ↔
      (t.Same t' → Settled casefold t) := by
  constructor
  · intro h hsame
    refine (walk_order_iff hvalid hsame).mp fun l l' hl hl' => ?_
    exact (hashDirectory_eq_iff hsha hl.1 hl'.1).mp ((h l l' hl hl').mpr hsame)
  · intro h l l' hl hl'
    rw [hashDirectory_eq_iff hsha hl.1 hl'.1]
    constructor
    · exact fun hwalk => (same_iff_of_lists hl hl').mp (same_of_walk hwalk)
    · exact fun hsame => (walk_order_iff hvalid hsame).mpr (h hsame) l l' hl hl'

/-! ### Samples -/

/-- A digest that no two contents share. -/
def sampleSha (b : Bytes) : String := asciiText b

theorem sampleSha_injective : Function.Injective sampleSha := by
  have hchar : Function.Injective fun b : UInt8 => Char.ofNat b.toNat := by
    intro a b h
    have hnat := congrArg Char.toNat h
    have hsmall : ∀ n < 256, (Char.ofNat n).toNat = n := by decide +kernel
    rw [hsmall _ a.toNat_lt, hsmall _ b.toNat_lt] at hnat
    exact UInt8.toNat_inj.mp hnat
  intro a b h
  exact List.map_injective_iff.mpr hchar (String.ofList_inj.mp h)

/-- A directory with two files whose names differ only in the case of a letter. -/
def twins : Tree := .dir [] [("a", []), ("A", [])]

/-- A directory with a file in a directory. -/
def nested : Tree := .dir [("d", .dir [] [("a", [1])])] [("b", [])]

theorem twins_valid : twins.Valid := .dir (by decide) (by decide) (fun _ h => by cases h)

theorem nested_valid : nested.Valid := by
  refine .dir (by decide) (by decide) fun d hd => ?_
  rw [List.mem_singleton.mp hd]
  exact .dir (by decide) (by decide) fun _ h => by cases h

theorem nested_settled : Settled lower nested := by
  refine settled_dir (by decide) (by decide) (by decide) fun d hd => ?_
  rw [List.mem_singleton.mp hd]
  exact settled_dir (by decide) (by decide) (by decide) fun _ h => by cases h

theorem nested_identified : Settled lower nested ∧ ∀ l l' : Tree, l.Lists nested → l'.Lists nested →
    ((hashDirectory sampleSha lower l).1 = (hashDirectory sampleSha lower l').1 ↔ nested.Same nested) :=
  ⟨nested_settled, (hashDirectory_identifies_iff sampleSha_injective nested_valid).mpr fun _ => nested_settled⟩

theorem same_refl (t : Tree) : t.Same t := ⟨fun _ => Iff.rfl, fun _ _ => Iff.rfl⟩

/-- The two listings of a directory with such files have digests of their own. -/
theorem twins_digests_differ :
    twins.reversed.Lists twins ∧
      (hashDirectory sampleSha lower twins.reversed).1 ≠ (hashDirectory sampleSha lower twins).1 ∧
      ¬ ∀ t t' : Tree, t.Valid → ∀ l l' : Tree, l.Lists t → l'.Lists t' →
        ((hashDirectory sampleSha lower l).1 = (hashDirectory sampleSha lower l').1 ↔ t.Same t') := by
  have hlists : twins.reversed.Lists twins := ⟨valid_reversed twins twins_valid, same_reversed twins⟩
  have hdiffer : (hashDirectory sampleSha lower twins.reversed).1 ≠ (hashDirectory sampleSha lower twins).1 := by
    intro h
    have hwalk := (hashDirectory_eq_iff sampleSha_injective hlists.1 twins_valid).mp h
    have hone := (settled_of_walk_reversed twins twins_valid hwalk).files [] "a" "A" [] []
      (.here (by decide)) (.here (by decide)) (by decide)
    exact absurd hone (by decide)
  refine ⟨hlists, hdiffer, fun h => hdiffer ?_⟩
  exact (h twins twins twins_valid twins.reversed twins hlists ⟨twins_valid, same_refl twins⟩).mpr (same_refl twins)

end Saipen.Storage
