import Saipen.Sorting
import Saipen.Text.Codec
import Mathlib.Data.String.Basic

/-! # Walking a directory tree

`os.walk` lists a directory in an order that the program does not choose. `_hash_directory` sorts the two lists of
every directory by the case folding of the names, and goes into the directories in that order. -/

namespace Saipen.Storage

open Text Sorting

/-! ### Trees -/

/-- A directory, its directories and its files in the order in which the file system lists them. -/
inductive Tree where
  | dir (directories : List (String × Tree)) (files : List (String × Bytes))

/-- The names below a directory. -/
abbrev Path := List String

/-- There is a directory at a path. -/
inductive Tree.HasDirectory : Tree → Path → Prop
  | here {directories : List (String × Tree)} {files : List (String × Bytes)} {name : String} {t : Tree} :
      (name, t) ∈ directories → HasDirectory (.dir directories files) [name]
  | within {directories : List (String × Tree)} {files : List (String × Bytes)} {name : String} {t : Tree} {p : Path} :
      (name, t) ∈ directories → t.HasDirectory p → HasDirectory (.dir directories files) (name :: p)

/-- There is a file with a content at a path. -/
inductive Tree.HasFile : Tree → Path → Bytes → Prop
  | here {directories : List (String × Tree)} {files : List (String × Bytes)} {name : String} {content : Bytes} :
      (name, content) ∈ files → HasFile (.dir directories files) [name] content
  | within {directories : List (String × Tree)} {files : List (String × Bytes)} {name : String} {t : Tree} {p : Path}
      {content : Bytes} : (name, t) ∈ directories → t.HasFile p content →
      HasFile (.dir directories files) (name :: p) content

/-- The same directories, the same files, the same contents. -/
structure Tree.Same (t t' : Tree) : Prop where
  directories : ∀ p, t.HasDirectory p ↔ t'.HasDirectory p
  files : ∀ p content, t.HasFile p content ↔ t'.HasFile p content

/-- A name that a file system can hold. -/
def IsEntryName (name : String) : Prop := name ≠ "" ∧ name ≠ "." ∧ name ≠ ".." ∧ '/' ∉ name.toList

instance (name : String) : Decidable (IsEntryName name) := inferInstanceAs (Decidable (_ ∧ _))

/-- The names of the entries of a directory. -/
def entryNames (directories : List (String × Tree)) (files : List (String × Bytes)) : List String :=
  directories.map Prod.fst ++ files.map Prod.fst

/-- No two entries of a directory have one name. -/
inductive Tree.Valid : Tree → Prop
  | dir {directories : List (String × Tree)} {files : List (String × Bytes)} :
      (entryNames directories files).Nodup → (∀ name ∈ entryNames directories files, IsEntryName name) →
      (∀ d ∈ directories, d.2.Valid) → Tree.Valid (.dir directories files)

/-- The same tree, listed in whatever order. -/
def Tree.Lists (l t : Tree) : Prop := l.Valid ∧ l.Same t

mutual
/-- What holds of a directory when it holds of its directories holds of every tree. -/
theorem Tree.induct {motive : Tree → Prop}
    (dir : ∀ directories files, (∀ d ∈ directories, motive d.2) → motive (.dir directories files)) :
    ∀ t : Tree, motive t
  | .dir directories files => dir directories files (Tree.inductAll dir directories)

theorem Tree.inductAll {motive : Tree → Prop}
    (dir : ∀ directories files, (∀ d ∈ directories, motive d.2) → motive (.dir directories files)) :
    ∀ directories : List (String × Tree), ∀ d ∈ directories, motive d.2
  | [], _, h => by cases h
  | (name, t) :: rest, d, h => by
      rcases List.mem_cons.mp h with rfl | hrest
      · exact Tree.induct dir t
      · exact Tree.inductAll dir rest d hrest
end

/-! ### Entries -/

variable {directories : List (String × Tree)} {files : List (String × Bytes)} {p : Path} {content : Bytes}

theorem hasDirectory_dir : (Tree.dir directories files).HasDirectory p ↔
    ∃ d ∈ directories, p = [d.1] ∨ ∃ q, p = d.1 :: q ∧ d.2.HasDirectory q := by
  constructor
  · intro h
    cases h with
    | here hmem => exact ⟨_, hmem, .inl rfl⟩
    | within hmem hrest => exact ⟨_, hmem, .inr ⟨_, rfl, hrest⟩⟩
  · rintro ⟨⟨name, t⟩, hmem, rfl | ⟨q, rfl, hrest⟩⟩
    · exact .here hmem
    · exact .within hmem hrest

theorem hasFile_dir : (Tree.dir directories files).HasFile p content ↔
    (∃ f ∈ files, p = [f.1] ∧ content = f.2) ∨ ∃ d ∈ directories, ∃ q, p = d.1 :: q ∧ d.2.HasFile q content := by
  constructor
  · intro h
    cases h with
    | here hmem => exact .inl ⟨_, hmem, rfl, rfl⟩
    | within hmem hrest => exact .inr ⟨_, hmem, _, rfl, hrest⟩
  · rintro (⟨⟨name, content⟩, hmem, rfl, rfl⟩ | ⟨⟨name, t⟩, hmem, q, rfl, hrest⟩)
    · exact .here hmem
    · exact .within hmem hrest

theorem Tree.HasDirectory.ne_nil {t : Tree} (h : t.HasDirectory p) : p ≠ [] := by
  cases h <;> exact List.cons_ne_nil _ _

theorem Tree.HasFile.ne_nil {t : Tree} (h : t.HasFile p content) : p ≠ [] := by
  cases h <;> exact List.cons_ne_nil _ _

/-- The directories in a directory are those of its list. -/
theorem hasDirectory_single {name : String} :
    (Tree.dir directories files).HasDirectory [name] ↔ name ∈ directories.map Prod.fst := by
  rw [hasDirectory_dir, List.mem_map]
  refine exists_congr fun d => and_congr_right fun _ => ⟨?_, fun h => .inl (by rw [h])⟩
  rintro (h | ⟨q, h, hrest⟩)
  · exact (List.cons.inj h).1.symm
  · exact (List.cons.inj h).1.symm

/-- The files in a directory are those of its list. -/
theorem hasFile_single {name : String} :
    (Tree.dir directories files).HasFile [name] content ↔ (name, content) ∈ files := by
  rw [hasFile_dir]
  constructor
  · rintro (⟨f, hmem, hname, rfl⟩ | ⟨d, -, q, hpath, hrest⟩)
    · rwa [(List.cons.inj hname).1]
    · exact absurd (List.cons.inj hpath).2.symm hrest.ne_nil
  · exact fun h => .inl ⟨_, h, rfl, rfl⟩

theorem eq_of_fst {α β : Type} {l : List (α × β)} (hnodup : (l.map Prod.fst).Nodup) {a : α} {b b' : β} (h : (a, b) ∈ l)
    (h' : (a, b') ∈ l) : b = b' :=
  (Prod.mk.inj (List.inj_on_of_nodup_map hnodup h h' rfl)).2

/-- Below a name there is what its directory holds. -/
theorem hasDirectory_below {name : String} {t : Tree} (hnodup : (directories.map Prod.fst).Nodup)
    (h : (name, t) ∈ directories) (hp : p ≠ []) :
    (Tree.dir directories files).HasDirectory (name :: p) ↔ t.HasDirectory p := by
  refine ⟨fun hdir => ?_, .within h⟩
  obtain ⟨⟨name', t'⟩, hmem, hpath | ⟨q, hpath, hrest⟩⟩ := hasDirectory_dir.mp hdir
  · exact absurd (List.cons.inj hpath).2 hp
  · obtain ⟨rfl, rfl⟩ := List.cons.inj hpath
    rwa [eq_of_fst hnodup h hmem]

theorem hasFile_below {name : String} {t : Tree} (hnodup : (directories.map Prod.fst).Nodup)
    (h : (name, t) ∈ directories) (hp : p ≠ []) :
    (Tree.dir directories files).HasFile (name :: p) content ↔ t.HasFile p content := by
  refine ⟨fun hfile => ?_, .within h⟩
  rcases hasFile_dir.mp hfile with ⟨f, -, hpath, -⟩ | ⟨⟨name', t'⟩, hmem, q, hpath, hrest⟩
  · exact absurd (List.cons.inj hpath).2 hp
  · obtain ⟨rfl, rfl⟩ := List.cons.inj hpath
    rwa [eq_of_fst hnodup h hmem]

theorem Tree.Valid.nodup (h : (Tree.dir directories files).Valid) :
    (directories.map Prod.fst).Nodup ∧ (files.map Prod.fst).Nodup := by
  cases h with
  | dir hnodup _ _ => exact ⟨(List.nodup_append.mp hnodup).1, (List.nodup_append.mp hnodup).2.1⟩

theorem Tree.Valid.directory (h : (Tree.dir directories files).Valid) {d : String × Tree} (hd : d ∈ directories) :
    d.2.Valid := by
  cases h with
  | dir _ _ hall => exact hall d hd

theorem Tree.Same.symm {t t' : Tree} (h : t.Same t') : t'.Same t :=
  ⟨fun p => (h.directories p).symm, fun p content => (h.files p content).symm⟩

theorem Tree.Same.trans {t t' t'' : Tree} (h : t.Same t') (h' : t'.Same t'') : t.Same t'' :=
  ⟨fun p => (h.directories p).trans (h'.directories p), fun p content => (h.files p content).trans (h'.files p content)⟩

/-- What two directories have below one name is the same when they are. -/
theorem Tree.Same.below {directories' : List (String × Tree)} {files' : List (String × Bytes)} {name : String} {t t' : Tree}
    (hsame : (Tree.dir directories files).Same (.dir directories' files')) (hnodup : (directories.map Prod.fst).Nodup)
    (hnodup' : (directories'.map Prod.fst).Nodup) (h : (name, t) ∈ directories) (h' : (name, t') ∈ directories') :
    t.Same t' := by
  refine ⟨fun p => ?_, fun p content => ?_⟩
  · by_cases hp : p = []
    · subst hp
      exact iff_of_false (fun hdir => hdir.ne_nil rfl) fun hdir => hdir.ne_nil rfl
    · have hdir := hsame.directories (name :: p)
      rwa [hasDirectory_below hnodup h hp, hasDirectory_below hnodup' h' hp] at hdir
  · by_cases hp : p = []
    · subst hp
      exact iff_of_false (fun hfile => hfile.ne_nil rfl) fun hfile => hfile.ne_nil rfl
    · have hfile := hsame.files (name :: p) content
      rwa [hasFile_below hnodup h hp, hasFile_below hnodup' h' hp] at hfile

/-! ### The walk -/

/-- What the walk collects: the directories and the files, each with its path. -/
@[ext] structure Walked where
  directories : List Path
  files : List (Path × Bytes)

variable (casefold : String → String)

/-- What a directory adds to what was collected below it. -/
def gather (directories : List (String × Walked)) (files : List (String × Bytes)) : Walked where
  directories := (sortBy (casefold ∘ Prod.fst) directories).flatMap fun d => [d.1] :: d.2.directories.map (d.1 :: ·)
  files := (sortBy (casefold ∘ Prod.fst) files).map (fun f => ([f.1], f.2)) ++
    (sortBy (casefold ∘ Prod.fst) directories).flatMap fun d => d.2.files.map fun f => (d.1 :: f.1, f.2)

mutual
/-- The loop of `_hash_directory` over `os.walk`. -/
def Tree.walk : Tree → Walked
  | .dir directories files => gather casefold (walkAll directories) files

/-- The walks of the directories of a directory. -/
def walkAll : List (String × Tree) → List (String × Walked)
  | [] => []
  | (name, t) :: rest => (name, t.walk) :: walkAll rest
end

theorem walkAll_eq (directories : List (String × Tree)) :
    walkAll casefold directories = directories.map fun d => (d.1, d.2.walk casefold) := by
  induction directories with
  | nil => rfl
  | cons d rest ih =>
    obtain ⟨name, t⟩ := d
    rw [walkAll, ih, List.map_cons]

variable {casefold}

theorem mem_walk_directories (t : Tree) (p : Path) : p ∈ (t.walk casefold).directories ↔ t.HasDirectory p := by
  induction t using Tree.induct generalizing p with
  | dir directories files ih =>
    rw [Tree.walk, walkAll_eq, hasDirectory_dir]
    simp only [gather, List.mem_flatMap, mem_sortBy, List.mem_map, exists_exists_and_eq_and, List.mem_cons]
    refine exists_congr fun d => and_congr_right fun hd => or_congr Iff.rfl (exists_congr fun q => ?_)
    rw [ih d hd q, and_comm, eq_comm]

theorem mem_walk_files (t : Tree) (p : Path) (content : Bytes) :
    (p, content) ∈ (t.walk casefold).files ↔ t.HasFile p content := by
  induction t using Tree.induct generalizing p with
  | dir directories files ih =>
    rw [Tree.walk, walkAll_eq, hasFile_dir]
    simp only [gather, List.mem_append, List.mem_flatMap, mem_sortBy, List.mem_map, exists_exists_and_eq_and, Prod.mk.injEq]
    refine or_congr (exists_congr fun f => and_congr_right fun _ => ?_)
      (exists_congr fun d => and_congr_right fun hd => ?_)
    · rw [eq_comm, @eq_comm _ f.2]
    · constructor
      · rintro ⟨⟨q, c⟩, hmem, rfl, rfl⟩
        exact ⟨q, rfl, (ih d hd q).mp hmem⟩
      · rintro ⟨q, rfl, hfile⟩
        exact ⟨(q, content), (ih d hd q).mpr hfile, rfl, rfl⟩

/-- Trees of which the walk collects the same are the same. -/
theorem same_of_walk {t t' : Tree} (h : t.walk casefold = t'.walk casefold) : t.Same t' := by
  refine ⟨fun p => ?_, fun p content => ?_⟩
  · have hmem : p ∈ (t.walk casefold).directories ↔ t.HasDirectory p := mem_walk_directories t p
    rw [h, mem_walk_directories] at hmem
    exact hmem.symm
  · have hmem : (p, content) ∈ (t.walk casefold).files ↔ t.HasFile p content := mem_walk_files t p content
    rw [h, mem_walk_files] at hmem
    exact hmem.symm

end Saipen.Storage
