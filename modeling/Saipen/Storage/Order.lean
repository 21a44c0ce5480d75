import Saipen.Storage.Tree

/-! # The order of the walk

Two names that fold to one key are walked in the order in which the directory lists them. A walk that is the same
for every listing has no such names, and only then it is. -/

namespace Saipen.Storage

open Text Sorting

variable {casefold : String → String} {directories directories' : List (String × Tree)} {files files' : List (String × Bytes)}
  {p : Path} {content : Bytes} {name : String}

variable (casefold) in
/-- In no directory two directories or two files have names of one case folding. -/
structure Settled (t : Tree) : Prop where
  directories : ∀ p a b, t.HasDirectory (p ++ [a]) → t.HasDirectory (p ++ [b]) → casefold a = casefold b → a = b
  files : ∀ p a b content content', t.HasFile (p ++ [a]) content → t.HasFile (p ++ [b]) content' →
    casefold a = casefold b → a = b

theorem Settled.of_same {t t' : Tree} (h : Settled casefold t) (hsame : t.Same t') : Settled casefold t' := by
  refine ⟨fun p a b ha hb => ?_, fun p a b content content' ha hb => ?_⟩
  · exact h.directories p a b ((hsame.directories _).mpr ha) ((hsame.directories _).mpr hb)
  · exact h.files p a b content content' ((hsame.files _ _).mpr ha) ((hsame.files _ _).mpr hb)

theorem Settled.directory (h : Settled casefold (.dir directories files)) {d : String × Tree} (hd : d ∈ directories) :
    Settled casefold d.2 := by
  refine ⟨fun p a b ha hb => ?_, fun p a b content content' ha hb => ?_⟩
  · exact h.directories (d.1 :: p) a b (.within hd ha) (.within hd hb)
  · exact h.files (d.1 :: p) a b content content' (.within hd ha) (.within hd hb)

/-! ### A settled tree is walked in one order -/

theorem nodup_of_fst {α β : Type} {l : List (α × β)} (h : (l.map Prod.fst).Nodup) : l.Nodup :=
  List.Nodup.of_map _ h

theorem perm_of_same_files (hsame : (Tree.dir directories files).Same (.dir directories' files'))
    (hnodup : (files.map Prod.fst).Nodup) (hnodup' : (files'.map Prod.fst).Nodup) : files.Perm files' := by
  rw [List.perm_ext_iff_of_nodup (nodup_of_fst hnodup) (nodup_of_fst hnodup')]
  rintro ⟨name, content⟩
  have hfile := hsame.files [name] content
  rwa [hasFile_single, hasFile_single] at hfile

theorem names_of_same (hsame : (Tree.dir directories files).Same (.dir directories' files')) (name : String) :
    name ∈ directories.map Prod.fst ↔ name ∈ directories'.map Prod.fst := by
  have hdir := hsame.directories [name]
  rwa [hasDirectory_single, hasDirectory_single] at hdir

theorem fst_walkAll (directories : List (String × Tree)) :
    (walkAll casefold directories).map Prod.fst = directories.map Prod.fst := by
  rw [walkAll_eq, List.map_map]
  rfl

/-- The walks of the directories are the same but for their order, when those of each name are. -/
theorem perm_walkAll (hnodup : (directories.map Prod.fst).Nodup) (hnodup' : (directories'.map Prod.fst).Nodup)
    (hnames : ∀ name, name ∈ directories.map Prod.fst ↔ name ∈ directories'.map Prod.fst)
    (hwalk : ∀ name t t', (name, t) ∈ directories → (name, t') ∈ directories' → t.walk casefold = t'.walk casefold) :
    (walkAll casefold directories).Perm (walkAll casefold directories') := by
  have hn : (walkAll casefold directories).Nodup := nodup_of_fst (by rwa [fst_walkAll])
  have hn' : (walkAll casefold directories').Nodup := nodup_of_fst (by rwa [fst_walkAll])
  rw [List.perm_ext_iff_of_nodup hn hn']
  rintro ⟨name, w⟩
  rw [walkAll_eq, walkAll_eq, List.mem_map, List.mem_map]
  constructor
  · rintro ⟨⟨n, t⟩, hmem, heq⟩
    obtain ⟨rfl, rfl⟩ := Prod.mk.inj heq
    obtain ⟨⟨n', t'⟩, hmem', rfl⟩ := List.mem_map.mp ((hnames n).mp (List.mem_map_of_mem hmem))
    exact ⟨_, hmem', by rw [← hwalk n' t t' hmem hmem']⟩
  · rintro ⟨⟨n, t'⟩, hmem', heq⟩
    obtain ⟨rfl, rfl⟩ := Prod.mk.inj heq
    obtain ⟨⟨n', t⟩, hmem, rfl⟩ := List.mem_map.mp ((hnames n).mpr (List.mem_map_of_mem hmem'))
    exact ⟨_, hmem, by rw [hwalk n' t t' hmem hmem']⟩

theorem keys_nodup {α : Type} {l : List (String × α)} (hnodup : (l.map Prod.fst).Nodup)
    (h : ∀ a ∈ l.map Prod.fst, ∀ b ∈ l.map Prod.fst, casefold a = casefold b → a = b) :
    (l.map (casefold ∘ Prod.fst)).Nodup := by
  rw [← List.map_map]
  exact hnodup.map_on h

/-- The same tree is walked in the same way, whatever its listings, where no names tie. -/
theorem walk_eq_of_same (l : Tree) : ∀ l', l.Valid → l'.Valid → l.Same l' → Settled casefold l →
    l.walk casefold = l'.walk casefold := by
  induction l using Tree.induct with
  | dir directories files ih =>
    rintro ⟨directories', files'⟩ hvalid hvalid' hsame hsettled
    obtain ⟨hnames, hfiles⟩ := hvalid.nodup
    obtain ⟨hnames', hfiles'⟩ := hvalid'.nodup
    have hbelow : (walkAll casefold directories).Perm (walkAll casefold directories') :=
      perm_walkAll hnames hnames' (names_of_same hsame) fun name t t' h h' =>
        ih (name, t) h t' (hvalid.directory h) (hvalid'.directory h') (hsame.below hnames hnames' h h')
          (hsettled.directory h)
    have hdirectories : sortBy (casefold ∘ Prod.fst) (walkAll casefold directories) =
        sortBy (casefold ∘ Prod.fst) (walkAll casefold directories') := by
      refine sortBy_eq_of_perm hbelow (keys_nodup (by rwa [fst_walkAll]) ?_)
      intro a ha b hb
      rw [fst_walkAll] at ha hb
      exact hsettled.directories [] a b (hasDirectory_single.mpr ha) (hasDirectory_single.mpr hb)
    have hleaves : sortBy (casefold ∘ Prod.fst) files = sortBy (casefold ∘ Prod.fst) files' := by
      refine sortBy_eq_of_perm (perm_of_same_files hsame hfiles hfiles') (keys_nodup hfiles ?_)
      intro a ha b hb
      obtain ⟨⟨_, content⟩, hmem, rfl⟩ := List.mem_map.mp ha
      obtain ⟨⟨_, content'⟩, hmem', rfl⟩ := List.mem_map.mp hb
      exact hsettled.files [] _ _ content content' (hasFile_single.mpr hmem) (hasFile_single.mpr hmem')
    rw [Tree.walk, Tree.walk, gather, gather, hdirectories, hleaves]

/-! ### The listing the other way round -/

mutual
/-- Every directory is listed backwards. -/
def Tree.reversed : Tree → Tree
  | .dir directories files => .dir (reversedAll directories).reverse files.reverse

def reversedAll : List (String × Tree) → List (String × Tree)
  | [] => []
  | (name, t) :: rest => (name, t.reversed) :: reversedAll rest
end

theorem reversedAll_eq (directories : List (String × Tree)) :
    reversedAll directories = directories.map fun d => (d.1, d.2.reversed) := by
  induction directories with
  | nil => rfl
  | cons d rest ih =>
    obtain ⟨name, t⟩ := d
    rw [reversedAll, ih, List.map_cons]

theorem reversed_dir : (Tree.dir directories files).reversed =
    .dir (directories.map fun d => (d.1, d.2.reversed)).reverse files.reverse := by
  rw [Tree.reversed, reversedAll_eq]

theorem same_reversed (t : Tree) : t.reversed.Same t := by
  refine ⟨?_, ?_⟩
  · induction t using Tree.induct with
    | dir directories files ih =>
      intro p
      rw [reversed_dir, hasDirectory_dir, hasDirectory_dir]
      simp only [List.mem_reverse, List.mem_map, exists_exists_and_eq_and]
      exact exists_congr fun d => and_congr_right fun hd =>
        or_congr Iff.rfl (exists_congr fun q => and_congr_right fun _ => ih d hd q)
  · induction t using Tree.induct with
    | dir directories files ih =>
      intro p content
      rw [reversed_dir, hasFile_dir, hasFile_dir]
      simp only [List.mem_reverse, List.mem_map, exists_exists_and_eq_and]
      exact or_congr Iff.rfl (exists_congr fun d => and_congr_right fun hd =>
        exists_congr fun q => and_congr_right fun _ => ih d hd q content)

theorem valid_reversed (t : Tree) (h : t.Valid) : t.reversed.Valid := by
  induction t using Tree.induct with
  | dir directories files ih =>
    obtain ⟨hnodup, hentries, hall⟩ := h
    have hperm : (entryNames (directories.map fun d => (d.1, d.2.reversed)).reverse files.reverse).Perm
        (entryNames directories files) := by
      rw [entryNames, entryNames, List.map_reverse, List.map_map, List.map_reverse]
      exact (List.reverse_perm _).append (List.reverse_perm _)
    rw [reversed_dir]
    refine .dir (hperm.nodup_iff.mpr hnodup) (fun name hname => hentries name (hperm.mem_iff.mp hname)) ?_
    intro d hd
    obtain ⟨d, hmem, rfl⟩ := List.mem_map.mp (List.mem_reverse.mp hd)
    exact ih d hmem (hall d hmem)

/-! ### What a walk holds of one directory -/

/-- The name of a path of one name. -/
def single : Path → Option String
  | [name] => some name
  | _ => none

/-- What is left of a path below a name. -/
def beneath (name : String) : Path → Option Path
  | first :: second :: rest => if first = name then some (second :: rest) else none
  | _ => none

theorem single_cons (name : String) (hp : p ≠ []) : single (name :: p) = none := by
  cases p with
  | nil => exact absurd rfl hp
  | cons _ _ => rfl

theorem beneath_cons (name first : String) (hp : p ≠ []) :
    beneath name (first :: p) = if first = name then some p else none := by
  cases p with
  | nil => exact absurd rfl hp
  | cons _ _ => rfl

/-- No path of a walk is empty. -/
structure Walked.Named (w : Walked) : Prop where
  directories : ∀ p ∈ w.directories, p ≠ []
  files : ∀ f ∈ w.files, f.1 ≠ []

theorem named_walk (t : Tree) : (t.walk casefold).Named := by
  refine ⟨fun p hp => ((mem_walk_directories t p).mp hp).ne_nil, ?_⟩
  rintro ⟨p, content⟩ hf
  exact ((mem_walk_files t p content).mp hf).ne_nil

variable {ws : List (String × Walked)}

theorem single_directories (hnamed : ∀ d ∈ ws, d.2.Named) :
    (gather casefold ws files).directories.filterMap single = (sortBy (casefold ∘ Prod.fst) ws).map Prod.fst := by
  have hall : ∀ d ∈ sortBy (casefold ∘ Prod.fst) ws, d.2.Named := fun d hd => hnamed d (mem_sortBy.mp hd)
  rw [gather]
  dsimp only
  generalize sortBy (casefold ∘ Prod.fst) ws = ds at hall
  induction ds with
  | nil => rfl
  | cons d rest ih =>
    have hhead : ([d.1] :: d.2.directories.map (d.1 :: ·)).filterMap single =
        d.1 :: (d.2.directories.map (d.1 :: ·)).filterMap single := List.filterMap_cons_some rfl
    have hnone : ∀ p ∈ d.2.directories.map (d.1 :: ·), single p = none := by
      intro p hp
      obtain ⟨q, hq, rfl⟩ := List.mem_map.mp hp
      exact single_cons d.1 ((hall d List.mem_cons_self).directories q hq)
    rw [List.flatMap_cons, List.filterMap_append, hhead, List.filterMap_eq_nil_iff.mpr hnone,
      ih fun d hd => hall d (List.mem_cons_of_mem _ hd), List.map_cons]
    rfl

theorem single_files (hnamed : ∀ d ∈ ws, d.2.Named) :
    (gather casefold ws files).files.filterMap (fun f => (single f.1).map fun name => (name, f.2)) =
      sortBy (casefold ∘ Prod.fst) files := by
  have hbelow : ∀ f ∈ (sortBy (casefold ∘ Prod.fst) ws).flatMap fun d => d.2.files.map fun f => (d.1 :: f.1, f.2),
      (single f.1).map (fun name => (name, f.2)) = none := by
    intro f hf
    obtain ⟨d, hd, hf⟩ := List.mem_flatMap.mp hf
    obtain ⟨g, hg, rfl⟩ := List.mem_map.mp hf
    rw [single_cons d.1 ((hnamed d (mem_sortBy.mp hd)).files g hg), Option.map_none]
  rw [gather]
  dsimp only
  rw [List.filterMap_append, List.filterMap_eq_nil_iff.mpr hbelow, List.append_nil, List.filterMap_map]
  exact List.filterMap_some

variable (name) in
/-- Of what directories of different names give rise to, only the part of one name is left. -/
theorem filterMap_flatMap_of_name {α β γ : Type} {l : List (String × α)} {a : α} (f : String × α → List β)
    (g : β → Option γ) (hnodup : (l.map Prod.fst).Nodup) (ha : (name, a) ∈ l)
    (hother : ∀ d ∈ l, d.1 ≠ name → (f d).filterMap g = []) : (l.flatMap f).filterMap g = (f (name, a)).filterMap g := by
  induction l with
  | nil => cases ha
  | cons d rest ih =>
    rw [List.map_cons, List.nodup_cons] at hnodup
    rw [List.flatMap_cons, List.filterMap_append]
    rcases List.mem_cons.mp ha with rfl | hrest
    · have hnone : (rest.flatMap f).filterMap g = [] := by
        rw [List.filterMap_eq_nil_iff]
        intro b hb
        obtain ⟨e, he, hb⟩ := List.mem_flatMap.mp hb
        have hne : e.1 ≠ name := fun heq => hnodup.1 (List.mem_map.mpr ⟨e, he, heq⟩)
        exact List.filterMap_eq_nil_iff.mp (hother e (List.mem_cons_of_mem _ he) hne) b hb
      rw [hnone, List.append_nil]
    · have hne : d.1 ≠ name := fun heq => hnodup.1 (heq ▸ List.mem_map_of_mem hrest)
      rw [hother d List.mem_cons_self hne, List.nil_append]
      exact ih hnodup.2 hrest fun e he => hother e (List.mem_cons_of_mem _ he)

theorem beneath_directories {w : Walked} (hnamed : ∀ d ∈ ws, d.2.Named) (hnodup : (ws.map Prod.fst).Nodup)
    (hw : (name, w) ∈ ws) : (gather casefold ws files).directories.filterMap (beneath name) = w.directories := by
  have hpart : ∀ d ∈ ws, ([d.1] :: d.2.directories.map (d.1 :: ·)).filterMap (beneath name) =
      if d.1 = name then d.2.directories else [] := by
    intro d hd
    rw [List.filterMap_cons_none rfl, List.filterMap_map]
    have hstep : ∀ p ∈ d.2.directories, (beneath name ∘ (d.1 :: ·)) p = if d.1 = name then some p else none :=
      fun p hp => beneath_cons name d.1 ((hnamed d hd).directories p hp)
    rw [List.filterMap_congr hstep]
    split_ifs
    · exact List.filterMap_some
    · exact List.filterMap_none _
  have hsorted : ((sortBy (casefold ∘ Prod.fst) ws).map Prod.fst).Nodup :=
    ((sortBy_perm ws).map Prod.fst).nodup_iff.mpr hnodup
  rw [gather]
  dsimp only
  rw [filterMap_flatMap_of_name name (a := w) _ _ hsorted (mem_sortBy.mpr hw) ?_, hpart _ hw, if_pos rfl]
  intro d hd hne
  rw [hpart d (mem_sortBy.mp hd), if_neg hne]

theorem beneath_files {w : Walked} (hnamed : ∀ d ∈ ws, d.2.Named) (hnodup : (ws.map Prod.fst).Nodup)
    (hw : (name, w) ∈ ws) :
    (gather casefold ws files).files.filterMap (fun f => (beneath name f.1).map fun p => (p, f.2)) = w.files := by
  have hpart : ∀ d ∈ ws, (d.2.files.map fun f => (d.1 :: f.1, f.2)).filterMap
      (fun f => (beneath name f.1).map fun p => (p, f.2)) = if d.1 = name then d.2.files else [] := by
    intro d hd
    rw [List.filterMap_map]
    have hstep : ∀ f ∈ d.2.files, ((fun f => (beneath name f.1).map fun p => (p, f.2)) ∘
        fun f : Path × Bytes => (d.1 :: f.1, f.2)) f = if d.1 = name then some f else none := by
      intro f hf
      show (beneath name (d.1 :: f.1)).map _ = _
      rw [beneath_cons name d.1 ((hnamed d hd).files f hf)]
      split_ifs <;> rfl
    rw [List.filterMap_congr hstep]
    split_ifs
    · exact List.filterMap_some
    · exact List.filterMap_none _
  have hleaves : ∀ f ∈ (sortBy (casefold ∘ Prod.fst) files).map fun f => ([f.1], f.2),
      (beneath name f.1).map (fun p => (p, f.2)) = none := by
    intro f hf
    obtain ⟨g, -, rfl⟩ := List.mem_map.mp hf
    rfl
  have hsorted : ((sortBy (casefold ∘ Prod.fst) ws).map Prod.fst).Nodup :=
    ((sortBy_perm ws).map Prod.fst).nodup_iff.mpr hnodup
  rw [gather]
  dsimp only
  rw [List.filterMap_append, List.filterMap_eq_nil_iff.mpr hleaves, List.nil_append,
    filterMap_flatMap_of_name name (a := w) _ _ hsorted (mem_sortBy.mpr hw) ?_, hpart _ hw, if_pos rfl]
  intro d hd hne
  rw [hpart d (mem_sortBy.mp hd), if_neg hne]

/-! ### A tree that is walked in one order is settled -/

theorem named_walkAll : ∀ d ∈ walkAll casefold directories, d.2.Named := by
  intro d hd
  rw [walkAll_eq] at hd
  obtain ⟨t, -, rfl⟩ := List.mem_map.mp hd
  exact named_walk t.2

theorem settled_dir (hnodup : (directories.map Prod.fst).Nodup)
    (hnames : ((directories.map Prod.fst).map casefold).Nodup) (hfiles : (files.map (casefold ∘ Prod.fst)).Nodup)
    (hbelow : ∀ d ∈ directories, Settled casefold d.2) : Settled casefold (.dir directories files) := by
  refine ⟨fun p a b ha hb hab => ?_, fun p a b content content' ha hb hab => ?_⟩
  · cases p with
    | nil => exact List.inj_on_of_nodup_map hnames (hasDirectory_single.mp ha) (hasDirectory_single.mp hb) hab
    | cons name q =>
      have hne : ∀ c : String, q ++ [c] ≠ [] := fun c => List.append_ne_nil_of_right_ne_nil q (List.cons_ne_nil c [])
      obtain ⟨d, hd, hpath⟩ := hasDirectory_dir.mp ha
      obtain rfl : name = d.1 := by
        rcases hpath with hpath | ⟨r, hpath, -⟩
        · exact (List.cons.inj hpath).1
        · exact (List.cons.inj hpath).1
      exact (hbelow d hd).directories q a b ((hasDirectory_below hnodup hd (hne a)).mp ha)
        ((hasDirectory_below hnodup hd (hne b)).mp hb) hab
  · cases p with
    | nil => exact (Prod.mk.inj (List.inj_on_of_nodup_map hfiles (hasFile_single.mp ha) (hasFile_single.mp hb) hab)).1
    | cons name q =>
      have hne : ∀ c : String, q ++ [c] ≠ [] := fun c => List.append_ne_nil_of_right_ne_nil q (List.cons_ne_nil c [])
      rcases hasFile_dir.mp ha with ⟨f, -, hpath, -⟩ | ⟨d, hd, r, hpath, -⟩
      · exact absurd (List.cons.inj hpath).2 (hne a)
      · obtain rfl : name = d.1 := (List.cons.inj hpath).1
        exact (hbelow d hd).files q a b content content' ((hasFile_below hnodup hd (hne a)).mp ha)
          ((hasFile_below hnodup hd (hne b)).mp hb) hab

/-- A tree that is walked in one way forwards and backwards has no names that tie. -/
theorem settled_of_walk_reversed (t : Tree) (hvalid : t.Valid) (h : t.reversed.walk casefold = t.walk casefold) :
    Settled casefold t := by
  induction t using Tree.induct with
  | dir directories files ih =>
    obtain ⟨hnames, -⟩ := hvalid.nodup
    have hleaves : files.Nodup := nodup_of_fst hvalid.nodup.2
    have hfst : (walkAll casefold (directories.map fun d => (d.1, d.2.reversed)).reverse).map Prod.fst =
        (directories.map Prod.fst).reverse := by
      rw [fst_walkAll, List.map_reverse, List.map_map]
      rfl
    rw [reversed_dir, Tree.walk, Tree.walk] at h
    -- The files of the directory itself, then its directories, then what is below each of these.
    have hfiles : sortBy (casefold ∘ Prod.fst) files.reverse = sortBy (casefold ∘ Prod.fst) files := by
      have hboth := congrArg (fun w : Walked => w.files.filterMap fun f => (single f.1).map fun n => (n, f.2)) h
      rwa [single_files named_walkAll, single_files named_walkAll] at hboth
    have horder : sortBy casefold (directories.map Prod.fst).reverse = sortBy casefold (directories.map Prod.fst) := by
      have hboth := congrArg (fun w : Walked => w.directories.filterMap single) h
      rwa [single_directories named_walkAll, single_directories named_walkAll, map_sortBy, map_sortBy, hfst,
        fst_walkAll] at hboth
    refine settled_dir hnames (nodup_keys_of_sortBy_reverse hnames horder)
      (nodup_keys_of_sortBy_reverse hleaves hfiles) fun d hd => ih d hd (hvalid.directory hd) ?_
    have hmem : (d.1, d.2.walk casefold) ∈ walkAll casefold directories := by
      rw [walkAll_eq]
      exact List.mem_map.mpr ⟨d, hd, rfl⟩
    have hmem' : (d.1, d.2.reversed.walk casefold) ∈
        walkAll casefold (directories.map fun d => (d.1, d.2.reversed)).reverse := by
      rw [walkAll_eq]
      exact List.mem_map.mpr ⟨(d.1, d.2.reversed), List.mem_reverse.mpr (List.mem_map.mpr ⟨d, hd, rfl⟩), rfl⟩
    have hnodup : ((walkAll casefold directories).map Prod.fst).Nodup := by rwa [fst_walkAll]
    have hnodup' : ((walkAll casefold (directories.map fun d => (d.1, d.2.reversed)).reverse).map Prod.fst).Nodup := by
      rw [hfst]
      exact List.nodup_reverse.mpr hnames
    refine Walked.ext ?_ ?_
    · have hboth := congrArg (fun w : Walked => w.directories.filterMap (beneath d.1)) h
      rwa [beneath_directories named_walkAll hnodup' hmem', beneath_directories named_walkAll hnodup hmem] at hboth
    · have hboth := congrArg (fun w : Walked => w.files.filterMap fun f => (beneath d.1 f.1).map fun p => (p, f.2)) h
      rwa [beneath_files named_walkAll hnodup' hmem', beneath_files named_walkAll hnodup hmem] at hboth

/-- A tree is walked in one way for all its listings exactly when it is settled. -/
theorem walk_order_iff {t t' : Tree} (hvalid : t.Valid) (hsame : t.Same t') :
    (∀ l l' : Tree, l.Lists t → l'.Lists t' → l.walk casefold = l'.walk casefold) ↔ Settled casefold t := by
  constructor
  · intro h
    have hforth := h t t.reversed ⟨hvalid, ⟨fun _ => Iff.rfl, fun _ _ => Iff.rfl⟩⟩
      ⟨valid_reversed t hvalid, (same_reversed t).trans hsame⟩
    exact settled_of_walk_reversed t hvalid hforth.symm
  · rintro hsettled l l' ⟨hl, hlt⟩ ⟨hl', hlt'⟩
    exact walk_eq_of_same l l' hl hl' (hlt.trans (hsame.trans hlt'.symm)) (hsettled.of_same hlt.symm)

end Saipen.Storage
