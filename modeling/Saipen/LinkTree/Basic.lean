import Mathlib.Data.List.Infix
import Mathlib.Logic.Function.Basic

/-! # Directory trees with symbolic links

A tree gives each physical path its node; a node stands only in a directory. `walk` follows a list of
components the way a system does, through links and `..`, with a bounded number of links; `lstat` reads
the last component itself. Files are written, directories made and entries removed at physical
paths. -/

namespace LinkTree

/-- A physical path, from the root of the file system. -/
abbrev Path := List String

/-- Where a link leads: from the root, or from the directory it stands in. -/
structure Target where
  absolute : Bool
  parts : List String
deriving DecidableEq

/-- What stands at a path. -/
inductive Node (α : Type) where
  | file (content : α)
  | dir
  | link (target : Target)
  | special
deriving DecidableEq

/-- A tree: a node at each path where there is one. Whatever stands below a path, the path is a
directory. The root always is one and is not listed. -/
structure Tree (α : Type) where
  node : Path → Option (Node α)
  closed : ∀ p c, (node (p ++ [c])).isSome = true → p = [] ∨ node p = some .dir

variable {α : Type} {t t' : Tree α} {p q : Path} {c : String} {cs : List String}

namespace Tree

@[ext] theorem ext (h : t.node = t'.node) : t = t' := by
  cases t
  cases t'
  cases h
  rfl

/-- The tree of a list of entries, each in a directory. -/
def ofEntries (entries : List (Path × Node α))
    (h : ∀ e ∈ entries, e.1.dropLast = [] ∨ entries.lookup e.1.dropLast = some .dir) : Tree α where
  node p := entries.lookup p
  closed := by
    intro p c hsome
    obtain ⟨n, hn⟩ := Option.isSome_iff_exists.mp hsome
    obtain ⟨before, after, hentries, -⟩ := List.lookup_eq_some_iff.mp hn
    have hmem : (p ++ [c], n) ∈ entries := by simp [hentries]
    simpa [List.dropLast_concat] using h _ hmem

/-- Whether a physical path is a directory. -/
def IsDir (t : Tree α) (p : Path) : Prop := p = [] ∨ t.node p = some .dir

instance (t : Tree α) (p : Path) : Decidable (t.IsDir p) :=
  match h : t.node p with
  | some .dir => .isTrue (.inr h)
  | none | some (.file _) | some (.link _) | some .special =>
      decidable_of_iff (p = []) (by simp [IsDir, h])

theorem isDir_of_child (h : t.node (p ++ [c]) ≠ none) : t.IsDir p :=
  t.closed p c (Option.isSome_iff_ne_none.mpr h)

/-- Nothing stands below what is no directory. -/
theorem node_below (h : ¬ t.IsDir p) (hcs : cs ≠ []) : t.node (p ++ cs) = none := by
  induction cs using List.reverseRecOn with
  | nil => exact absurd rfl hcs
  | append_singleton cs c ih =>
    by_contra hsome
    rw [← List.append_assoc] at hsome
    have hdir := isDir_of_child hsome
    by_cases hnil : cs = []
    · subst hnil
      rw [List.append_nil] at hdir
      exact h hdir
    · rcases hdir with hroot | hdir
      · exact hnil (List.append_eq_nil_iff.mp hroot).2
      · rw [ih hnil] at hdir
        cases hdir

/-! ### Following a path -/

/-- The walk along components, with `next` for what a link leads to. -/
def walkWith (t : Tree α) (next : Path → List String → Option Path) : Path → List String → Option Path
  | p, [] => some p
  | p, c :: cs =>
      if c = ".." then walkWith t next p.dropLast cs
      else match t.node (p ++ [c]) with
        | some .dir => walkWith t next (p ++ [c]) cs
        | some (.link target) => next (if target.absolute then [] else p) (target.parts ++ cs)
        | _ => none

/-- The directory a list of components leads to from a directory, through at most `links` links. -/
def walk (t : Tree α) : (links : ℕ) → Path → List String → Option Path
  | 0 => t.walkWith fun _ _ => none
  | links + 1 => t.walkWith (t.walk links)

/-- The place a relative path names: its last component is not followed. -/
def place (t : Tree α) (links : ℕ) (root rel : Path) : Option Path :=
  (t.walk links root rel.dropLast).map fun p => p ++ rel.drop (rel.length - 1)

/-- `lstat`. -/
def lstat (t : Tree α) (links : ℕ) (root rel : Path) : Option (Node α) :=
  (t.place links root rel).bind t.node

/-- The regular file at a relative path. -/
def file? (t : Tree α) (links : ℕ) (root rel : Path) : Option α :=
  match t.lstat links root rel with
  | some (.file content) => some content
  | _ => none

/-- Where the link at a path leads, if there is one. -/
def linkAt (t : Tree α) (p : Path) : Option Target :=
  match t.node p with
  | some (.link target) => some target
  | _ => none

/-- `realpath` where it need not exist: only links are followed, and past the bound none is. -/
def realWith (t : Tree α) (next : Path → List String → Path) : Path → List String → Path
  | p, [] => p
  | p, c :: cs =>
      if c = ".." then realWith t next p.dropLast cs
      else match t.linkAt (p ++ [c]) with
        | some target => next (if target.absolute then [] else p) (target.parts ++ cs)
        | none => realWith t next (p ++ [c]) cs

/-- `os.path.realpath` from a directory. -/
def realpath (t : Tree α) : (links : ℕ) → Path → List String → Path
  | 0 => t.realWith fun p cs => p ++ cs
  | links + 1 => t.realWith (t.realpath links)

/-! ### Changes at a place -/

/-- The tree with something else at a place that is no directory. -/
def set (t : Tree α) (p : Path) (value : Option (Node α)) (hp : t.node p ≠ some .dir)
    (hvalue : value = none ∨ t.IsDir p.dropLast) : Tree α where
  node := Function.update t.node p value
  closed := by
    intro q c hq
    have hdir : t.IsDir q := by
      by_cases hqc : q ++ [c] = p
      · subst hqc
        rcases hvalue with rfl | hdir
        · rw [Function.update_self] at hq
          cases hq
        · rwa [List.dropLast_concat] at hdir
      · rw [Function.update_of_ne hqc] at hq
        exact t.closed q c hq
    refine hdir.imp id fun hnode => ?_
    rw [Function.update_of_ne, hnode]
    rintro rfl
    exact hp hnode

/-- A file is written where there is a file or nothing, in a directory. -/
def setFile (t : Tree α) (p : Path) (content : α) : Option (Tree α) :=
  match h : t.node p with
  | none | some (.file _) =>
      if hdir : t.IsDir p.dropLast then some (t.set p (some (.file content)) (by simp [h]) (.inr hdir))
      else none
  | _ => none

/-- A directory is made where there is nothing, in a directory. -/
def mkdir (t : Tree α) (p : Path) : Option (Tree α) :=
  match h : t.node p with
  | none =>
      if hdir : t.IsDir p.dropLast then some (t.set p (some .dir) (by simp [h]) (.inr hdir)) else none
  | _ => none

/-- Whatever is no directory is removed. -/
def remove (t : Tree α) (p : Path) : Option (Tree α) :=
  match h : t.node p with
  | none | some .dir => none
  | some (.file _) | some (.link _) | some .special =>
      some (t.set p none (by simp [h]) (.inl rfl))

/-- The directories along components, made where there is nothing; only directories may stand there. -/
def ensure (t : Tree α) : Path → List String → Option (Tree α)
  | _, [] => some t
  | p, c :: cs =>
      match t.node (p ++ [c]) with
      | some .dir => t.ensure (p ++ [c]) cs
      | none => (t.mkdir (p ++ [c])).bind fun t' => t'.ensure (p ++ [c]) cs
      | _ => none

/-! ### What a change leaves -/

theorem setFile_spec {content : α} (h : t.setFile p content = some t') :
    t.IsDir p.dropLast ∧ (t.node p = none ∨ ∃ old, t.node p = some (.file old)) ∧
      t'.node = Function.update t.node p (some (.file content)) := by
  unfold setFile at h
  split at h
  · next hnone =>
    split at h
    · next hdir =>
      obtain rfl := Option.some.inj h
      exact ⟨hdir, .inl hnone, rfl⟩
    · cases h
  · next old hfile =>
    split at h
    · next hdir =>
      obtain rfl := Option.some.inj h
      exact ⟨hdir, .inr ⟨old, hfile⟩, rfl⟩
    · cases h
  · cases h

theorem mkdir_spec (h : t.mkdir p = some t') :
    t.IsDir p.dropLast ∧ t.node p = none ∧ t'.node = Function.update t.node p (some .dir) := by
  unfold mkdir at h
  split at h
  · next hnone =>
    split at h
    · next hdir =>
      obtain rfl := Option.some.inj h
      exact ⟨hdir, hnone, rfl⟩
    · cases h
  · cases h

theorem remove_spec (h : t.remove p = some t') :
    (∃ n, t.node p = some n ∧ n ≠ .dir) ∧ t'.node = Function.update t.node p none := by
  unfold remove at h
  split at h
  · cases h
  · cases h
  all_goals
    next hnode =>
    obtain rfl := Option.some.inj h
    exact ⟨⟨_, hnode, by simp⟩, rfl⟩

/-- A tree that keeps the directories and the links of another. -/
structure Keeps (t t' : Tree α) : Prop where
  dir : ∀ p, t.node p = some .dir → t'.node p = some .dir
  link : ∀ p target, t'.node p = some (.link target) ↔ t.node p = some (.link target)

theorem Keeps.refl (t : Tree α) : Keeps t t := ⟨fun _ => id, fun _ _ => Iff.rfl⟩

theorem Keeps.trans {t₁ t₂ t₃ : Tree α} (h : Keeps t₁ t₂) (h' : Keeps t₂ t₃) : Keeps t₁ t₃ :=
  ⟨fun p hp => h'.dir p (h.dir p hp), fun p target => (h'.link p target).trans (h.link p target)⟩

theorem Keeps.isDir (h : Keeps t t') (hp : t.IsDir p) : t'.IsDir p := hp.imp id (h.dir p)

/-- A change at a place that is neither a directory nor a link, to nothing that is a link. -/
theorem Keeps.update {value : Option (Node α)} (hnode : t'.node = Function.update t.node p value)
    (hdir : t.node p ≠ some .dir) (hlink : ∀ target, t.node p ≠ some (.link target))
    (hvalue : ∀ target, value ≠ some (.link target)) : Keeps t t' := by
  constructor
  · intro q hq
    rw [hnode, Function.update_of_ne, hq]
    rintro rfl
    exact hdir hq
  · intro q target
    rw [hnode]
    by_cases heq : q = p
    · subst heq
      rw [Function.update_self]
      exact iff_of_false (hvalue target) (hlink target)
    · rw [Function.update_of_ne heq]

theorem setFile_keeps {content : α} (h : t.setFile p content = some t') : Keeps t t' := by
  obtain ⟨-, hfree, hnode⟩ := setFile_spec h
  refine .update hnode ?_ ?_ (by simp)
  · rcases hfree with hnone | ⟨old, hfile⟩ <;> simp [*]
  · rcases hfree with hnone | ⟨old, hfile⟩ <;> simp [*]

theorem mkdir_keeps (h : t.mkdir p = some t') : Keeps t t' := by
  obtain ⟨-, hnone, hnode⟩ := mkdir_spec h
  exact .update hnode (by simp [hnone]) (by simp [hnone]) (by simp)

theorem remove_keeps {content : α} (h : t.remove p = some t') (hfile : t.node p = some (.file content)) :
    Keeps t t' := by
  obtain ⟨-, hnode⟩ := remove_spec h
  exact .update hnode (by simp [hfile]) (by simp [hfile]) (by simp)

/-- What `ensure` leaves: new directories where there was nothing, and directories all along. -/
structure Ensured (t t' : Tree α) (p : Path) (cs : List String) : Prop where
  same : ∀ q, t.node q ≠ none → t'.node q = t.node q
  made : ∀ q, t.node q = none → t'.node q ≠ none → t'.node q = some .dir ∧ ∃ pre, pre <+: cs ∧ pre ≠ [] ∧ q = p ++ pre
  dirs : ∀ pre, pre <+: cs → pre ≠ [] → t'.node (p ++ pre) = some .dir

theorem prefix_cons_cases {pre : List String} (h : pre <+: c :: cs) (hne : pre ≠ []) :
    ∃ rest, pre = c :: rest ∧ rest <+: cs := by
  cases pre with
  | nil => exact absurd rfl hne
  | cons d rest =>
    obtain ⟨rfl, hrest⟩ := List.cons_prefix_cons.mp h
    exact ⟨rest, rfl, hrest⟩

theorem ensure_spec (h : t.ensure p cs = some t') : Ensured t t' p cs := by
  induction cs generalizing t p with
  | nil =>
    obtain rfl := Option.some.inj h
    refine ⟨fun _ _ => rfl, fun q hnone hsome => absurd hnone hsome, fun pre hpre hne => ?_⟩
    exact absurd (List.prefix_nil.mp hpre) hne
  | cons c cs ih =>
    rw [ensure] at h
    split at h
    · next hdir =>
      have hrest := ih h
      refine ⟨hrest.same, fun q hnone hsome => ?_, fun pre hpre hne => ?_⟩
      · obtain ⟨hmade, pre, hpre, -, rfl⟩ := hrest.made q hnone hsome
        exact ⟨hmade, c :: pre, List.cons_prefix_cons.mpr ⟨rfl, hpre⟩, by simp, by simp⟩
      · obtain ⟨rest, rfl, hbelow⟩ := prefix_cons_cases hpre hne
        by_cases hnil : rest = []
        · subst hnil
          rw [hrest.same _ (by rw [hdir]; simp), hdir]
        · simpa using hrest.dirs rest hbelow hnil
    · next hnone =>
      obtain ⟨t₁, hmkdir, h⟩ := Option.bind_eq_some_iff.mp h
      obtain ⟨-, -, hnode⟩ := mkdir_spec hmkdir
      have hrest := ih h
      have hother : ∀ q, q ≠ p ++ [c] → t₁.node q = t.node q := fun q hq => by
        rw [hnode, Function.update_of_ne hq]
      have hself : t₁.node (p ++ [c]) = some .dir := by rw [hnode, Function.update_self]
      refine ⟨fun q hsome => ?_, fun q hq hsome => ?_, fun pre hpre hne => ?_⟩
      · have hq : q ≠ p ++ [c] := fun heq => hsome (heq ▸ hnone)
        rw [hrest.same q (by rwa [hother q hq]), hother q hq]
      · by_cases heq : q = p ++ [c]
        · subst heq
          rw [hrest.same _ (by rw [hself]; simp), hself]
          exact ⟨rfl, [c], List.cons_prefix_cons.mpr ⟨rfl, List.nil_prefix⟩, by simp, rfl⟩
        · obtain ⟨hmade, pre, hpre, -, rfl⟩ := hrest.made q (by rw [hother q heq, hq]) hsome
          exact ⟨hmade, c :: pre, List.cons_prefix_cons.mpr ⟨rfl, hpre⟩, by simp, by simp⟩
      · obtain ⟨rest, rfl, hbelow⟩ := prefix_cons_cases hpre hne
        by_cases hnil : rest = []
        · subst hnil
          rw [hrest.same _ (by rw [hself]; simp), hself]
        · simpa using hrest.dirs rest hbelow hnil
    · cases h

theorem Ensured.keeps (h : Ensured t t' p cs) : Keeps t t' := by
  constructor
  · intro q hq
    rw [h.same q (by rw [hq]; simp), hq]
  · intro q target
    by_cases hnone : t.node q = none
    · refine iff_of_false (fun hlink => ?_) (by rw [hnone]; simp)
      have hmade := (h.made q hnone (by rw [hlink]; simp)).1
      rw [hlink] at hmade
      cases hmade
    · rw [h.same q hnone]

/-! ### Walks in a tree that keeps another -/

theorem walkWith_keeps (h : Keeps t t') {next next' : Path → List String → Option Path}
    (hnext : ∀ p cs q, next p cs = some q → next' p cs = some q)
    (hw : t.walkWith next p cs = some q) : t'.walkWith next' p cs = some q := by
  induction cs generalizing p with
  | nil => exact hw
  | cons c cs ih =>
    simp only [walkWith] at hw ih ⊢
    split_ifs at hw ⊢ with hup
    · exact ih hw
    · split at hw
      · next hdir =>
        rw [h.dir _ hdir]
        exact ih hw
      · next target hlink =>
        rw [(h.link _ target).mpr hlink]
        exact hnext _ _ _ hw
      · cases hw

theorem walk_keeps (h : Keeps t t') {links : ℕ} (hw : t.walk links p cs = some q) :
    t'.walk links p cs = some q := by
  induction links generalizing p cs q with
  | zero => exact walkWith_keeps h (fun _ _ _ hnone => hnone) hw
  | succ links ih => exact walkWith_keeps h (fun _ _ _ => ih) hw

theorem place_keeps (h : Keeps t t') {links : ℕ} {root rel : Path}
    (hp : t.place links root rel = some p) : t'.place links root rel = some p := by
  obtain ⟨q, hw, rfl⟩ := Option.map_eq_some_iff.mp hp
  exact Option.map_eq_some_iff.mpr ⟨q, walk_keeps h hw, rfl⟩

theorem linkAt_eq_some {target : Target} : t.linkAt p = some target ↔ t.node p = some (.link target) := by
  unfold linkAt
  split
  · next held hlink => rw [hlink]; simp
  · next hlink =>
    exact iff_of_false (by simp) fun heq => hlink target heq

theorem linkAt_keeps (h : Keeps t t') : t'.linkAt p = t.linkAt p := by
  refine Option.ext fun target => ?_
  rw [linkAt_eq_some, linkAt_eq_some]
  exact h.link p target

/-- `realpath` depends on the links alone. -/
theorem realWith_keeps (h : Keeps t t') {next next' : Path → List String → Path}
    (hnext : ∀ p cs, next' p cs = next p cs) : t'.realWith next' p cs = t.realWith next p cs := by
  induction cs generalizing p with
  | nil => rfl
  | cons c cs ih =>
    simp only [realWith, linkAt_keeps h]
    split_ifs with hup
    · exact ih
    · cases t.linkAt (p ++ [c]) with
      | none => exact ih
      | some target => exact hnext _ _

theorem realpath_keeps (h : Keeps t t') (links : ℕ) :
    t'.realpath links p cs = t.realpath links p cs := by
  induction links generalizing p cs with
  | zero => exact realWith_keeps h fun _ _ => rfl
  | succ links ih => exact realWith_keeps h fun _ _ => ih

/-! ### Paths without links -/

/-- No link stands on the way to a relative path. -/
def Plain (t : Tree α) (root rel : Path) : Prop :=
  ∀ pre, pre <+: rel.dropLast → pre ≠ [] → ∀ target, t.node (root ++ pre) ≠ some (.link target)

/-- Every component on the way to a relative path is a directory. -/
def Owned (t : Tree α) (root rel : Path) : Prop :=
  ∀ pre, pre <+: rel.dropLast → pre ≠ [] → t.node (root ++ pre) = some .dir

theorem Owned.plain {root rel : Path} (h : Owned t root rel) : Plain t root rel := by
  intro pre hpre hne target
  rw [h pre hpre hne]
  simp

theorem Owned.keeps {root rel : Path} (h : Owned t root rel) (hk : Keeps t t') : Owned t' root rel :=
  fun pre hpre hne => hk.dir _ (h pre hpre hne)

theorem Plain.keeps {root rel : Path} (h : Plain t root rel) (hk : Keeps t t') : Plain t' root rel :=
  fun pre hpre hne target hlink => h pre hpre hne target ((hk.link _ target).mp hlink)

/-- A walk over directories stays where it is spelled. -/
theorem walkWith_owned {next : Path → List String → Option Path}
    (h : ∀ pre, pre <+: cs → pre ≠ [] → t.node (p ++ pre) = some .dir) (hup : ".." ∉ cs) :
    t.walkWith next p cs = some (p ++ cs) := by
  induction cs generalizing p with
  | nil => simp [walkWith]
  | cons c cs ih =>
    have hc : t.node (p ++ [c]) = some .dir := h [c] (by simp) (by simp)
    rw [List.mem_cons, not_or] at hup
    rw [walkWith, if_neg (Ne.symm hup.1), hc]
    simp only
    rw [ih (fun pre hpre hne => ?_) hup.2]
    · simp
    · simpa using h (c :: pre) (List.cons_prefix_cons.mpr ⟨rfl, hpre⟩) (by simp)

/-- A walk that meets no link goes over directories. -/
theorem walkWith_plain {next : Path → List String → Option Path}
    (h : ∀ pre, pre <+: cs → pre ≠ [] → ∀ target, t.node (p ++ pre) ≠ some (.link target))
    (hup : ".." ∉ cs) (hw : t.walkWith next p cs = some q) :
    ∀ pre, pre <+: cs → pre ≠ [] → t.node (p ++ pre) = some .dir := by
  induction cs generalizing p with
  | nil => exact fun pre hpre hne => absurd (List.prefix_nil.mp hpre) hne
  | cons c cs ih =>
    rw [List.mem_cons, not_or] at hup
    rw [walkWith, if_neg (Ne.symm hup.1)] at hw
    split at hw
    · next hdir =>
      intro pre hpre hne
      obtain ⟨rest, rfl, hbelow⟩ := prefix_cons_cases hpre hne
      by_cases hnil : rest = []
      · rw [hnil, hdir]
      · have hrest := ih (fun pre hpre hne => by
          simpa using h (c :: pre) (List.cons_prefix_cons.mpr ⟨rfl, hpre⟩) (by simp)) hup.2 hw rest hbelow hnil
        simpa using hrest
    · next target hlink => exact absurd hlink (h [c] (by simp) (by simp) target)
    · cases hw

theorem walk_owned {links : ℕ}
    (h : ∀ pre, pre <+: cs → pre ≠ [] → t.node (p ++ pre) = some .dir) (hup : ".." ∉ cs) :
    t.walk links p cs = some (p ++ cs) := by
  cases links with
  | zero => exact walkWith_owned h hup
  | succ links => exact walkWith_owned h hup

theorem walk_plain {links : ℕ}
    (h : ∀ pre, pre <+: cs → pre ≠ [] → ∀ target, t.node (p ++ pre) ≠ some (.link target))
    (hup : ".." ∉ cs) (hw : t.walk links p cs = some q) :
    ∀ pre, pre <+: cs → pre ≠ [] → t.node (p ++ pre) = some .dir := by
  cases links with
  | zero => exact walkWith_plain h hup hw
  | succ links => exact walkWith_plain h hup hw

variable {root rel : Path} {links : ℕ}

theorem up_notMem_dropLast (hup : ".." ∉ rel) : ".." ∉ rel.dropLast :=
  fun h => hup (List.mem_of_mem_dropLast h)

theorem place_owned (h : Owned t root rel) (hup : ".." ∉ rel) :
    t.place links root rel = some (root ++ rel) := by
  rw [place, walk_owned h (up_notMem_dropLast hup), Option.map_some, List.append_assoc,
    List.dropLast_eq_take, List.take_append_drop]

/-- Whatever stands at a spelled path stands in directories. -/
theorem owned_of_node (h : t.node (root ++ rel) ≠ none) : Owned t root rel := by
  intro pre hpre hne
  obtain ⟨rest, hrest⟩ := hpre
  have hrel : ∃ below, below ≠ [] ∧ rel = pre ++ below := by
    have hcut : rel = rel.dropLast ++ rel.drop (rel.length - 1) := by
      rw [List.dropLast_eq_take, List.take_append_drop]
    refine ⟨rest ++ rel.drop (rel.length - 1), ?_, ?_⟩
    · intro hnil
      have hlast : rel.drop (rel.length - 1) = [] := (List.append_eq_nil_iff.mp hnil).2
      rw [List.drop_eq_nil_iff] at hlast
      have hrel : rel = [] := List.eq_nil_of_length_eq_zero (by omega)
      rw [hrel] at hrest
      exact hne (List.append_eq_nil_iff.mp hrest).1
    · rw [← List.append_assoc, hrest]
      exact hcut
  obtain ⟨below, hbelow, rfl⟩ := hrel
  by_contra hdir
  refine h ?_
  rw [← List.append_assoc]
  refine node_below (fun hisdir => ?_) hbelow
  rcases hisdir with hroot | hisdir
  · exact hne (List.append_eq_nil_iff.mp hroot).2
  · exact hdir hisdir

/-- Without links on the way, `lstat` reads the path as it is spelled. -/
theorem lstat_plain (h : Plain t root rel) (hup : ".." ∉ rel) :
    t.lstat links root rel = t.node (root ++ rel) := by
  by_cases howned : Owned t root rel
  · rw [lstat, place_owned howned hup, Option.bind_some]
  · have hnone : t.node (root ++ rel) = none := by
      by_contra hsome
      exact howned (owned_of_node hsome)
    rw [hnone, lstat]
    cases hw : t.walk links root rel.dropLast with
    | none => rw [place, hw]; rfl
    | some q => exact absurd (walk_plain h (up_notMem_dropLast hup) hw) howned

/-! ### Writing and unlinking -/

/-- A file written at a path as it is spelled, with the directories above it. -/
def write (t : Tree α) (root rel : Path) (content : α) : Option (Tree α) :=
  (t.ensure root rel.dropLast).bind fun t₁ => t₁.setFile (root ++ rel) content

/-- `unlink`: what stands at the place a path names is removed. -/
def unlink (t : Tree α) (links : ℕ) (root rel : Path) : Option (Tree α) :=
  (t.place links root rel).bind t.remove

/-- What a write leaves. -/
structure Written (t t' : Tree α) (root rel : Path) (content : α) : Prop where
  keeps : Keeps t t'
  owned : Owned t' root rel
  free : t.node (root ++ rel) = none ∨ ∃ old, t.node (root ++ rel) = some (.file old)
  self : t'.node (root ++ rel) = some (.file content)
  other : ∀ q, q ≠ root ++ rel → t'.node q = t.node q ∨
    t.node q = none ∧ t'.node q = some .dir ∧ ∃ pre, pre <+: rel.dropLast ∧ pre ≠ [] ∧ q = root ++ pre

theorem write_spec {content : α} (h : t.write root rel content = some t') :
    Written t t' root rel content := by
  obtain ⟨t₁, hensure, hset⟩ := Option.bind_eq_some_iff.mp h
  have hensured := ensure_spec hensure
  obtain ⟨-, hfree, hnode⟩ := setFile_spec hset
  refine ⟨hensured.keeps.trans (setFile_keeps hset), ?_, ?_, ?_, ?_⟩
  · exact fun pre hpre hne => (setFile_keeps hset).dir _ (hensured.dirs pre hpre hne)
  · by_cases hnone : t.node (root ++ rel) = none
    · exact .inl hnone
    · rwa [hensured.same _ hnone] at hfree
  · rw [hnode, Function.update_self]
  · intro q hq
    rw [hnode, Function.update_of_ne hq]
    by_cases hnone : t.node q = none
    · by_cases hmade : t₁.node q = none
      · exact .inl (hmade.trans hnone.symm)
      · obtain ⟨hdir, pre, hpre, hne, rfl⟩ := hensured.made q hnone hmade
        exact .inr ⟨hnone, hdir, pre, hpre, hne, rfl⟩
    · exact .inl (hensured.same q hnone)

/-- What a removal leaves. -/
theorem unlink_spec (h : t.unlink links root rel = some t') :
    ∃ p n, t.place links root rel = some p ∧ t.node p = some n ∧ n ≠ .dir ∧
      t'.node = Function.update t.node p none := by
  obtain ⟨p, hplace, hremove⟩ := Option.bind_eq_some_iff.mp h
  obtain ⟨⟨n, hn, hdir⟩, hnode⟩ := remove_spec hremove
  exact ⟨p, n, hplace, hn, hdir, hnode⟩

end Tree

end LinkTree
