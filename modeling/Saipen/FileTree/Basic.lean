import Mathlib.Data.List.Basic
import Mathlib.Data.List.Infix

/-! # Directory trees

Finite trees of named nodes with the operations of a POSIX directory API that a program using no
symbolic links on its own paths can observe: looking a path up, replacing a file and creating the
directories above it, unlinking, and removing an empty directory. Links are nodes that are never
followed. -/

namespace FileTree

universe u

/-- A node of a directory tree: a regular file, a link (to a directory or to something else),
another special object, or a directory with its entries in the order the file system lists them. -/
inductive Node (α : Type u) : Type u where
  | file (content : α)
  | link (toDir : Bool)
  | special
  | dir (entries : List (String × Node α))

/-- The entries of a directory. -/
abbrev Entries (α : Type u) := List (String × Node α)

/-- A path relative to the root of the tree, one component per name. -/
abbrev Path := List String

instance : LawfulBEq Path := inferInstance

variable {α : Type u}

namespace Node

/-- Whether the node is a directory. -/
def isDir : Node α → Bool
  | .dir _ => true
  | _ => false

/-- Whether the node is a regular file. -/
def isFile : Node α → Bool
  | .file _ => true
  | _ => false

/-- The entries of a directory, and none for any other node. -/
def entries : Node α → Entries α
  | .dir es => es
  | _ => []

@[simp] theorem entries_dir (es : Entries α) : (Node.dir es).entries = es := rfl

@[simp] theorem isDir_dir (es : Entries α) : (Node.dir es).isDir = true := rfl

@[simp] theorem isFile_file (c : α) : (Node.file c).isFile = true := rfl

end Node

/-! ### One directory -/

/-- The entries without those of one name. -/
def removeEntry (name : String) : Entries α → Entries α
  | [] => []
  | (k, m) :: es => if k = name then removeEntry name es else (k, m) :: removeEntry name es

/-- Replace the entry of one name, or add it behind the others. -/
def insertEntry (name : String) (n : Node α) : Entries α → Entries α
  | [] => [(name, n)]
  | (k, m) :: es => if k = name then (name, n) :: es else (k, m) :: insertEntry name n es

/-- Replace or add (`some`) or remove (`none`) the entry of one name. -/
def setEntry (name : String) : Option (Node α) → Entries α → Entries α
  | none => removeEntry name
  | some n => insertEntry name n

@[simp] theorem setEntry_none (name : String) (es : Entries α) :
    setEntry name none es = removeEntry name es := rfl

@[simp] theorem setEntry_some (name : String) (n : Node α) (es : Entries α) :
    setEntry name (some n) es = insertEntry name n es := rfl

theorem lookup_cons_ne {name other : String} (h : other ≠ name) (n : Node α) (es : Entries α) :
    List.lookup other ((name, n) :: es) = List.lookup other es := by
  rw [List.lookup_cons, beq_eq_false_iff_ne.mpr h]

theorem lookup_removeEntry (name other : String) (es : Entries α) :
    (removeEntry name es).lookup other = if other = name then none else es.lookup other := by
  induction es with
  | nil => simp [removeEntry]
  | cons e es ih =>
    obtain ⟨k, m⟩ := e
    by_cases hk : k = name
    · subst hk
      by_cases ho : other = k
      · simpa [removeEntry, ho] using ih
      · simpa [removeEntry, ho, lookup_cons_ne ho] using ih
    · by_cases ho : other = k
      · subst ho; simp [removeEntry, hk]
      · simp only [removeEntry, if_neg hk, lookup_cons_ne ho, ih]

theorem lookup_insertEntry (name other : String) (n : Node α) (es : Entries α) :
    (insertEntry name n es).lookup other = if other = name then some n else es.lookup other := by
  induction es with
  | nil =>
    by_cases ho : other = name
    · subst ho; simp [insertEntry]
    · simp [insertEntry, ho, lookup_cons_ne ho]
  | cons e es ih =>
    obtain ⟨k, m⟩ := e
    by_cases hk : k = name
    · subst hk
      by_cases ho : other = k
      · subst ho; simp [insertEntry]
      · simp [insertEntry, ho, lookup_cons_ne ho]
    · by_cases ho : other = k
      · subst ho; simp [insertEntry, hk]
      · simp only [insertEntry, if_neg hk, lookup_cons_ne ho, ih]

/-- Reading a directory after one of its entries was set. -/
theorem lookup_setEntry (name other : String) (v : Option (Node α)) (es : Entries α) :
    (setEntry name v es).lookup other = if other = name then v else es.lookup other := by
  cases v with
  | none => exact lookup_removeEntry name other es
  | some n => exact lookup_insertEntry name other n es

@[simp] theorem lookup_setEntry_self (name : String) (v : Option (Node α)) (es : Entries α) :
    (setEntry name v es).lookup name = v := by
  rw [lookup_setEntry, if_pos rfl]

@[simp] theorem lookup_insertEntry_self (name : String) (n : Node α) (es : Entries α) :
    (insertEntry name n es).lookup name = some n := by
  rw [lookup_insertEntry, if_pos rfl]

theorem lookup_setEntry_ne {name other : String} (h : other ≠ name) (v : Option (Node α))
    (es : Entries α) : (setEntry name v es).lookup other = es.lookup other := by
  rw [lookup_setEntry, if_neg h]

theorem insertEntry_ne_nil (name : String) (n : Node α) (es : Entries α) :
    insertEntry name n es ≠ [] := by
  cases es with
  | nil => simp [insertEntry]
  | cons e es => by_cases h : e.1 = name <;> simp [insertEntry, h]

theorem removeEntry_self (name : String) (es : Entries α) :
    removeEntry name (removeEntry name es) = removeEntry name es := by
  induction es with
  | nil => rfl
  | cons e es ih => by_cases h : e.1 = name <;> simp [removeEntry, h, ih]

theorem removeEntry_removeEntry (name other : String) (es : Entries α) :
    removeEntry name (removeEntry other es) = removeEntry other (removeEntry name es) := by
  induction es with
  | nil => rfl
  | cons e es ih =>
    obtain ⟨k, m⟩ := e
    by_cases hn : k = name <;> by_cases ho : k = other <;> simp [removeEntry, hn, ho, ih]
    all_goals grind [removeEntry]

theorem insertEntry_removeEntry {name other : String} (hne : name ≠ other) (n : Node α)
    (es : Entries α) :
    insertEntry name n (removeEntry other es) = removeEntry other (insertEntry name n es) := by
  induction es with
  | nil => simp [insertEntry, removeEntry, hne]
  | cons e es ih =>
    obtain ⟨k, m⟩ := e
    by_cases hn : k = name
    · subst hn; simp [insertEntry, removeEntry, hne]
    · by_cases ho : k = other
      · simp [insertEntry, removeEntry, ho, Ne.symm hne, ih]
      · simp [insertEntry, removeEntry, hn, ho, ih]

theorem insertEntry_insertEntry {name other : String} (hne : name ≠ other) (n m : Node α)
    (es : Entries α) (h : es.lookup other ≠ none) :
    insertEntry name n (insertEntry other m es) = insertEntry other m (insertEntry name n es) := by
  induction es with
  | nil => simp at h
  | cons e es ih =>
    obtain ⟨k, l⟩ := e
    by_cases ho : k = other
    · subst ho; simp [insertEntry, Ne.symm hne]
    · rw [lookup_cons_ne (Ne.symm ho)] at h
      by_cases hn : k = name
      · subst hn; simp [insertEntry, ho]
      · simp [insertEntry, hn, ho, ih h]

/-- A second write of one entry supersedes the first. -/
theorem setEntry_insertEntry (name : String) (v : Option (Node α)) (n : Node α) (es : Entries α) :
    setEntry name v (insertEntry name n es) = setEntry name v es := by
  induction es with
  | nil => cases v <;> simp [insertEntry, removeEntry]
  | cons e es ih =>
    obtain ⟨k, m⟩ := e
    by_cases hk : k = name
    · subst hk; cases v <;> simp [insertEntry, removeEntry]
    · cases v <;> simpa [insertEntry, removeEntry, hk] using ih

/-- Writes of two different entries commute, when the second is a removal or replaces an entry. -/
theorem setEntry_comm {name other : String} (hne : name ≠ other) (v w : Option (Node α))
    (es : Entries α) (hw : w = none ∨ es.lookup other ≠ none) :
    setEntry name v (setEntry other w es) = setEntry other w (setEntry name v es) := by
  cases v with
  | none =>
    cases w with
    | none => exact removeEntry_removeEntry name other es
    | some m => exact (insertEntry_removeEntry hne.symm m es).symm
  | some n =>
    cases w with
    | none => exact insertEntry_removeEntry hne n es
    | some m => exact insertEntry_insertEntry hne n m es (hw.resolve_left (by simp))

/-! ### Looking a path up -/

/-- What `lstat` says about a path: nothing there, something that is not a directory on the way,
or a node. -/
inductive Probe (α : Type u) : Type u where
  | absent
  | blocked
  | found (node : Node α)

/-- Look a path up. The empty path is the directory itself. -/
def probe : Path → Entries α → Probe α
  | [], es => .found (.dir es)
  | name :: p, es =>
      match es.lookup name with
      | none => .absent
      | some (.dir sub) => probe p sub
      | some n => if p = [] then .found n else .blocked

/-- Change the node at a path through `f`, which sees the node there and may refuse. With `mk`,
missing directories above the path are created. A path through something that is not a directory is
refused. -/
def alter (mk : Bool) (f : Option (Node α) → Option (Option (Node α))) :
    Path → Entries α → Option (Entries α)
  | [], _ => none
  | [name], es => (f (es.lookup name)).map fun v => setEntry name v es
  | name :: q :: p, es =>
      match es.lookup name with
      | none => if mk then (alter mk f (q :: p) []).map fun sub => setEntry name (some (.dir sub)) es
                else none
      | some (.dir sub) => (alter mk f (q :: p) sub).map fun sub' => setEntry name (some (.dir sub')) es
      | some _ => none

/-- Atomic replacement of a file: the parents are created, anything but a regular file refuses. -/
def writeFile (c : α) : Path → Entries α → Option (Entries α) :=
  alter true fun
    | none => some (some (.file c))
    | some (.file _) => some (some (.file c))
    | some _ => none

/-- Unlink one entry that is not a directory. -/
def unlink : Path → Entries α → Option (Entries α) :=
  alter false fun
    | none => none
    | some (.dir _) => none
    | some _ => some none

/-- Remove one empty directory. -/
def rmdir : Path → Entries α → Option (Entries α) :=
  alter false fun
    | some (.dir []) => some none
    | _ => none

end FileTree
