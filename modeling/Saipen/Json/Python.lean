import Mathlib.Data.String.Basic
import Saipen.Json
import Saipen.Text.Number
import Saipen.Text.Repr

/-! # JSON documents as Python reads and writes them

`==` on what `json.loads` returns, the truth of a value, and the text `json.dumps` writes with an indent
and sorted keys. -/

open Text

namespace Json

/-! ### Equality -/

/-- The number a value is. -/
def worth : Json → Option Binary64.Value
  | .bool b => some (.finite (if b then 1 else 0))
  | .int n => some (.finite n)
  | .float repr => Text.float repr
  | _ => none

/-- Equality of two values that are not containers: numbers by what they are worth, `nan` equal to
nothing. -/
def sameScalar (a b : Json) : Bool :=
  match a.worth, b.worth with
  | some x, some y => x == y && x != .nan
  | none, none => a == b
  | _, _ => false

mutual
/-- Equality of two values in canonical form. -/
def equiv : Json → Json → Bool
  | .arr as, b => match b with
    | .arr bs => equivItems as bs
    | _ => false
  | .obj fs, b => match b with
    | .obj gs => equivFields fs gs
    | _ => false
  | a, b => sameScalar a b

def equivItems : List Json → List Json → Bool
  | [], bs => bs.isEmpty
  | a :: as, bs => match bs with
    | [] => false
    | b :: bs => equiv a b && equivItems as bs

def equivFields : List (String × Json) → List (String × Json) → Bool
  | [], gs => gs.isEmpty
  | (k, a) :: fs, gs => match gs with
    | [] => false
    | (l, b) :: gs => (k == l && equiv a b) && equivFields fs gs
end

/-- `==`. -/
def same (a b : Json) : Bool := equiv a.canonical b.canonical

/-! ### Truth -/

/-- `bool(value)`. -/
def truthy : Json → Bool
  | .null => false
  | .bool b => b
  | .int n => n != 0
  | .float repr => Text.float repr != some (.finite 0)
  | .str s => s != ""
  | .arr items => !items.isEmpty
  | .obj fields => !fields.isEmpty

/-- An object, if it is one. -/
def dict? : Json → Option Dict
  | .obj fields => some fields
  | _ => none

/-! ### Text -/

/-- A character of a JSON string whose text is ASCII. -/
def escaped (c : Char) : List Char :=
  let n := c.toNat
  if c = '"' ∨ c = '\\' then ['\\', c]
  else if c = '\n' then ['\\', 'n']
  else if c = '\r' then ['\\', 'r']
  else if c = '\t' then ['\\', 't']
  else if n = 8 then ['\\', 'b']
  else if n = 12 then ['\\', 'f']
  else if 0x20 ≤ n ∧ n ≤ 0x7e then [c]
  else if n < 0x10000 then '\\' :: 'u' :: hex 4 n
  else '\\' :: 'u' :: hex 4 (0xd800 + (n - 0x10000) / 0x400) ++
    '\\' :: 'u' :: hex 4 (0xdc00 + (n - 0x10000) % 0x400)

/-- A string in double quotes. -/
def quoted (s : String) : List Char := '"' :: s.toList.flatMap escaped ++ ['"']

/-- A number that is not an integer; JSON has names of its own for the infinite ones and for `nan`. -/
def floatText (repr : String) : String :=
  if repr = "nan" then "NaN" else if repr = "inf" then "Infinity"
  else if repr = "-inf" then "-Infinity" else repr

/-- The beginning of a line at a nesting level of an indent of two. -/
def newline (level : Nat) : List Char := '\n' :: List.replicate (2 * level) ' '

/-- The pieces of a container, one on each line. -/
def enclosed (opening closing : Char) (level : Nat) (pieces : List (List Char)) : List Char :=
  if pieces.isEmpty then [opening, closing]
  else opening :: [','].intercalate (pieces.map (newline (level + 1) ++ ·)) ++ newline level ++ [closing]

mutual
/-- `json.dumps` with an indent of two, of a value whose fields are sorted. -/
def pretty (level : Nat) : Json → List Char
  | .null => "null".toList
  | .bool b => if b then "true".toList else "false".toList
  | .int n => (Text.str n).toList
  | .float repr => (floatText repr).toList
  | .str s => quoted s
  | .arr items => enclosed '[' ']' level (prettyItems (level + 1) items)
  | .obj fields => enclosed '{' '}' level (prettyFields (level + 1) fields)

def prettyItems (level : Nat) : List Json → List (List Char)
  | [] => []
  | j :: js => pretty level j :: prettyItems level js

def prettyFields (level : Nat) : List (String × Json) → List (List Char)
  | [] => []
  | (k, j) :: fs => (quoted k ++ ": ".toList ++ pretty level j) :: prettyFields level fs
end

/-- `_json_bytes`; every byte is an ASCII character. -/
def jsonBytes (j : Json) : List Char := pretty 0 j.canonical ++ ['\n']

/-! ### Values equal to themselves -/

@[simp] theorem same_null : same .null .null = true := rfl

@[simp] theorem same_str (s t : String) : same (.str s) (.str t) = (s == t) := by
  by_cases h : s = t
  · subst h; simp [same, canonical, equiv, sameScalar, worth]
  · simp [same, canonical, equiv, sameScalar, worth, h]

@[simp] theorem same_int_self (n : Int) : same (.int n) (.int n) = true := by
  simp [same, canonical, equiv, sameScalar, worth]

@[simp] theorem same_bool (a b : Bool) : same (.bool a) (.bool b) = (a == b) := by
  cases a <;> cases b <;> simp [same, canonical, equiv, sameScalar, worth]

theorem equivFields_self {fs : List (String × Json)} (h : ∀ f ∈ fs, equiv f.2 f.2 = true) :
    equivFields fs fs = true := by
  induction fs with
  | nil => rfl
  | cons f fs ih =>
    obtain ⟨k, j⟩ := f
    have hj : equiv j j = true := h (k, j) List.mem_cons_self
    have hrest := ih fun f hf => h f (List.mem_cons_of_mem _ hf)
    simp [equivFields, hj, hrest]

/-- A value equal to a string is that string. -/
theorem same_str_iff {j : Json} {s : String} : same j (.str s) = true ↔ j = .str s := by
  constructor
  · intro h
    cases j with
    | str t => rw [same_str, beq_iff_eq] at h; rw [h]
    | null => simp [same, canonical, equiv, sameScalar, worth] at h
    | bool b => simp [same, canonical, equiv, sameScalar, worth] at h
    | int n => simp [same, canonical, equiv, sameScalar, worth] at h
    | float r => cases hr : Text.float r <;> simp [same, canonical, equiv, sameScalar, worth, hr] at h
    | arr items => simp [same, canonical, equiv] at h
    | obj fields => simp [same, canonical, equiv] at h
  · rintro rfl
    simp

end Json

namespace Dict

/-- `dict.items()`: of a key that is listed twice the first field counts. -/
def items (d : Dict) : List (String × Json) :=
  d.filterMap fun field => (d.get field.1).map (field.1, ·)

/-- `dict.get`, with `None` where the key is absent. -/
def valueAt (d : Dict) (k : String) : Json := (d.get k).getD .null

/-- `set(d) == set(e)`. -/
def sameKeys (d e : Dict) : Bool :=
  (d.all fun field => (e.get field.1).isSome) && e.all fun field => (d.get field.1).isSome

/-- `set(d) == {keys}`. -/
def hasKeys (d : Dict) (keys : List String) : Bool :=
  (d.all fun field => field.1 ∈ keys) && keys.all fun k => (d.get k).isSome

theorem get_isSome_iff {d : Dict} {k : String} : (d.get k).isSome = true ↔ k ∈ d.map Prod.fst := by
  rw [← not_iff_not, Bool.not_eq_true, Option.isSome_eq_false_iff, Option.isNone_iff_eq_none]
  exact Assoc.notMem_iff_lookup.symm

theorem mem_items {d : Dict} {k : String} {j : Json} : (k, j) ∈ d.items ↔ d.get k = some j := by
  rw [items, List.mem_filterMap]
  constructor
  · rintro ⟨field, -, h⟩
    obtain ⟨j', hget, heq⟩ := Option.map_eq_some_iff.mp h
    obtain ⟨rfl, rfl⟩ := Prod.mk.inj heq
    exact hget
  · intro h
    have hmem : (k, j) ∈ d := Assoc.mem_of_lookup h
    exact ⟨(k, j), hmem, by rw [h]; rfl⟩

theorem sameKeys_iff {d e : Dict} :
    d.sameKeys e = true ↔ ∀ k, (d.get k).isSome = true ↔ (e.get k).isSome = true := by
  rw [sameKeys, Bool.and_eq_true, List.all_eq_true, List.all_eq_true]
  simp only [get_isSome_iff, List.mem_map]
  constructor
  · rintro ⟨hd, he⟩ k
    constructor
    · rintro ⟨f, hf, rfl⟩; exact hd f hf
    · rintro ⟨f, hf, rfl⟩; exact he f hf
  · intro h
    exact ⟨fun f hf => (h f.1).mp ⟨f, hf, rfl⟩, fun f hf => (h f.1).mpr ⟨f, hf, rfl⟩⟩

theorem hasKeys_iff {d : Dict} {keys : List String} :
    d.hasKeys keys = true ↔ ∀ k, (d.get k).isSome = true ↔ k ∈ keys := by
  rw [hasKeys, Bool.and_eq_true, List.all_eq_true, List.all_eq_true]
  simp only [get_isSome_iff, List.mem_map, decide_eq_true_eq]
  constructor
  · rintro ⟨hd, hk⟩ k
    constructor
    · rintro ⟨f, hf, rfl⟩; exact hd f hf
    · intro h; exact hk k h
  · intro h
    exact ⟨fun f hf => (h f.1).mp ⟨f, hf, rfl⟩, fun k hk => (h k).mpr hk⟩

/-! ### Canonical forms -/

theorem keys_insertField (k : String) (v : Json) (d : Dict) {l : String}
    (h : l ∈ (Json.insertField k v d).map Prod.fst) : l = k ∨ l ∈ d.map Prod.fst := by
  rw [← get_isSome_iff, get_insertField] at h
  by_cases hl : l = k
  · exact .inl hl
  · rw [if_neg hl, get_isSome_iff] at h
    exact .inr h

theorem sorted_insertField (k : String) (v : Json) {d : Dict} (h : (d.map Prod.fst).Pairwise (· < ·)) :
    ((Json.insertField k v d).map Prod.fst).Pairwise (· < ·) := by
  induction d with
  | nil => simp [Json.insertField]
  | cons e d ih =>
    obtain ⟨l, w⟩ := e
    rw [List.map_cons, List.pairwise_cons] at h
    rw [Json.insertField]
    split_ifs with heq hlt
    · subst heq
      exact List.pairwise_cons.mpr h
    · refine List.pairwise_cons.mpr ⟨fun m hm => ?_, List.pairwise_cons.mpr h⟩
      rcases List.mem_cons.mp hm with rfl | hm
      · exact hlt
      · exact hlt.trans (h.1 m hm)
    · refine List.pairwise_cons.mpr ⟨fun m hm => ?_, ih h.2⟩
      rcases keys_insertField k v d hm with rfl | hm
      · exact lt_of_le_of_ne (not_lt.mp hlt) (Ne.symm heq)
      · exact h.1 m hm

theorem sorted_canonicalFields (d : Dict) :
    ((Json.canonicalFields d).map Prod.fst).Pairwise (· < ·) := by
  induction d with
  | nil => exact List.Pairwise.nil
  | cons e d ih => exact sorted_insertField e.1 _ ih

/-- A field of the canonical form is the canonical form of what the dictionary has. -/
theorem mem_canonicalFields {d : Dict} {k : String} {c : Json} (h : (k, c) ∈ Json.canonicalFields d) :
    ∃ j, d.get k = some j ∧ c = j.canonical := by
  have hnodup : ((Json.canonicalFields d).map Prod.fst).Nodup :=
    (sorted_canonicalFields d).imp fun hlt => ne_of_lt hlt
  have hget : Dict.get (Json.canonicalFields d) k = some c := (Assoc.mem_iff_lookup hnodup k c).mp h
  rw [get_canonicalFields] at hget
  obtain ⟨j, hj, rfl⟩ := Option.map_eq_some_iff.mp hget
  exact ⟨j, hj, rfl⟩

/-- A dictionary is equal to itself when its values are. -/
theorem same_self {d : Dict} (h : ∀ k j, d.get k = some j → Json.same j j = true) :
    Json.same (.obj d) (.obj d) = true := by
  rw [Json.same, Json.canonical, Json.equiv]
  refine Json.equivFields_self ?_
  rintro ⟨k, c⟩ hmem
  obtain ⟨j, hj, rfl⟩ := mem_canonicalFields hmem
  exact h k j hj

end Dict
