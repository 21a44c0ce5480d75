import Saipen.Assoc

/-! # JSON values and the dictionaries built from them

The values `json.loads` produces, with an object as the list of its fields in insertion order. Two
objects mean the same when their canonical forms (fields sorted by key) agree, which is what
comparing `json.dumps(…, sort_keys=True)` decides. -/

/-- A JSON value. A float is kept as the text Python prints for it. -/
inductive Json where
  | null
  | bool (b : Bool)
  | int (n : Int)
  | float (repr : String)
  | str (s : String)
  | arr (items : List Json)
  | obj (fields : List (String × Json))

/-- A Python dictionary with string keys. -/
abbrev Dict := List (String × Json)

namespace Json

/-! ### Decidable equality -/

mutual
/-- Structural equality of two values. -/
def beq : Json → Json → Bool
  | .null, .null => true
  | .bool a, .bool b => a == b
  | .int a, .int b => a == b
  | .float a, .float b => a == b
  | .str a, .str b => a == b
  | .arr a, .arr b => beqItems a b
  | .obj a, .obj b => beqFields a b
  | _, _ => false

/-- Structural equality of two lists of values. -/
def beqItems : List Json → List Json → Bool
  | [], [] => true
  | a :: as, b :: bs => beq a b && beqItems as bs
  | _, _ => false

/-- Structural equality of two lists of fields. -/
def beqFields : List (String × Json) → List (String × Json) → Bool
  | [], [] => true
  | (k, a) :: as, (l, b) :: bs => (k == l && beq a b) && beqFields as bs
  | _, _ => false
end

mutual
theorem beq_iff : ∀ a b : Json, beq a b = true ↔ a = b
  | .arr a, .arr b => by simp [beq, beqItems_iff a b]
  | .obj a, .obj b => by simp [beq, beqFields_iff a b]
  | .null, b => by cases b <;> simp [beq]
  | .bool _, b => by cases b <;> simp [beq]
  | .int _, b => by cases b <;> simp [beq]
  | .float _, b => by cases b <;> simp [beq]
  | .str _, b => by cases b <;> simp [beq]
  | .arr _, .null | .arr _, .bool _ | .arr _, .int _ | .arr _, .float _ | .arr _, .str _
  | .arr _, .obj _ => by simp [beq]
  | .obj _, .null | .obj _, .bool _ | .obj _, .int _ | .obj _, .float _ | .obj _, .str _
  | .obj _, .arr _ => by simp [beq]

theorem beqItems_iff : ∀ a b : List Json, beqItems a b = true ↔ a = b
  | [], b => by cases b <;> simp [beqItems]
  | a :: as, [] => by simp [beqItems]
  | a :: as, b :: bs => by simp [beqItems, beq_iff a b, beqItems_iff as bs]

theorem beqFields_iff : ∀ a b : List (String × Json), beqFields a b = true ↔ a = b
  | [], b => by cases b <;> simp [beqFields]
  | a :: as, [] => by simp [beqFields]
  | (k, a) :: as, (l, b) :: bs => by simp [beqFields, beq_iff a b, beqFields_iff as bs]
end

instance : DecidableEq Json := fun a b => decidable_of_iff _ (beq_iff a b)

/-! ### Canonical form -/

/-- Insert a field into a list sorted by key, dropping it when the key is already there. -/
def insertField (k : String) (v : Json) : Dict → Dict
  | [] => [(k, v)]
  | (l, w) :: fs =>
      if k = l then (k, v) :: fs
      else if k < l then (k, v) :: (l, w) :: fs
      else (l, w) :: insertField k v fs

mutual
/-- The value with the fields of every object sorted by key, as `sort_keys=True` writes it. -/
def canonical : Json → Json
  | .arr items => .arr (canonicalItems items)
  | .obj fields => .obj (canonicalFields fields)
  | j => j

/-- Canonical forms of the items of an array. -/
def canonicalItems : List Json → List Json
  | [] => []
  | j :: js => canonical j :: canonicalItems js

/-- Canonical forms of the fields of an object, sorted by key; the first field of a key counts. -/
def canonicalFields : List (String × Json) → List (String × Json)
  | [] => []
  | (k, j) :: fs => insertField k (canonical j) (canonicalFields fs)
end

/-- A string value, if it is one. -/
def str? : Json → Option String
  | .str s => some s
  | _ => none

/-- The value of a Python `isinstance(value, int)`: booleans count as 0 and 1. -/
def int? : Json → Option Int
  | .int n => some n
  | .bool b => some (if b then 1 else 0)
  | _ => none

@[simp] theorem str?_str (s : String) : (Json.str s).str? = some s := rfl

@[simp] theorem int?_int (n : Int) : (Json.int n).int? = some n := rfl

theorem str?_eq_some {j : Json} {s : String} : j.str? = some s ↔ j = .str s := by
  cases j <;> simp [str?]

end Json

namespace Dict

/-- `dict.get`. -/
def get (d : Dict) (k : String) : Option Json := d.lookup k

/-- `d[k] = v`. -/
def set (d : Dict) (k : String) (v : Json) : Dict := Assoc.set k v d

/-- `dict.pop`. -/
def pop (d : Dict) (k : String) : Dict := Assoc.pop k d

@[simp] theorem get_nil (k : String) : Dict.get [] k = none := rfl

theorem get_cons (l k : String) (v : Json) (d : Dict) :
    Dict.get ((l, v) :: d) k = if k = l then some v else Dict.get d k :=
  Assoc.lookup_cons l k v d

/-- Reading after an assignment. -/
theorem get_set (d : Dict) (k l : String) (v : Json) :
    (Dict.set d k v).get l = if l = k then some v else d.get l :=
  Assoc.lookup_set k l v d

@[simp] theorem get_set_self (d : Dict) (k : String) (v : Json) :
    (Dict.set d k v).get k = some v := by
  rw [get_set, if_pos rfl]

theorem get_set_ne (d : Dict) {k l : String} (h : l ≠ k) (v : Json) :
    (Dict.set d k v).get l = d.get l := by
  rw [get_set, if_neg h]

theorem get_pop (d : Dict) (k l : String) :
    (Dict.pop d k).get l = if l = k then none else d.get l :=
  Assoc.lookup_pop k l d

theorem get_append (d e : Dict) (k : String) : Dict.get (d ++ e) k = (d.get k).or (e.get k) := by
  simp [get, List.lookup_append]

theorem get_eq_none {d : Dict} {k : String} (h : ∀ e ∈ d, e.1 ≠ k) : d.get k = none :=
  Assoc.lookup_eq_none h

theorem get_insertField (k l : String) (v : Json) (d : Dict) :
    Dict.get (Json.insertField k v d) l = if l = k then some v else d.get l := by
  induction d with
  | nil => simp [Json.insertField, get_cons]
  | cons e d ih =>
    obtain ⟨m, w⟩ := e
    by_cases hm : k = m
    · subst hm
      by_cases hl : l = k <;> simp [Json.insertField, get_cons, hl]
    · by_cases hlt : k < m
      · simp [Json.insertField, hm, hlt, get_cons]
      · by_cases hl : l = m
        · subst hl; simp [Json.insertField, hm, hlt, get_cons, Ne.symm hm]
        · simp [Json.insertField, hm, hlt, get_cons, hl, ih]

/-- The canonical form keeps every field. -/
theorem get_canonicalFields (d : Dict) (k : String) :
    Dict.get (Json.canonicalFields d) k = (d.get k).map Json.canonical := by
  induction d with
  | nil => rfl
  | cons e d ih =>
    obtain ⟨l, v⟩ := e
    rw [Json.canonicalFields, get_insertField, get_cons, ih]
    by_cases h : k = l <;> simp [h]

end Dict
