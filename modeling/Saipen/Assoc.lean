import Mathlib.Data.List.Basic
import Mathlib.Data.List.Nodup

/-! # Association lists as dictionaries

Python dictionaries as lists of key-value pairs in insertion order: assignment replaces a pair in
place or adds it behind the others, `pop` removes a key, and reading is `List.lookup`. -/

namespace Assoc

universe u

variable {α : Type u}

/-- `d[k] = v`. -/
def set (k : String) (v : α) : List (String × α) → List (String × α)
  | [] => [(k, v)]
  | (l, w) :: d => if l = k then (k, v) :: d else (l, w) :: set k v d

/-- `d.pop(k, None)`. -/
def pop (k : String) : List (String × α) → List (String × α)
  | [] => []
  | (l, w) :: d => if l = k then pop k d else (l, w) :: pop k d

theorem lookup_cons (l k : String) (v : α) (d : List (String × α)) :
    List.lookup k ((l, v) :: d) = if k = l then some v else d.lookup k := by
  by_cases h : k = l
  · simp [h]
  · rw [List.lookup_cons, beq_eq_false_iff_ne.mpr h, if_neg h]

/-- Reading after an assignment. -/
theorem lookup_set (k l : String) (v : α) (d : List (String × α)) :
    (set k v d).lookup l = if l = k then some v else d.lookup l := by
  induction d with
  | nil => exact lookup_cons k l v []
  | cons e d ih =>
    obtain ⟨m, w⟩ := e
    by_cases hm : m = k
    · subst hm
      rw [set, if_pos rfl, lookup_cons, lookup_cons]
      by_cases h : l = m <;> simp [h]
    · rw [set, if_neg hm, lookup_cons, ih, lookup_cons]
      by_cases h : l = m
      · subst h; simp [hm]
      · simp [h]

/-- Reading after a removal. -/
theorem lookup_pop (k l : String) (d : List (String × α)) :
    (pop k d).lookup l = if l = k then none else d.lookup l := by
  induction d with
  | nil => simp [pop]
  | cons e d ih =>
    obtain ⟨m, w⟩ := e
    by_cases hm : m = k
    · subst hm
      rw [pop, if_pos rfl, ih, lookup_cons]
      by_cases h : l = m <;> simp [h]
    · rw [pop, if_neg hm, lookup_cons, ih, lookup_cons]
      by_cases h : l = m
      · subst h; simp [hm]
      · simp [h]

/-- A key that occurs nowhere reads as absent. -/
theorem lookup_eq_none {k : String} {d : List (String × α)} (h : ∀ e ∈ d, e.1 ≠ k) :
    d.lookup k = none := by
  induction d with
  | nil => rfl
  | cons e d ih =>
    obtain ⟨l, v⟩ := e
    rw [lookup_cons, if_neg (Ne.symm (h (l, v) List.mem_cons_self))]
    exact ih fun e he => h e (List.mem_cons_of_mem _ he)

theorem notMem_iff_lookup {k : String} {d : List (String × α)} :
    k ∉ d.map (·.1) ↔ d.lookup k = none := by
  constructor
  · exact fun h => lookup_eq_none fun e he heq => h (heq ▸ List.mem_map_of_mem he)
  · intro h hmem
    induction d with
    | nil => cases hmem
    | cons e d ih =>
      obtain ⟨l, v⟩ := e
      rw [lookup_cons] at h
      split at h
      case isTrue => cases h
      case isFalse hk =>
        rcases List.mem_cons.mp hmem with heq | hmem
        · exact hk heq
        · exact ih h hmem

theorem keys_set (k : String) (v : α) (d : List (String × α)) :
    (set k v d).map Prod.fst =
      if k ∈ d.map Prod.fst then d.map Prod.fst else d.map Prod.fst ++ [k] := by
  induction d with
  | nil => simp [set]
  | cons e d ih =>
    obtain ⟨l, w⟩ := e
    by_cases hl : l = k
    · subst hl; simp [set]
    · rw [set, if_neg hl, List.map_cons, ih]
      by_cases hm : k ∈ d.map Prod.fst
      · rw [if_pos hm, List.map_cons, if_pos (List.mem_cons_of_mem _ hm)]
      · rw [if_neg hm, List.map_cons, if_neg (by simpa [Ne.symm hl] using hm)]
        rfl

/-- A new key goes behind the others. -/
theorem set_of_notMem {k : String} (v : α) {d : List (String × α)} (h : k ∉ d.map Prod.fst) :
    set k v d = d ++ [(k, v)] := by
  induction d with
  | nil => rfl
  | cons e d ih =>
    obtain ⟨l, w⟩ := e
    rw [List.map_cons, List.mem_cons, not_or] at h
    rw [set, if_neg (Ne.symm h.1), ih h.2, List.cons_append]

/-- A key that is there is assigned in place. -/
theorem set_append_cons {k : String} (v w : α) {d : List (String × α)} (h : k ∉ d.map Prod.fst)
    (e : List (String × α)) : set k w (d ++ (k, v) :: e) = d ++ (k, w) :: e := by
  induction d with
  | nil => rw [List.nil_append, set, if_pos rfl, List.nil_append]
  | cons x d ih =>
    obtain ⟨l, u⟩ := x
    rw [List.map_cons, List.mem_cons, not_or] at h
    rw [List.cons_append, set, if_neg (Ne.symm h.1), ih h.2, List.cons_append]

/-- An assignment adds one pair at most. -/
theorem mem_of_mem_set {k : String} {v : α} {x : String × α} {d : List (String × α)} (h : x ∈ set k v d) :
    x = (k, v) ∨ x ∈ d := by
  induction d with
  | nil => exact .inl (List.mem_singleton.mp h)
  | cons e d ih =>
    obtain ⟨l, w⟩ := e
    rw [set] at h
    split at h
    · exact (List.mem_cons.mp h).imp_right (List.mem_cons_of_mem _)
    · rcases List.mem_cons.mp h with rfl | h
      · exact .inr List.mem_cons_self
      · exact (ih h).imp_right (List.mem_cons_of_mem _)

theorem pop_sublist (k : String) (d : List (String × α)) : (pop k d).Sublist d := by
  induction d with
  | nil => exact List.Sublist.refl _
  | cons e d ih =>
    obtain ⟨l, w⟩ := e
    by_cases hl : l = k
    · rw [pop, if_pos hl]; exact ih.cons _
    · rw [pop, if_neg hl]; exact ih.cons_cons _

theorem nodup_set {k : String} (v : α) {d : List (String × α)} (h : (d.map Prod.fst).Nodup) :
    ((set k v d).map Prod.fst).Nodup := by
  rw [keys_set]
  split
  · exact h
  · next hk => exact (List.nodup_append_comm.mp (List.nodup_cons.mpr ⟨hk, h⟩ : ([k] ++ _).Nodup))

theorem nodup_pop {k : String} {d : List (String × α)} (h : (d.map Prod.fst).Nodup) :
    ((pop k d).map Prod.fst).Nodup :=
  h.sublist ((pop_sublist k d).map Prod.fst)

/-- What is read is there. -/
theorem mem_of_lookup {k : String} {v : α} {d : List (String × α)} (h : d.lookup k = some v) :
    (k, v) ∈ d := by
  induction d with
  | nil => cases h
  | cons e d ih =>
    rw [lookup_cons] at h
    split at h
    case isTrue hk =>
      obtain rfl := Option.some.inj h
      exact hk ▸ List.mem_cons_self
    case isFalse => exact List.mem_cons_of_mem _ (ih h)

/-- With distinct keys, membership is reading. -/
theorem mem_iff_lookup {d : List (String × α)} (h : (d.map Prod.fst).Nodup) (k : String) (v : α) :
    (k, v) ∈ d ↔ d.lookup k = some v := by
  induction d with
  | nil => simp
  | cons e d ih =>
    obtain ⟨l, w⟩ := e
    rw [List.map_cons, List.nodup_cons] at h
    rw [lookup_cons]
    by_cases hk : k = l
    · subst hk
      rw [if_pos rfl, Option.some.injEq, List.mem_cons, Prod.mk.injEq]
      refine ⟨fun hm => ?_, fun hw => .inl ⟨rfl, hw.symm⟩⟩
      rcases hm with ⟨-, rfl⟩ | hm
      · rfl
      · exact absurd (List.mem_map_of_mem (f := Prod.fst) hm) h.1
    · rw [if_neg hk, List.mem_cons, Prod.mk.injEq, ih h.2]
      simp [hk]

end Assoc
