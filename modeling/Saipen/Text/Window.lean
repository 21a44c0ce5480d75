import Mathlib.Data.List.Basic
import Mathlib.Data.List.Induction

/-! # Searching backwards in windows

A file is searched for its last element with a property from the end, a window of bounded size at a
time. Whatever the size of the windows, the search finds what a search of the whole list finds. -/

namespace Window

variable {α : Type} (p : α → Bool)

/-- The position behind the last element with the property. -/
def lastPast (l : List α) : Option ℕ := (l.reverse.findIdx? p).map (l.length - ·)

/-- Search the first `cursor` elements from their end, `size` elements at a time. -/
def scanBack (size : ℕ) (l : List α) (cursor : ℕ) : Option ℕ :=
  if cursor = 0 ∨ size = 0 then none
  else
    match lastPast p ((l.take cursor).drop (cursor - size)) with
    | some i => some (cursor - size + i)
    | none => scanBack size l (cursor - size)
termination_by cursor
decreasing_by omega

variable {p}

@[simp] theorem lastPast_nil : lastPast p [] = none := rfl

/-- The last element of two lists is looked for in the second one first. -/
theorem lastPast_append (a b : List α) :
    lastPast p (a ++ b) = ((lastPast p b).map (a.length + ·)).or (lastPast p a) := by
  rw [lastPast, List.reverse_append, List.findIdx?_append]
  cases hb : b.reverse.findIdx? p with
  | some i =>
    have hi : i < b.length := by
      have := List.findIdx?_eq_some_iff_findIdx_eq.mp hb
      simpa using this.1
    simp only [lastPast, hb, Option.map_some, Option.some_or, List.length_append, Option.some.injEq]
    omega
  | none =>
    simp only [lastPast, hb, Option.map_none, Option.none_or, Option.map_map, List.length_append,
      List.length_reverse]
    congr 1
    funext i
    show a.length + b.length - (i + b.length) = a.length - i
    omega

theorem lastPast_concat (l : List α) {x : α} (hx : p x = true) : lastPast p (l ++ [x]) = some (l.length + 1) := by
  rw [lastPast, List.reverse_concat, List.findIdx?_cons, if_pos hx]
  simp

/-- What is found, with what lies around it. -/
theorem lastPast_eq_some {l : List α} {e : ℕ} (h : lastPast p l = some e) :
    ∃ pre x post, l = pre ++ x :: post ∧ e = pre.length + 1 ∧ p x = true ∧ ∀ y ∈ post, p y = false := by
  induction l using List.reverseRecOn with
  | nil => simp at h
  | append_singleton l x ih =>
    rw [lastPast_append] at h
    by_cases hx : p x = true
    · have hlast : lastPast p [x] = some 1 := lastPast_concat [] hx
      rw [hlast] at h
      exact ⟨l, x, [], rfl, (Option.some.inj h).symm, hx, by simp⟩
    · have hnone : lastPast p [x] = none := by simp [lastPast, hx]
      rw [hnone] at h
      obtain ⟨pre, y, post, rfl, he, hy, hpost⟩ := ih h
      refine ⟨pre, y, post ++ [x], by simp, he, hy, fun z hz => ?_⟩
      rcases List.mem_append.mp hz with hz | hz
      · exact hpost z hz
      · rw [List.mem_singleton.mp hz]
        simpa using hx

/-- Nothing is found where there is nothing to find. -/
theorem lastPast_eq_none {l : List α} : lastPast p l = none ↔ ∀ x ∈ l, p x = false := by
  simp [lastPast, List.findIdx?_eq_none_iff]

/-- **Windows do not matter.** -/
theorem scanBack_eq {size : ℕ} (hsize : 0 < size) (l : List α) (cursor : ℕ) (hcursor : cursor ≤ l.length) :
    scanBack p size l cursor = lastPast p (l.take cursor) := by
  induction cursor using Nat.strongRecOn with
  | _ cursor ih =>
    rw [scanBack]
    split_ifs with hend
    · have hzero : cursor = 0 := by omega
      simp [hzero]
    · -- the window is what the whole search looks at first
      have hcut : l.take cursor = l.take (cursor - size) ++ (l.take cursor).drop (cursor - size) := by
        have hfront : l.take (cursor - size) = (l.take cursor).take (cursor - size) := by
          rw [List.take_take, Nat.min_eq_left (Nat.sub_le _ _)]
        rw [hfront, List.take_append_drop]
      have hlength : (l.take (cursor - size)).length = cursor - size := by
        rw [List.length_take]
        omega
      rw [hcut, lastPast_append, hlength, ← hcut]
      cases hwindow : lastPast p ((l.take cursor).drop (cursor - size)) with
      | some i => rfl
      | none => simpa using ih (cursor - size) (by omega) (by omega)

end Window
