import Mathlib.Data.Finset.Card
import Mathlib.Data.Finset.Lattice.Fold
import Mathlib.Data.List.Basic
import Mathlib.Order.Lattice
import Mathlib.Order.MinMax

/-! # Accumulators of a pass

What a loop over a sequence keeps of it: the largest value, the newest values, and the first values up
to a cap, with and without those it has already. -/

namespace Accumulate

universe u

variable {α : Type u}

/-! ### The largest value -/

section Largest

variable [LinearOrder α] {l : List α} {k m : α}

theorem le_foldl_max : k ≤ l.foldl max m ↔ k ≤ m ∨ ∃ n ∈ l, k ≤ n := by
  induction l generalizing m with
  | nil => simp
  | cons a l ih => rw [List.foldl_cons, ih, le_max_iff, List.exists_mem_cons_iff, or_assoc]

theorem foldl_max_le : l.foldl max m ≤ k ↔ m ≤ k ∧ ∀ n ∈ l, n ≤ k := by
  induction l generalizing m with
  | nil => simp
  | cons a l ih => rw [List.foldl_cons, ih, max_le_iff, List.forall_mem_cons, and_assoc]

theorem foldl_max_mem : l.foldl max m = m ∨ l.foldl max m ∈ l := by
  induction l generalizing m with
  | nil => exact .inl rfl
  | cons a l ih =>
    rw [List.foldl_cons, List.mem_cons]
    rcases ih (m := max m a) with h | h
    · rcases max_choice m a with hm | hm
      · exact .inl (h.trans hm)
      · exact .inr (.inl (h.trans hm))
    · exact .inr (.inr h)

end Largest

/-! ### The newest values -/

/-- The last values of a list, in their order. -/
def newest (bound : Nat) (l : List α) : List α := l.drop (l.length - bound)

/-- `append` on a deque with a bound. -/
def pushBounded (bound : Nat) (l : List α) (a : α) : List α := newest bound (l ++ [a])

/-- A bounded deque holds the newest of all values it was given. -/
theorem pushBounded_newest (bound : Nat) (l : List α) (a : α) :
    pushBounded bound (newest bound l) a = newest bound (l ++ [a]) := by
  have hdrop : newest bound l ++ [a] = (l ++ [a]).drop (l.length - bound) :=
    (List.drop_append_of_le_length (Nat.sub_le ..)).symm
  rw [pushBounded, hdrop, newest, newest, List.drop_drop]
  congr 1
  simp only [List.length_drop, List.length_append, List.length_singleton]
  omega

/-- `append` on a list that takes no more than its cap. -/
def pushCapped (cap : Nat) (l : List α) (a : α) : List α := if l.length < cap then l ++ [a] else l

/-! ### The first distinct values -/

section Distinct

variable [DecidableEq α] {cap : Nat} {s t : Finset α} {a : α} {l : List α}

/-- `add` to a set that takes no more than its cap. -/
def absorb (cap : Nat) (s : Finset α) (a : α) : Finset α := if a ∈ s ∨ cap ≤ s.card then s else insert a s

/-- A set that has taken the values of a list. -/
def gather (cap : Nat) (s : Finset α) (l : List α) : Finset α := l.foldl (absorb cap) s

theorem subset_absorb : s ⊆ absorb cap s a := by
  rw [absorb]
  split_ifs
  · exact Finset.Subset.refl s
  · exact Finset.subset_insert a s

theorem card_absorb_le (h : s.card ≤ cap) : (absorb cap s a).card ≤ cap := by
  rw [absorb]
  split_ifs with hkept
  · exact h
  · rw [not_or, not_le] at hkept
    rw [Finset.card_insert_of_notMem hkept.1]
    exact hkept.2

theorem subset_gather : s ⊆ gather cap s l := by
  induction l generalizing s with
  | nil => exact Finset.Subset.refl s
  | cons a l ih => exact Finset.Subset.trans subset_absorb ih

theorem card_gather_le (h : s.card ≤ cap) : (gather cap s l).card ≤ cap := by
  induction l generalizing s with
  | nil => exact h
  | cons a l ih => exact ih (card_absorb_le h)

theorem gather_append (l l' : List α) : gather cap s (l ++ l') = gather cap (gather cap s l) l' :=
  List.foldl_append

/-- A full set takes nothing. -/
theorem gather_of_full (h : cap ≤ s.card) : gather cap s l = s := by
  induction l with
  | nil => rfl
  | cons a l ih =>
    have habsorb : absorb cap s a = s := if_pos (.inr h)
    rw [gather, List.foldl_cons, habsorb]
    exact ih

/-- What a set takes besides its own is what it takes without, as long as both have room together. -/
theorem gather_union (h : (s ∪ gather cap t l).card ≤ cap) : gather cap (s ∪ t) l = s ∪ gather cap t l := by
  induction l generalizing t with
  | nil => rfl
  | cons a l ih =>
    have hstep : absorb cap (s ∪ t) a = s ∪ absorb cap t a := by
      have hroom : (s ∪ absorb cap t a).card ≤ cap :=
        (Finset.card_le_card (Finset.union_subset_union_right subset_gather)).trans h
      by_cases hmem : a ∈ t
      · rw [absorb, absorb, if_pos (.inl (Finset.mem_union_right s hmem)), if_pos (.inl hmem)]
      by_cases hfull : cap ≤ t.card
      · -- a full set has the other in it
        have hboth : cap ≤ (s ∪ t).card := hfull.trans (Finset.card_le_card Finset.subset_union_right)
        rw [absorb, absorb, if_pos (.inr hboth), if_pos (.inr hfull)]
      have htaken : absorb cap t a = insert a t := if_neg (not_or.mpr ⟨hmem, hfull⟩)
      rw [htaken, Finset.union_insert] at hroom ⊢
      by_cases hs : a ∈ s ∪ t
      · rw [absorb, if_pos (.inl hs), Finset.insert_eq_of_mem hs]
      · rw [Finset.card_insert_of_notMem hs] at hroom
        exact if_neg (not_or.mpr ⟨hs, by omega⟩)
    show gather cap (absorb cap (s ∪ t) a) l = s ∪ gather cap (absorb cap t a) l
    rw [hstep]
    exact ih h

/-- The values of several lists, with a cap for each. -/
def gatherEach (cap : Nat) (ls : List (List α)) : Finset α := ls.foldr (fun l s => gather cap ∅ l ∪ s) ∅

theorem mem_gatherEach {ls : List (List α)} : a ∈ gatherEach cap ls ↔ ∃ l ∈ ls, a ∈ gather cap ∅ l := by
  induction ls with
  | nil => simp [gatherEach]
  | cons l ls ih => rw [gatherEach, List.foldr_cons, Finset.mem_union, ← gatherEach, ih, List.exists_mem_cons_iff]

/-- **Caps.** One cap for all lists takes the same values as a cap for each of them exactly when those do not
exceed it. -/
theorem gather_flatten_iff {ls : List (List α)} :
    gather cap ∅ ls.flatten = gatherEach cap ls ↔ (gatherEach cap ls).card ≤ cap := by
  constructor
  · intro h
    rw [← h]
    exact card_gather_le (Nat.zero_le cap)
  · intro h
    -- the lists taken so far are a set of their own
    have hfrom : ∀ (ls : List (List α)) (s : Finset α), (s ∪ gatherEach cap ls).card ≤ cap →
        gather cap s ls.flatten = s ∪ gatherEach cap ls := by
      intro ls
      induction ls with
      | nil => exact fun s _ => (Finset.union_empty s).symm
      | cons l ls ih =>
        intro s hs
        have heach : gatherEach cap (l :: ls) = gather cap ∅ l ∪ gatherEach cap ls := rfl
        rw [heach, ← Finset.union_assoc] at hs ⊢
        have hl : gather cap s l = s ∪ gather cap ∅ l := by
          have hroom : (s ∪ gather cap ∅ l).card ≤ cap :=
            (Finset.card_le_card Finset.subset_union_left).trans hs
          have := gather_union hroom
          rwa [Finset.union_empty] at this
        rw [List.flatten_cons, gather_append, hl, ih _ hs]
    have := hfrom ls ∅ (by rwa [Finset.empty_union])
    rwa [Finset.empty_union] at this

end Distinct

end Accumulate
