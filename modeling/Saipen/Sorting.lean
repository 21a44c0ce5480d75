import Mathlib.Data.List.Sort

/-! # Sorting by a key

`list.sort(key=…)` is stable: what ties stays in the order in which it came. The result is the same for every
order of the items exactly when no two of them tie. -/

namespace Sorting

variable {α β κ : Type} [LinearOrder κ] (key : α → κ)

/-- `sorted(items, key=key)`. -/
def sortBy (l : List α) : List α := l.insertionSort fun a b => key a ≤ key b

variable {key} {l l' : List α}

theorem sortBy_perm (l : List α) : (sortBy key l).Perm l := List.perm_insertionSort _ l

@[simp] theorem mem_sortBy {a : α} : a ∈ sortBy key l ↔ a ∈ l := (sortBy_perm l).mem_iff

theorem pairwise_sortBy (l : List α) : (sortBy key l).Pairwise fun a b => key a ≤ key b :=
  have : Std.Total fun a b : α => key a ≤ key b := ⟨fun _ _ => le_total _ _⟩
  have : IsTrans α fun a b => key a ≤ key b := ⟨fun _ _ _ => le_trans⟩
  List.pairwise_insertionSort _ l

/-- Sorting looks at the keys only. -/
theorem map_sortBy (f : α → β) (key : β → κ) (l : List α) :
    (sortBy (key ∘ f) l).map f = sortBy key (l.map f) :=
  List.map_insertionSort _ _ f l fun _ _ _ _ => Iff.rfl

/-- Items without a tie come out in one order. -/
theorem sortBy_eq_of_perm (h : l.Perm l') (hkeys : (l.map key).Nodup) : sortBy key l = sortBy key l' := by
  have hperm : (sortBy key l).Perm (sortBy key l') := (sortBy_perm l).trans (h.trans (sortBy_perm l').symm)
  refine hperm.eq_of_pairwise (fun a b ha hb hab hba => ?_) (pairwise_sortBy l) (pairwise_sortBy l')
  have hb' : b ∈ l := h.mem_iff.mpr (mem_sortBy.mp hb)
  exact List.inj_on_of_nodup_map hkeys (mem_sortBy.mp ha) hb' (le_antisymm hab hba)

/-- Two items that tie stay in their order. -/
theorem pair_sublist_sortBy {a b : α} (hab : key a ≤ key b) (h : [a, b].Sublist l) :
    [a, b].Sublist (sortBy key l) :=
  have : Std.Total fun a b : α => key a ≤ key b := ⟨fun _ _ => le_total _ _⟩
  have : IsTrans α fun a b => key a ≤ key b := ⟨fun _ _ _ => le_trans⟩
  List.pair_sublist_insertionSort hab h

/-- Two items of a list without repetition stand in one order only. -/
theorem not_sublist_swap {a b : α} (hnodup : l.Nodup) (hab : [a, b].Sublist l) : ¬ [b, a].Sublist l := by
  induction l with
  | nil => cases hab
  | cons c l ih =>
    obtain ⟨hfresh, hrest⟩ := List.nodup_cons.mp hnodup
    intro hba
    cases hab with
    | cons _ hab =>
      cases hba with
      | cons _ hba => exact ih hrest hab hba
      | cons_cons _ hba => exact hfresh (hab.subset (by simp))
    | cons_cons _ hab =>
      cases hba with
      | cons _ hba => exact hfresh (hba.subset (by simp))
      | cons_cons _ hba => exact hfresh (hab.subset (by simp))

/-- What comes out in one order whichever way it came has no tie. -/
theorem nodup_keys_of_sortBy_reverse (hnodup : l.Nodup) (h : sortBy key l.reverse = sortBy key l) :
    (l.map key).Nodup := by
  have hpair : l.Pairwise fun a b => key a ≠ key b := by
    rw [List.pairwise_iff_forall_sublist]
    intro a b hab heq
    -- A tie would put the two items in either order.
    have hforth := pair_sublist_sortBy heq.le hab
    have hback := pair_sublist_sortBy heq.ge (List.reverse_sublist.mpr hab)
    rw [h] at hback
    have hsorted : (sortBy key l).Nodup := (sortBy_perm l).nodup_iff.mpr hnodup
    exact not_sublist_swap hsorted hforth hback
  exact List.pairwise_map.mpr hpair

/-- An item whose key is greater than all others comes out last. -/
theorem sortBy_concat {a : α} (h : ∀ b ∈ l, key b < key a) : sortBy key (l ++ [a]) = sortBy key l ++ [a] := by
  have hinsert : ∀ (b : α) (ls : List α), key b < key a →
      (ls ++ [a]).orderedInsert (fun x y => key x ≤ key y) b = ls.orderedInsert (fun x y => key x ≤ key y) b ++ [a] := by
    intro b ls hb
    induction ls with
    | nil => simp [hb.le]
    | cons c ls ih =>
      rw [List.cons_append, List.orderedInsert_cons, List.orderedInsert_cons, ih]
      split <;> rfl
  rw [sortBy, sortBy]
  induction l with
  | nil => rfl
  | cons b l ih =>
    rw [List.cons_append, List.insertionSort_cons, List.insertionSort_cons,
      ih fun c hc => h c (List.mem_cons_of_mem _ hc), hinsert b _ (h b List.mem_cons_self)]

end Sorting
