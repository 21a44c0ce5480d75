import Mathlib.Data.List.Basic
import Mathlib.Data.List.Pairwise

/-! # Groups by a key

Items are put into groups by a key, in the order the keys first occur. A group keeps the item that opened
it, so what is read off that item depends on the order unless items of one key agree on it. -/

namespace Grouping

universe u v

variable {α : Type u} {κ : Type v} [DecidableEq κ]

/-- The items of a key, and the first of them. -/
structure Bunch (α : Type u) where
  lead : α
  members : List α

variable (key : α → κ)

/-- An item joins the group of its key, or opens it behind the others. -/
def add : List (Bunch α) → α → List (Bunch α)
  | [], a => [⟨a, [a]⟩]
  | g :: gs, a =>
      if key g.lead = key a then ⟨g.lead, g.members ++ [a]⟩ :: gs else g :: add gs a

/-- The groups of some items. -/
def of (items : List α) : List (Bunch α) := items.foldl (add key) []

/-- The groups of the items: every item stands in the one group of its key, and no other does. -/
structure Bunches (items : List α) (gs : List (Bunch α)) : Prop where
  lead : ∀ g ∈ gs, g.lead ∈ g.members
  same : ∀ g ∈ gs, ∀ a ∈ g.members, a ∈ items ∧ key a = key g.lead
  every : ∀ a ∈ items, ∃ g ∈ gs, a ∈ g.members
  once : gs.Pairwise fun g h => key g.lead ≠ key h.lead

variable {key} {items : List α} {gs : List (Bunch α)} {a : α}

/-- The keys after an item was added: the new one behind the others, if it is new. -/
theorem keys_add (gs : List (Bunch α)) (a : α) {k : κ} (h : ∃ g ∈ add key gs a, key g.lead = k) :
    (∃ g ∈ gs, key g.lead = k) ∨ k = key a := by
  induction gs with
  | nil =>
    obtain ⟨g, hg, rfl⟩ := h
    rw [List.mem_singleton.mp hg]
    exact .inr rfl
  | cons g gs ih =>
    rw [add] at h
    split_ifs at h with hkey
    · obtain ⟨g', hg', rfl⟩ := h
      rcases List.mem_cons.mp hg' with rfl | hg'
      · exact .inr hkey
      · exact .inl ⟨g', List.mem_cons_of_mem _ hg', rfl⟩
    · obtain ⟨g', hg', rfl⟩ := h
      rcases List.mem_cons.mp hg' with rfl | hg'
      · exact .inl ⟨g', List.mem_cons_self, rfl⟩
      · rcases ih ⟨g', hg', rfl⟩ with ⟨h', hh', heq⟩ | heq
        · exact .inl ⟨h', List.mem_cons_of_mem _ hh', heq⟩
        · exact .inr heq

/-- What a group has after an item was added: it has it from before, or it is the item's. -/
theorem mem_add {g : Bunch α} (h : g ∈ add key gs a) :
    g ∈ gs ∨ (g = ⟨a, [a]⟩ ∨ ∃ g' ∈ gs, key g'.lead = key a ∧ g = ⟨g'.lead, g'.members ++ [a]⟩) := by
  induction gs with
  | nil => exact .inr (.inl (List.mem_singleton.mp h))
  | cons f gs ih =>
    rw [add] at h
    split_ifs at h with hkey
    · rcases List.mem_cons.mp h with rfl | h
      · exact .inr (.inr ⟨f, List.mem_cons_self, hkey, rfl⟩)
      · exact .inl (List.mem_cons_of_mem _ h)
    · rcases List.mem_cons.mp h with rfl | h
      · exact .inl List.mem_cons_self
      · rcases ih h with h | h | ⟨g', hg', h⟩
        · exact .inl (List.mem_cons_of_mem _ h)
        · exact .inr (.inl h)
        · exact .inr (.inr ⟨g', List.mem_cons_of_mem _ hg', h⟩)

variable (key) in
/-- No member of a group is lost, and the item added is in one. -/
theorem members_add (gs : List (Bunch α)) (a : α) :
    (∀ g ∈ gs, ∃ g' ∈ add key gs a, g.members ⊆ g'.members) ∧ ∃ g ∈ add key gs a, a ∈ g.members := by
  induction gs with
  | nil => exact ⟨fun g hg => absurd hg List.not_mem_nil, _, List.mem_singleton_self _, List.mem_singleton_self _⟩
  | cons f gs ih =>
    rw [add]
    split_ifs with hkey
    · refine ⟨fun g hg => ?_, _, List.mem_cons_self, by simp⟩
      rcases List.mem_cons.mp hg with rfl | hg
      · exact ⟨_, List.mem_cons_self, List.subset_append_left _ _⟩
      · exact ⟨g, List.mem_cons_of_mem _ hg, List.Subset.refl _⟩
    · obtain ⟨hkeep, g, hg, hmem⟩ := ih
      refine ⟨fun h hh => ?_, g, List.mem_cons_of_mem _ hg, hmem⟩
      rcases List.mem_cons.mp hh with rfl | hh
      · exact ⟨_, List.mem_cons_self, List.Subset.refl _⟩
      · obtain ⟨h', hh', hsub⟩ := hkeep h hh
        exact ⟨h', List.mem_cons_of_mem _ hh', hsub⟩

/-- The keys of the groups stay apart. -/
theorem once_add (h : gs.Pairwise fun g h => key g.lead ≠ key h.lead) :
    (add key gs a).Pairwise fun g h => key g.lead ≠ key h.lead := by
  induction gs with
  | nil => exact List.pairwise_singleton _ _
  | cons f gs ih =>
    rw [List.pairwise_cons] at h
    rw [add]
    split_ifs with hkey
    · exact List.pairwise_cons.mpr h
    · refine List.pairwise_cons.mpr ⟨fun g hg heq => ?_, ih h.2⟩
      rcases keys_add gs a ⟨g, hg, rfl⟩ with ⟨g', hg', heq'⟩ | heq'
      · exact h.1 g' hg' (heq.trans heq'.symm)
      · exact hkey (heq.trans heq')

/-- One more item. -/
theorem Bunches.add (h : Bunches key items gs) (a : α) : Bunches key (items ++ [a]) (add key gs a) where
  lead g hg := by
    rcases mem_add hg with hg | rfl | ⟨g', hg', -, rfl⟩
    · exact h.lead g hg
    · exact List.mem_singleton_self a
    · exact List.mem_append_left _ (h.lead g' hg')
  same g hg b hb := by
    rcases mem_add hg with hg | rfl | ⟨g', hg', hkey, rfl⟩
    · obtain ⟨hmem, hsame⟩ := h.same g hg b hb
      exact ⟨List.mem_append_left _ hmem, hsame⟩
    · rw [List.mem_singleton.mp hb]
      exact ⟨List.mem_append_right _ (List.mem_singleton_self a), rfl⟩
    · rcases List.mem_append.mp hb with hb | hb
      · obtain ⟨hmem, hsame⟩ := h.same g' hg' b hb
        exact ⟨List.mem_append_left _ hmem, hsame⟩
      · rw [List.mem_singleton.mp hb]
        exact ⟨List.mem_append_right _ (List.mem_singleton_self a), hkey.symm⟩
  every b hb := by
    obtain ⟨hkeep, hnew⟩ := members_add key gs a
    rcases List.mem_append.mp hb with hb | hb
    · obtain ⟨g, hg, hmem⟩ := h.every b hb
      obtain ⟨g', hg', hsub⟩ := hkeep g hg
      exact ⟨g', hg', hsub hmem⟩
    · rw [List.mem_singleton.mp hb]
      exact hnew
  once := once_add h.once

/-- The groups of some items are their groups. -/
theorem bunches_of (items : List α) : Bunches key items (of key items) := by
  have hfold : ∀ (rest done : List α) (gs : List (Bunch α)), Bunches key done gs →
      Bunches key (done ++ rest) (rest.foldl (add key) gs) := by
    intro rest
    induction rest with
    | nil => exact fun done gs h => by simpa using h
    | cons a rest ih =>
      intro done gs h
      have := ih _ _ (h.add a)
      rwa [List.append_assoc, List.singleton_append] at this
  have hnil : Bunches key [] [] :=
    ⟨fun _ hg => absurd hg List.not_mem_nil, fun _ hg => absurd hg List.not_mem_nil,
      fun _ ha => absurd ha List.not_mem_nil, .nil⟩
  exact hfold items [] [] hnil

omit [DecidableEq κ] in
/-- Items of one key are in one group. -/
theorem Bunches.eq_of_key {g h : Bunch α} (hgs : Bunches key items gs) (hg : g ∈ gs) (hh : h ∈ gs)
    (heq : key g.lead = key h.lead) : g = h := by
  by_contra hne
  have : Std.Symm fun g h : Bunch α => key g.lead ≠ key h.lead := ⟨fun _ _ => Ne.symm⟩
  exact hgs.once.forall hg hh hne heq

end Grouping
