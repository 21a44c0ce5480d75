import Mathlib.Data.List.Forall2

/-! # Templates

A template fixes some places of a list and leaves the others open. Two templates fit if no place is fixed
to different values by them; then one list fills both. -/

namespace Template

universe u

variable {β : Type u}

/-- A list has the values a template fixes. -/
def Fills (t : List (Option β)) (s : List β) : Prop := List.Forall₂ (fun o b => ∀ a, o = some a → a = b) t s

/-- Two templates have the same length and fix no place to different values. -/
def Fit (t u : List (Option β)) : Prop := List.Forall₂ (fun x y => ∀ a b, x = some a → y = some b → a = b) t u

/-- The list that has what either template fixes, and a default elsewhere. -/
def overlay (default : β) (t u : List (Option β)) : List β :=
  List.zipWith (fun x y => (x.or y).getD default) t u

variable {t u : List (Option β)} {s r : List β}

theorem Fills.append (hs : Fills t s) (hr : Fills u r) : Fills (t ++ u) (s ++ r) := List.rel_append hs hr

/-- A filled template comes apart where it was put together. -/
theorem Fills.split (h : Fills (t ++ u) s) : ∃ r q, s = r ++ q ∧ Fills t r ∧ Fills u q := by
  unfold Fills at h ⊢
  refine ⟨s.take t.length, s.drop t.length, (List.take_append_drop _ s).symm, ?_, ?_⟩
  · simpa using List.forall₂_take t.length h
  · simpa using List.forall₂_drop t.length h

/-- Open places take anything. -/
theorem fills_replicate {n : Nat} : Fills (List.replicate n none) s ↔ s.length = n := by
  induction n generalizing s with
  | zero => simp [Fills]
  | succ n ih =>
    cases s with
    | nil => simp [Fills, List.replicate_succ]
    | cons b s =>
      have := ih (s := s)
      unfold Fills at this ⊢
      simp [List.replicate_succ, this]

/-- Fixed places take what they are fixed to. -/
theorem fills_map_some : Fills (r.map some) s ↔ s = r := by
  simp [Fills, eq_comm]

/-- Templates that one list fills fit. -/
theorem Fills.fit (ht : Fills t s) (hu : Fills u s) : Fit t u := by
  induction ht generalizing u with
  | nil =>
    cases hu
    exact .nil
  | cons hab _ ih =>
    cases hu with
    | cons hcb hrest => exact .cons (fun a c ha hc => (hab a ha).trans (hcb c hc).symm) (ih hrest)

/-- The overlay of templates that fit fills both. -/
theorem Fit.fills_overlay (h : Fit t u) (default : β) :
    Fills t (overlay default t u) ∧ Fills u (overlay default t u) := by
  induction h with
  | nil => exact ⟨.nil, .nil⟩
  | @cons x y _ _ hxy _ ih =>
    refine ⟨.cons (fun a ha => ?_) ih.1, .cons (fun b hb => ?_) ih.2⟩
    · rw [ha]
      rfl
    · rw [hb]
      cases x with
      | none => rfl
      | some a => exact (hxy a b rfl hb).symm

/-- The overlay has nothing but what is fixed, and the default. -/
theorem mem_overlay {default b : β} (h : b ∈ overlay default t u) : some b ∈ t ∨ some b ∈ u ∨ b = default := by
  induction t generalizing u with
  | nil => simp [overlay] at h
  | cons x t ih =>
    cases u with
    | nil => simp [overlay] at h
    | cons y u =>
      rw [overlay, List.zipWith_cons_cons, List.mem_cons] at h
      rcases h with rfl | h
      · cases x with
        | some a => exact .inl List.mem_cons_self
        | none =>
          cases y with
          | some c => exact .inr (.inl List.mem_cons_self)
          | none => exact .inr (.inr rfl)
      · rcases ih h with ht | hu | hb
        · exact .inl (List.mem_cons_of_mem _ ht)
        · exact .inr (.inl (List.mem_cons_of_mem _ hu))
        · exact .inr (.inr hb)

end Template
