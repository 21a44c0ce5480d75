import Mathlib.Data.Finset.Card
import Mathlib.Logic.Relation

/-! # Sweeps

A sweep marks nodes from a worklist: the node that came last is taken off, and its successors that may be
marked and are not yet are marked and wait in their turn. In the end the marked nodes are those that were
marked from the start and those that can be reached from a node that was waiting. -/

namespace Graph

variable {α : Type} [DecidableEq α]

/-- The nodes that are marked, in the order in which they were, and those that wait, the last one first. -/
structure Sweep (α : Type) where
  marked : List α
  waiting : List α

/-- A node that may be marked and is not yet. -/
def Sweep.mark (may : α → Bool) (s : Sweep α) (b : α) : Sweep α :=
  if b ∈ s.marked ∨ may b = false then s else ⟨s.marked ++ [b], b :: s.waiting⟩

/-- The sweep, as long as the steps last. -/
def sweep (next : α → List α) (may : α → Bool) : ℕ → Sweep α → Option (List α)
  | _, ⟨marked, []⟩ => some marked
  | 0, ⟨_, _ :: _⟩ => none
  | steps + 1, ⟨marked, a :: waiting⟩ => sweep next may steps ((next a).foldl (Sweep.mark may) ⟨marked, waiting⟩)

/-- A node leads to a successor that may be marked. -/
def Marks (next : α → List α) (may : α → Bool) (a b : α) : Prop := b ∈ next a ∧ may b = true

open Relation

variable {next : α → List α} {may : α → Bool} {s : Sweep α} {out : List α}

/-! ### The successors of one node -/

/-- What is marked when the successors of a node are looked at. -/
theorem foldl_mark (may : α → Bool) (bs : List α) : ∀ s : Sweep α, ∃ new : List α,
    bs.foldl (Sweep.mark may) s = ⟨s.marked ++ new, new.reverse ++ s.waiting⟩ ∧ new.Nodup ∧
      (∀ b ∈ new, b ∈ bs ∧ may b = true ∧ b ∉ s.marked) ∧ ∀ b ∈ bs, may b = true → b ∈ s.marked ++ new := by
  induction bs with
  | nil => exact fun s => ⟨[], by simp, List.nodup_nil, by simp, by simp⟩
  | cons b bs ih =>
    intro s
    rw [List.foldl_cons]
    by_cases hskip : b ∈ s.marked ∨ may b = false
    · obtain ⟨new, hfold, hnodup, hnew, hall⟩ := ih s
      rw [Sweep.mark, if_pos hskip]
      refine ⟨new, hfold, hnodup, fun c hc => ?_, fun c hc hmay => ?_⟩
      · exact ⟨List.mem_cons_of_mem _ (hnew c hc).1, (hnew c hc).2⟩
      · rcases List.mem_cons.mp hc with rfl | hc
        · refine List.mem_append_left _ (hskip.resolve_right ?_)
          rw [hmay]
          exact Bool.noConfusion
        · exact hall c hc hmay
    · rw [Sweep.mark, if_neg hskip]
      obtain ⟨hfresh, hmay⟩ := not_or.mp hskip
      obtain ⟨new, hfold, hnodup, hnew, hall⟩ := ih ⟨s.marked ++ [b], b :: s.waiting⟩
      refine ⟨b :: new, ?_, List.nodup_cons.mpr ⟨fun hmem => (hnew b hmem).2.2 (by simp), hnodup⟩, ?_, ?_⟩
      · rw [hfold]
        simp
      · intro c hc
        rcases List.mem_cons.mp hc with rfl | hc
        · exact ⟨List.mem_cons_self, by simpa using hmay, hfresh⟩
        · obtain ⟨hin, hcan, hnot⟩ := hnew c hc
          exact ⟨List.mem_cons_of_mem _ hin, hcan, fun hmem => hnot (List.mem_append_left _ hmem)⟩
      · intro c hc hcan
        have hcase : c ∈ s.marked ++ [b] ++ new → c ∈ s.marked ++ b :: new := by simp
        rcases List.mem_cons.mp hc with rfl | hc
        · exact hcase (by simp)
        · exact hcase (hall c hc hcan)

/-! ### What is marked -/

/-- What a marked node that waits no longer leads to is marked. -/
def Sweep.Settled (next : α → List α) (may : α → Bool) (s : Sweep α) : Prop :=
  ∀ a ∈ s.marked, a ∉ s.waiting → ∀ b, Marks next may a b → b ∈ s.marked

/-- What a marked node leads to is marked, or a node that waits leads to it. -/
theorem Sweep.Settled.reaches (h : s.Settled next may) {a b : α} (ha : a ∈ s.marked)
    (hab : TransGen (Marks next may) a b) : b ∈ s.marked ∨ ∃ c ∈ s.waiting, TransGen (Marks next may) c b := by
  induction hab using TransGen.head_induction_on with
  | @single a hab =>
    by_cases hwait : a ∈ s.waiting
    · exact .inr ⟨a, hwait, .single hab⟩
    · exact .inl (h a ha hwait _ hab)
  | @head a c hac hcb ih =>
    by_cases hwait : a ∈ s.waiting
    · exact .inr ⟨a, hwait, .head hac hcb⟩
    · exact ih (h a ha hwait _ hac)

theorem mem_sweep_settled {steps : ℕ} : ∀ {s : Sweep α}, sweep next may steps s = some out → s.Settled next may →
    ∀ b, b ∈ out ↔ b ∈ s.marked ∨ ∃ a ∈ s.waiting, TransGen (Marks next may) a b := by
  induction steps with
  | zero =>
    rintro ⟨marked, waiting⟩ h - b
    cases waiting with
    | nil =>
      obtain rfl := Option.some.inj h
      simp
    | cons a waiting => cases h
  | succ steps ih =>
    rintro ⟨marked, waiting⟩ h hsettled b
    cases waiting with
    | nil =>
      obtain rfl := Option.some.inj h
      simp
    | cons a waiting =>
      obtain ⟨new, hfold, -, hnew, hall⟩ := foldl_mark may (next a) ⟨marked, waiting⟩
      rw [sweep, hfold] at h
      dsimp only at h hnew hall
      -- the node that was taken off leads to marked nodes only
      have hsettled' : Sweep.Settled next may ⟨marked ++ new, new.reverse ++ waiting⟩ := by
        intro x hx hwait y hxy
        rw [List.mem_append, List.mem_reverse, not_or] at hwait
        have hx := (List.mem_append.mp hx).resolve_right hwait.1
        by_cases hxa : x = a
        · exact hall y (hxa ▸ hxy.1) hxy.2
        · refine List.mem_append_left _ (hsettled x hx ?_ y hxy)
          exact fun hmem => (List.mem_cons.mp hmem).elim hxa hwait.2
      rw [ih h hsettled' b]
      constructor
      · rintro (hb | ⟨x, hx, hxb⟩)
        · rcases List.mem_append.mp hb with hb | hb
          · exact .inl hb
          · exact .inr ⟨a, List.mem_cons_self, .single ⟨(hnew b hb).1, (hnew b hb).2.1⟩⟩
        · rcases List.mem_append.mp hx with hx | hx
          · have hx := List.mem_reverse.mp hx
            exact .inr ⟨a, List.mem_cons_self, .head ⟨(hnew x hx).1, (hnew x hx).2.1⟩ hxb⟩
          · exact .inr ⟨x, List.mem_cons_of_mem _ hx, hxb⟩
      · rintro (hb | ⟨x, hx, hxb⟩)
        · exact .inl (List.mem_append_left _ hb)
        · rcases List.mem_cons.mp hx with rfl | hx
          · obtain ⟨c, hxc, hcb⟩ := TransGen.head'_iff.mp hxb
            have hc := hall c hxc.1 hxc.2
            rcases reflTransGen_iff_eq_or_transGen.mp hcb with rfl | hcb
            · exact .inl hc
            · exact hsettled'.reaches hc hcb
          · exact .inr ⟨x, List.mem_append_right _ hx, hxb⟩

/-- Where all that is marked waits, a sweep marks what is marked and what the waiting nodes lead to. -/
theorem mem_sweep_iff {steps : ℕ} (h : sweep next may steps s = some out) (hwait : ∀ a ∈ s.marked, a ∈ s.waiting)
    (b : α) : b ∈ out ↔ b ∈ s.marked ∨ ∃ a ∈ s.waiting, TransGen (Marks next may) a b :=
  mem_sweep_settled h (fun a ha hnot => absurd (hwait a ha) hnot) b

/-- What is marked from the start comes first. -/
theorem isPrefix_sweep {steps : ℕ} : ∀ {s : Sweep α}, sweep next may steps s = some out → s.marked <+: out := by
  induction steps with
  | zero =>
    rintro ⟨marked, waiting⟩ h
    cases waiting with
    | nil => exact Option.some.inj h ▸ List.prefix_rfl
    | cons a waiting => cases h
  | succ steps ih =>
    rintro ⟨marked, waiting⟩ h
    cases waiting with
    | nil => exact Option.some.inj h ▸ List.prefix_rfl
    | cons a waiting =>
      obtain ⟨new, hfold, -⟩ := foldl_mark may (next a) ⟨marked, waiting⟩
      rw [sweep, hfold] at h
      exact (List.prefix_append _ _).trans (ih h)

/-- No node is marked twice. -/
theorem nodup_sweep {steps : ℕ} : ∀ {s : Sweep α}, sweep next may steps s = some out → s.marked.Nodup → out.Nodup := by
  induction steps with
  | zero =>
    rintro ⟨marked, waiting⟩ h hnodup
    cases waiting with
    | nil => exact Option.some.inj h ▸ hnodup
    | cons a waiting => cases h
  | succ steps ih =>
    rintro ⟨marked, waiting⟩ h hnodup
    cases waiting with
    | nil => exact Option.some.inj h ▸ hnodup
    | cons a waiting =>
      obtain ⟨new, hfold, hnew, hfresh, -⟩ := foldl_mark may (next a) ⟨marked, waiting⟩
      rw [sweep, hfold] at h
      refine ih h (List.nodup_append.mpr ⟨hnodup, hnew, ?_⟩)
      rintro b hb c hc rfl
      exact (hfresh b hc).2.2 hb

/-! ### The end of a sweep -/

/-- A step for every node that waits and every node that may be marked is enough. -/
theorem sweep_ends (nodes : Finset α) (hmay : ∀ b, may b = true → b ∈ nodes) {steps : ℕ} : ∀ {s : Sweep α},
    s.waiting.length + (nodes \ s.marked.toFinset).card ≤ steps → ∃ out, sweep next may steps s = some out := by
  induction steps with
  | zero =>
    rintro ⟨marked, waiting⟩ h
    cases waiting with
    | nil => exact ⟨marked, rfl⟩
    | cons a waiting =>
      rw [List.length_cons] at h
      omega
  | succ steps ih =>
    rintro ⟨marked, waiting⟩ h
    cases waiting with
    | nil => exact ⟨marked, rfl⟩
    | cons a waiting =>
      obtain ⟨new, hfold, hnodup, hnew, -⟩ := foldl_mark may (next a) ⟨marked, waiting⟩
      rw [sweep, hfold]
      apply ih
      dsimp only at h hnew ⊢
      have hsub : new.toFinset ⊆ nodes \ marked.toFinset := by
        intro b hb
        have hb := List.mem_toFinset.mp hb
        rw [Finset.mem_sdiff, List.mem_toFinset]
        exact ⟨hmay b (hnew b hb).2.1, (hnew b hb).2.2⟩
      have hcard := Finset.card_sdiff_add_card_eq_card hsub
      rw [List.toFinset_card_of_nodup hnodup, sdiff_sdiff_left, Finset.sup_eq_union, ← List.toFinset_append] at hcard
      rw [List.length_cons] at h
      rw [List.length_append, List.length_reverse]
      omega

end Graph
