import Mathlib.Data.List.Chain
import Mathlib.Data.List.Nodup
import Mathlib.Logic.Function.Basic
import Mathlib.Logic.Relation
import Mathlib.Algebra.Order.BigOperators.Group.List
import Mathlib.Algebra.Order.Group.Nat
import Mathlib.Algebra.GroupWithZero.Nat

/-! # Depth-first search for cycles

A search with three colours over a finite graph, one frame for each node it is inside of. It reports the
cycles it closes: all of them are cycles, and it reports one as soon as there is one. -/

namespace Graph

universe u

variable {α : Type u}

/-- A path from a node back to itself. -/
def IsCycle (r : α → α → Prop) (path : List α) : Prop :=
  ∃ a rest, path = a :: rest ++ [a] ∧ path.IsChain r

theorem transGen_of_isChain {r : α → α → Prop} {a b : α} {rest : List α}
    (h : (a :: rest ++ [b]).IsChain r) : Relation.TransGen r a b := by
  induction rest generalizing a with
  | nil => exact .single (List.isChain_pair.mp h)
  | cons c rest ih =>
    rw [List.cons_append, List.cons_append, List.isChain_cons_cons] at h
    exact .head h.1 (ih h.2)

theorem IsCycle.transGen {r : α → α → Prop} {path : List α} (h : IsCycle r path) :
    ∃ a, Relation.TransGen r a a := by
  obtain ⟨a, rest, rfl, hchain⟩ := h
  exact ⟨a, transGen_of_isChain hchain⟩

/-- A node all paths from which end is on no cycle. -/
theorem not_transGen_self {r : α → α → Prop} {a : α} (h : Acc (fun b a => r a b) a) :
    ¬Relation.TransGen r a a := by
  induction h with
  | intro a _ ih =>
    intro hcycle
    obtain ⟨b, hab, hba⟩ := Relation.TransGen.head'_iff.mp hcycle
    exact ih b hab (.tail' hba hab)

/-! ### Frames -/

section Frames

variable (nodes : List α) (next : α → List α)

/-- The edges between nodes. -/
def Edge (a b : α) : Prop := a ∈ nodes ∧ b ∈ nodes ∧ b ∈ next a

/-- The frames form a path, and what is left of a frame is left of its successors. -/
def Nested : List (α × List α) → Prop
  | [] => True
  | [f] => f.1 ∈ nodes ∧ f.2 ⊆ next f.1
  | f :: g :: frames => Edge nodes next g.1 f.1 ∧ f.2 ⊆ next f.1 ∧ Nested (g :: frames)

variable {nodes next} {a b : α}
  {f : α × List α} {frames : List (α × List α)} {rest : List α}

theorem nested_head (h : Nested nodes next (f :: frames)) : f.1 ∈ nodes ∧ f.2 ⊆ next f.1 := by
  cases frames with
  | nil => exact h
  | cons g frames => exact ⟨h.1.2.1, h.2.1⟩

theorem nested_tail (h : Nested nodes next (f :: frames)) : Nested nodes next frames := by
  cases frames with
  | nil => trivial
  | cons g frames => exact h.2.2

/-- A frame with fewer successors left is nested as before. -/
theorem nested_of_subset (h : Nested nodes next ((a, rest) :: frames)) {less : List α} (hless : less ⊆ rest) :
    Nested nodes next ((a, less) :: frames) := by
  cases frames with
  | nil => exact ⟨h.1, fun b hb => h.2 (hless hb)⟩
  | cons g frames => exact ⟨h.1, fun b hb => h.2.1 (hless hb), h.2.2⟩

/-- The nodes of the frames lead from the outermost to the innermost. -/
theorem nested_isChain (h : Nested nodes next frames) :
    (frames.map Prod.fst).reverse.IsChain (Edge nodes next) := by
  rw [List.isChain_reverse]
  induction frames with
  | nil => exact .nil
  | cons f frames ih =>
    cases frames with
    | nil => exact .singleton _
    | cons g frames => exact .cons_cons h.1 (ih h.2.2)

end Frames

variable [DecidableEq α]

/-! ### The search -/

/-- The path from a node of the stack to its end and back to it. -/
def closing (stack : List α) (b : α) : List α := stack.dropWhile (· ≠ b) ++ [b]

/-- An edge from the end of a path back to one of its nodes closes a cycle. -/
theorem isCycle_closing {r : α → α → Prop} {path : List α} {a b : α} (hchain : path.IsChain r)
    (hlast : path.getLast? = some a) (hmem : b ∈ path) (hedge : r a b) : IsCycle r (closing path b) := by
  obtain ⟨pre, suf, rfl, hpre⟩ := List.eq_append_cons_of_mem hmem
  have hdrop : (pre ++ b :: suf).dropWhile (· ≠ b) = b :: suf := by
    rw [List.dropWhile_append_of_pos]
    · exact List.dropWhile_cons_of_neg (by simp)
    · intro c hc
      simpa using fun h : c = b => hpre (h ▸ hc)
  refine ⟨b, suf, by rw [closing, hdrop], ?_⟩
  rw [closing, hdrop, List.isChain_append]
  refine ⟨hchain.right_of_append, .singleton _, ?_⟩
  intro c hc d hd
  rw [List.head?_singleton, Option.mem_some_iff] at hd
  rw [List.getLast?_append_of_ne_nil _ (List.cons_ne_nil _ _)] at hlast
  rw [hlast, Option.mem_some_iff] at hc
  exact hc ▸ hd ▸ hedge

/-- `WHITE`, `GRAY`, `BLACK`. -/
inductive Color where
  | white
  | gray
  | black
deriving DecidableEq

/-- The state of a search: the colours, the frames with what is left of their successors, the innermost
first, and the cycles found. -/
structure Search (α : Type u) where
  color : α → Color
  frames : List (α × List α)
  cycles : List (List α)

namespace Search

/-- The nodes the search is inside of, the outermost first. -/
def stack (s : Search α) : List α := (s.frames.map Prod.fst).reverse

/-- A cycle that was found before is not reported again. -/
def report (s : Search α) (cycle : List α) : Search α :=
  if cycle ∈ s.cycles then s else { s with cycles := s.cycles ++ [cycle] }

variable (nodes : List α) (next : α → List α)

/-- One successor of the innermost node, or its end. -/
def step (s : Search α) : Search α :=
  match s.frames with
  | [] => s
  | (a, []) :: frames => { s with color := Function.update s.color a .black, frames }
  | (a, b :: rest) :: frames =>
      let s := { s with frames := (a, rest) :: frames }
      if b ∉ nodes then s
      else
        match s.color b with
        | .gray => s.report (closing s.stack b)
        | .white =>
            { s with color := Function.update s.color b .gray, frames := (b, next b) :: s.frames }
        | .black => s

/-- At most `n` steps, while there are frames. -/
def run : Nat → Search α → Search α
  | 0, s => s
  | n + 1, s => if s.frames = [] then s else run n (s.step nodes next)

/-- How many steps all nodes together can take. -/
def bound : Nat := (nodes.map fun a => (next a).length + 1).sum

/-- A search from one node. -/
def visit (s : Search α) (a : α) : Search α :=
  if s.color a ≠ .white then s
  else
    run nodes next (bound nodes next)
      { s with color := Function.update s.color a .gray, frames := [(a, next a)] }

/-- Nothing is visited. -/
def start : Search α := { color := fun _ => .white, frames := [], cycles := [] }

/-- A search from every node. -/
def all : Search α := nodes.foldl (visit nodes next) start

/-! ### Termination -/

/-- The steps a search can still take. -/
def weight (s : Search α) : Nat :=
  (s.frames.map fun f => f.2.length + 1).sum +
    (nodes.map fun a => if s.color a = .white then (next a).length + 1 else 0).sum

variable {nodes next} {s : Search α} {a b : α}

theorem report_frames (s : Search α) (cycle : List α) : (s.report cycle).frames = s.frames := by
  unfold report
  split_ifs <;> rfl

theorem report_color (s : Search α) (cycle : List α) : (s.report cycle).color = s.color := by
  unfold report
  split_ifs <;> rfl

/-- A colour that is not white takes nothing away from the others. -/
theorem sum_update_le (color : α → Color) (f : α → Nat) (a : α) (c : Color) (h : c ≠ .white)
    (nodes : List α) :
    (nodes.map fun b => if Function.update color a c b = .white then f b else 0).sum ≤
      (nodes.map fun b => if color b = .white then f b else 0).sum := by
  apply List.sum_le_sum
  intro b _
  by_cases hb : b = a
  · subst hb
    simp [h]
  · rw [Function.update_of_ne hb]

/-- Colouring a white node takes its share away. -/
theorem sum_update_add_le (color : α → Color) (f : α → Nat) {a : α} {c : Color} (h : c ≠ .white)
    (hwhite : color a = .white) {nodes : List α} (hmem : a ∈ nodes) :
    (nodes.map fun b => if Function.update color a c b = .white then f b else 0).sum + f a ≤
      (nodes.map fun b => if color b = .white then f b else 0).sum := by
  induction nodes with
  | nil => cases hmem
  | cons d nodes ih =>
    simp only [List.map_cons, List.sum_cons]
    by_cases hd : a = d
    · subst hd
      have hrest := sum_update_le color f a c h nodes
      simp only [Function.update_self, if_neg h, if_pos hwhite]
      omega
    · have hrest := ih ((List.mem_cons.mp hmem).resolve_left hd)
      rw [Function.update_of_ne (Ne.symm hd)]
      omega

theorem weight_step (nodes : List α) (next : α → List α) (h : s.frames ≠ []) : (s.step nodes next).weight nodes next < s.weight nodes next := by
  unfold step
  match hframes : s.frames with
  | [] => exact absurd hframes h
  | (a, []) :: frames =>
    have hle := sum_update_le s.color (fun a => (next a).length + 1) a .black (by decide) nodes
    simp only [weight, hframes, List.map_cons, List.sum_cons, List.length_nil]
    omega
  | (a, b :: rest) :: frames =>
    dsimp only
    split_ifs with hmem
    · match hcolor : s.color b with
      | .gray =>
        simp only [weight, report_frames, report_color, hframes, List.map_cons, List.sum_cons,
          List.length_cons]
        omega
      | .black =>
        simp only [weight, hframes, List.map_cons, List.sum_cons, List.length_cons]
        omega
      | .white =>
        have hle := sum_update_add_le s.color (fun a => (next a).length + 1) (c := .gray) (by decide)
          hcolor hmem
        simp only [weight, hframes, List.map_cons, List.sum_cons, List.length_cons]
        omega
    · simp only [weight, hframes, List.map_cons, List.sum_cons, List.length_cons]
      omega

/-- Enough steps bring a search to its end. -/
theorem run_frames {n : Nat} (h : s.weight nodes next ≤ n) : (s.run nodes next n).frames = [] := by
  induction n generalizing s with
  | zero =>
    show s.frames = []
    by_contra hframes
    have := weight_step nodes next hframes
    omega
  | succ n ih =>
    rw [run]
    split_ifs with hframes
    · exact hframes
    · have := weight_step nodes next hframes
      exact ih (by omega)

theorem visit_frames (hempty : s.frames = []) (ha : a ∈ nodes) : (s.visit nodes next a).frames = [] := by
  unfold visit
  by_cases hcolor : s.color a = .white
  · rw [if_neg (not_not.mpr hcolor)]
    apply run_frames
    have hle := sum_update_add_le s.color (fun a => (next a).length + 1) (c := .gray) (by decide) hcolor ha
    have hall : (nodes.map fun a => if s.color a = .white then (next a).length + 1 else 0).sum ≤
        bound nodes next := by
      apply List.sum_le_sum
      intro b _
      split_ifs
      · exact le_rfl
      · exact Nat.zero_le _
    simp only [weight, List.map_cons, List.map_nil, List.sum_cons, List.sum_nil]
    omega
  · rw [if_pos hcolor]
    exact hempty

/-! ### Invariants -/

variable (nodes) in
/-- A successor of a frame is still to come, or finished, or the node of the frame inside it. -/
def Covered (next : α → List α) (color : α → Color) : Option α → List (α × List α) → Prop
  | _, [] => True
  | inner, f :: frames =>
      (∀ b ∈ next f.1, b ∈ nodes → b ∈ f.2 ∨ color b = .black ∨ inner = some b) ∧
        Covered next color (some f.1) frames

variable (nodes next) in
/-- What every step keeps. -/
structure Sound (s : Search α) : Prop where
  nested : Nested nodes next s.frames
  gray : ∀ a, s.color a = .gray ↔ a ∈ s.frames.map Prod.fst
  nodup : (s.frames.map Prod.fst).Nodup
  cycles : ∀ c ∈ s.cycles, IsCycle (Edge nodes next) c
  covered : s.cycles = [] → Covered nodes next s.color none s.frames
  finished : s.cycles = [] → ∀ a, s.color a = .black → Acc (fun b a => Edge nodes next a b) a

variable {frames : List (α × List α)} {rest : List α}

omit [DecidableEq α] in
/-- Finished nodes only become more. -/
theorem Covered.mono {color color' : α → Color} (h : ∀ b, color b = .black → color' b = .black) :
    ∀ {frames : List (α × List α)} {inner : Option α}, Covered nodes next color inner frames →
      Covered nodes next color' inner frames := by
  intro frames
  induction frames with
  | nil => exact fun _ => trivial
  | cons f frames ih =>
    intro inner hcov
    exact ⟨fun b hb hmem => (hcov.1 b hb hmem).imp_right (.imp_left (h b)), ih hcov.2⟩

omit [DecidableEq α] in
/-- The frame around a finished node. -/
theorem Covered.pop {color : α → Color} (h : Covered nodes next color (some a) frames)
    (hblack : color a = .black) : Covered nodes next color none frames := by
  cases frames with
  | nil => trivial
  | cons f frames =>
    refine ⟨fun b hb hmem => ?_, h.2⟩
    rcases h.1 b hb hmem with hleft | hdone | hinner
    · exact .inl hleft
    · exact .inr (.inl hdone)
    · exact .inr (.inl (Option.some.inj hinner ▸ hblack))

omit [DecidableEq α] in
/-- The innermost frame goes on behind a successor that is dealt with. -/
theorem Covered.advance {color : α → Color} (h : Covered nodes next color none ((a, b :: rest) :: frames))
    (inner : Option α) (hb : b ∈ nodes → color b = .black ∨ inner = some b) :
    Covered nodes next color inner ((a, rest) :: frames) := by
  refine ⟨fun c hc hmem => ?_, h.2⟩
  rcases h.1 c hc hmem with hleft | hdone | hinner
  · rcases List.mem_cons.mp hleft with rfl | hleft
    · exact .inr (hb hmem)
    · exact .inl hleft
  · exact .inr (.inl hdone)
  · cases hinner

/-- The end of the innermost node. -/
theorem Sound.pop (h : s.Sound nodes next) (hframes : s.frames = (a, []) :: frames) :
    Sound nodes next { s with color := Function.update s.color a .black, frames } := by
  have hnodup := h.nodup
  rw [hframes, List.map_cons, List.nodup_cons] at hnodup
  have hblack : ∀ b, s.color b = .black → Function.update s.color a .black b = .black := by
    intro b hb
    by_cases hba : b = a
    · rw [hba, Function.update_self]
    · rw [Function.update_of_ne hba, hb]
  refine ⟨nested_tail (hframes ▸ h.nested), fun b => ?_, hnodup.2, h.cycles, fun hnone => ?_,
    fun hnone b hb => ?_⟩
  · dsimp only
    by_cases hba : b = a
    · subst hba
      simp [hnodup.1]
    · rw [Function.update_of_ne hba, h.gray b, hframes]
      simp [hba]
  · have hcov := h.covered hnone
    rw [hframes] at hcov
    exact (Covered.mono hblack hcov.2).pop (Function.update_self ..)
  · dsimp only at hb
    by_cases hba : b = a
    · -- all its successors are finished
      subst hba
      have hcov := h.covered hnone
      rw [hframes] at hcov
      refine Acc.intro b fun c hedge => ?_
      rcases hcov.1 c hedge.2.2 hedge.2.1 with hleft | hdone | hinner
      · cases hleft
      · exact h.finished hnone c hdone
      · cases hinner
    · rw [Function.update_of_ne hba] at hb
      exact h.finished hnone b hb

omit [DecidableEq α] in
/-- A successor that is dealt with at once. -/
theorem Sound.advance (h : s.Sound nodes next) (hframes : s.frames = (a, b :: rest) :: frames)
    (hb : b ∈ nodes → s.color b = .black) : Sound nodes next { s with frames := (a, rest) :: frames } := by
  refine ⟨nested_of_subset (hframes ▸ h.nested) (List.subset_cons_self _ _), fun c => ?_, ?_, h.cycles,
    fun hnone => ?_, h.finished⟩
  · rw [h.gray c, hframes]
    rfl
  · have := h.nodup
    rwa [hframes] at this
  · have hcov := h.covered hnone
    rw [hframes] at hcov
    exact hcov.advance none fun hmem => .inl (hb hmem)

/-- A successor that was not visited yet. -/
theorem Sound.push (h : s.Sound nodes next) (hframes : s.frames = (a, b :: rest) :: frames)
    (hmem : b ∈ nodes) (hwhite : s.color b = .white) :
    Sound nodes next { s with
      color := Function.update s.color b .gray, frames := (b, next b) :: (a, rest) :: frames } := by
  have hnested : Nested nodes next ((a, b :: rest) :: frames) := hframes ▸ h.nested
  obtain ⟨ha, hnext⟩ := nested_head hnested
  have hout : b ∉ ((a, rest) :: frames).map Prod.fst := by
    intro hin
    have hgray : s.color b = .gray := (h.gray b).mpr (by rw [hframes]; exact hin)
    rw [hwhite] at hgray
    cases hgray
  have hsame : ∀ c, s.color c = .black → Function.update s.color b .gray c = .black := by
    intro c hc
    rw [Function.update_of_ne (by rintro rfl; rw [hwhite] at hc; cases hc), hc]
  have hback : ∀ c, Function.update s.color b .gray c = .black → s.color c = .black := by
    intro c hc
    by_cases hcb : c = b
    · rw [hcb, Function.update_self] at hc
      cases hc
    · rwa [Function.update_of_ne hcb] at hc
  refine ⟨⟨⟨ha, hmem, hnext List.mem_cons_self⟩, List.Subset.refl _,
    nested_of_subset hnested (List.subset_cons_self _ _)⟩, fun c => ?_, ?_, h.cycles, fun hnone => ?_,
    fun hnone c hc => h.finished hnone c (hback c hc)⟩
  · dsimp only
    by_cases hcb : c = b
    · subst hcb
      simp
    · rw [Function.update_of_ne hcb, h.gray c, hframes]
      simp [hcb]
  · rw [List.map_cons, List.nodup_cons]
    refine ⟨hout, ?_⟩
    have := h.nodup
    rwa [hframes] at this
  · have hcov := h.covered hnone
    rw [hframes] at hcov
    refine ⟨fun c hc _ => .inl hc, Covered.mono hsame ?_⟩
    exact hcov.advance (some b) fun _ => .inr rfl

/-- A successor the search is inside of. -/
theorem Sound.close (h : s.Sound nodes next) (hframes : s.frames = (a, b :: rest) :: frames)
    (hmem : b ∈ nodes) (hgray : s.color b = .gray) :
    Sound nodes next (report { s with frames := (a, rest) :: frames }
      (closing (stack { s with frames := (a, rest) :: frames }) b)) := by
  have hnested : Nested nodes next ((a, b :: rest) :: frames) := hframes ▸ h.nested
  obtain ⟨ha, hnext⟩ := nested_head hnested
  have hpath := nested_of_subset hnested (List.subset_cons_self _ _)
  have hin : b ∈ ((a, rest) :: frames).map Prod.fst := by
    have := (h.gray b).mp hgray
    rwa [hframes] at this
  have hcycle : IsCycle (Edge nodes next) (closing (((a, rest) :: frames).map Prod.fst).reverse b) :=
    isCycle_closing (nested_isChain hpath) (by simp) (List.mem_reverse.mpr hin)
      ⟨ha, hmem, hnext List.mem_cons_self⟩
  have hsome : (report { s with frames := (a, rest) :: frames }
      (closing (stack { s with frames := (a, rest) :: frames }) b)).cycles ≠ [] := by
    unfold report
    split_ifs with hold
    · exact List.ne_nil_of_mem hold
    · simp
  refine ⟨by rw [report_frames]; exact hpath, fun c => ?_, ?_, fun c hc => ?_,
    fun hnone => absurd hnone hsome, fun hnone => absurd hnone hsome⟩
  · rw [report_frames, report_color, h.gray c, hframes]
    rfl
  · rw [report_frames]
    have := h.nodup
    rwa [hframes] at this
  · unfold report at hc
    split_ifs at hc
    · exact h.cycles c hc
    · rcases List.mem_append.mp hc with hc | hc
      · exact h.cycles c hc
      · rw [List.mem_singleton.mp hc]
        exact hcycle

theorem Sound.step (h : s.Sound nodes next) : (s.step nodes next).Sound nodes next := by
  unfold Search.step
  match hframes : s.frames with
  | [] => exact h
  | (a, []) :: frames => exact h.pop hframes
  | (a, b :: rest) :: frames =>
    dsimp only
    split_ifs with hmem
    · match hcolor : s.color b with
      | .gray => exact h.close hframes hmem hcolor
      | .black => exact h.advance hframes fun _ => hcolor
      | .white => exact h.push hframes hmem hcolor
    · exact h.advance hframes fun hin => absurd hin hmem

theorem Sound.run (h : s.Sound nodes next) (n : Nat) : (s.run nodes next n).Sound nodes next := by
  induction n generalizing s with
  | zero => exact h
  | succ n ih =>
    rw [Search.run]
    split_ifs
    · exact h
    · exact ih h.step

theorem Sound.visit (h : s.Sound nodes next) (hempty : s.frames = []) (ha : a ∈ nodes) :
    (s.visit nodes next a).Sound nodes next := by
  unfold Search.visit
  split_ifs with hcolor
  · exact h
  · apply Sound.run
    refine ⟨⟨ha, List.Subset.refl _⟩, fun b => ?_, by simp, h.cycles, fun _ => ?_,
      fun hnone b hb => h.finished hnone b ?_⟩
    · dsimp only
      by_cases hba : b = a
      · subst hba
        simp
      · rw [Function.update_of_ne hba, h.gray b, hempty]
        simp [hba]
    · exact ⟨fun b hb _ => .inl hb, trivial⟩
    · dsimp only at hb
      by_cases hba : b = a
      · rw [hba, Function.update_self] at hb
        cases hb
      · rwa [Function.update_of_ne hba] at hb

/-- What was visited stays so. -/
theorem step_visited (h : s.color b ≠ .white) : (s.step nodes next).color b ≠ .white := by
  unfold step
  match hframes : s.frames with
  | [] => exact h
  | (a, []) :: frames =>
    by_cases hba : b = a
    · simp [hba]
    · simpa [Function.update_of_ne hba] using h
  | (a, c :: rest) :: frames =>
    dsimp only
    split_ifs
    · match hcolor : s.color c with
      | .gray => rwa [report_color]
      | .black => exact h
      | .white =>
        by_cases hbc : b = c
        · simp [hbc]
        · simpa [Function.update_of_ne hbc] using h
    · exact h

theorem run_visited (h : s.color b ≠ .white) (n : Nat) : (s.run nodes next n).color b ≠ .white := by
  induction n generalizing s with
  | zero => exact h
  | succ n ih =>
    rw [run]
    split_ifs
    · exact h
    · exact ih (step_visited h)

theorem visit_visited (h : s.color b ≠ .white ∨ b = a) : (s.visit nodes next a).color b ≠ .white := by
  unfold visit
  by_cases hcolor : s.color a = .white
  · rw [if_neg (not_not.mpr hcolor)]
    apply run_visited
    rcases h with h | rfl
    · have hba : b ≠ a := fun hba => h (hba ▸ hcolor)
      simpa [Function.update_of_ne hba] using h
    · simp
  · rw [if_pos hcolor]
    rcases h with h | rfl
    · exact h
    · exact hcolor

omit [DecidableEq α] in
theorem Sound.start (nodes : List α) (next : α → List α) : (start : Search α).Sound nodes next :=
  ⟨trivial, fun a => by simp [Search.start], .nil, fun _ hc => absurd hc List.not_mem_nil, fun _ => trivial,
    fun _ a ha => by cases ha⟩

/-- The searches from some nodes, one after the other, each from what the one before has left: every one of
them ends, and visits its node. -/
theorem foldl_spec {starts : List α} (hsub : starts ⊆ nodes) (hempty : s.frames = [])
    (h : s.Sound nodes next) :
    (starts.foldl (visit nodes next) s).frames = [] ∧
      (starts.foldl (visit nodes next) s).Sound nodes next ∧
      ∀ b, (s.color b ≠ .white ∨ b ∈ starts) → (starts.foldl (visit nodes next) s).color b ≠ .white := by
  induction starts generalizing s with
  | nil => exact ⟨hempty, h, fun b hb => hb.resolve_right List.not_mem_nil⟩
  | cons a starts ih =>
    have ha : a ∈ nodes := hsub List.mem_cons_self
    obtain ⟨hframes, hsound, hvisited⟩ := ih (fun b hb => hsub (List.mem_cons_of_mem _ hb))
      (visit_frames hempty ha) (h.visit hempty ha)
    refine ⟨hframes, hsound, fun b hb => hvisited b ?_⟩
    rcases hb with hb | hb
    · exact .inl (visit_visited (.inl hb))
    · rcases List.mem_cons.mp hb with rfl | hb
      · exact .inl (visit_visited (.inr rfl))
      · exact .inr hb

/-- The search from every node keeps what every step keeps, and finishes every node. -/
theorem all_spec (nodes : List α) (next : α → List α) :
    (all nodes next).Sound nodes next ∧ ∀ a ∈ nodes, (all nodes next).color a = .black := by
  obtain ⟨hframes, hsound, hvisited⟩ :=
    foldl_spec (List.Subset.refl nodes) rfl (Sound.start nodes next)
  change (all nodes next).frames = [] at hframes
  change (all nodes next).Sound nodes next at hsound
  refine ⟨hsound, fun a ha => ?_⟩
  have hwhite := hvisited a (.inr ha)
  have hgray : (all nodes next).color a ≠ .gray := by
    rw [Ne, hsound.gray a, hframes]
    exact List.not_mem_nil
  cases hcolor : (all nodes next).color a with
  | white => exact absurd hcolor hwhite
  | gray => exact absurd hcolor hgray
  | black => rfl

/-- Every cycle the search reports is one. -/
theorem isCycle_of_mem_cycles {cycle : List α} (h : cycle ∈ (all nodes next).cycles) :
    IsCycle (Edge nodes next) cycle := (all_spec nodes next).1.cycles cycle h

/-- The search reports a cycle exactly when there is one. -/
theorem cycles_ne_nil_iff (nodes : List α) (next : α → List α) :
    (all nodes next).cycles ≠ [] ↔ ∃ a, Relation.TransGen (Edge nodes next) a a := by
  obtain ⟨hsound, hblack⟩ := all_spec nodes next
  constructor
  · intro hsome
    obtain ⟨cycle, hcycle⟩ := List.exists_mem_of_ne_nil _ hsome
    exact (hsound.cycles cycle hcycle).transGen
  · rintro ⟨a, ha⟩ hnone
    obtain ⟨b, hedge, -⟩ := Relation.TransGen.head'_iff.mp ha
    exact not_transGen_self (hsound.finished hnone a (hblack a hedge.1)) ha

end Search

end Graph
