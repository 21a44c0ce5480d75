import Mathlib.Data.List.Basic
import Mathlib.Logic.Function.Basic

/-! # Writes that may fail

Files are written one after another, any attempt may fail, and what has been written is put back from the
snapshots that were taken on the way, newest first. The last file to be put back tells whether the way back
was walked to its end. -/

namespace Faulty

variable {π β : Type} [DecidableEq π]

/-- The files, and the number of attempts that have been made to change one. -/
structure Progress (π β : Type) where
  files : π → Option β
  attempts : Nat

/-- Contents of files to go back to, the newest first. -/
abbrev Stack (π β : Type) := List (π × Option β)

section Attempts

variable (fails : Nat → Bool)

/-- An attempt to give a file a content, or to remove it: whether it works, and what is there behind it. -/
def Progress.put (s : Progress π β) (p : π) (content : Option β) : Bool × Progress π β :=
  (!fails s.attempts,
    ⟨if fails s.attempts then s.files else Function.update s.files p content, s.attempts + 1⟩)

/-- Writes with a snapshot in front of each, up to the first that fails. -/
def writeAll : List (π × β) → Stack π β → Progress π β → Bool × Stack π β × Progress π β
  | [], stack, s => (true, stack, s)
  | w :: ws, stack, s =>
      let r := s.put fails w.1 (some w.2)
      if r.1 then writeAll ws ((w.1, s.files w.1) :: stack) r.2 else (false, (w.1, s.files w.1) :: stack, r.2)

/-- The way back. A file that was not there is removed, and a removal that fails is passed over. -/
def rollBack : Stack π β → Progress π β → Progress π β
  | [], s => s
  | (p, prior) :: stack, s =>
      let r := s.put fails p prior
      if r.1 || prior.isNone then rollBack stack r.2 else r.2

end Attempts

variable {fails : Nat → Bool} {s : Progress π β} {p q : π} {content : Option β} {ws : List (π × β)}
  {stack front : Stack π β} {d e : π → Option β} {n : Nat}

theorem put_of_works (h : fails s.attempts = false) :
    s.put fails p content = (true, ⟨Function.update s.files p content, s.attempts + 1⟩) := by
  rw [Progress.put, h]
  rfl

theorem put_of_fails (h : fails s.attempts = true) : s.put fails p content = (false, ⟨s.files, s.attempts + 1⟩) := by
  rw [Progress.put, h]
  rfl

/-! ### Writing -/

/-- The files behind a list of writes. -/
def overlay (ws : List (π × β)) (d : π → Option β) : π → Option β :=
  ws.foldl (fun d w => Function.update d w.1 (some w.2)) d

/-- The last content that a file is given. -/
def lastWrite (ws : List (π × β)) (p : π) : Option β := (ws.reverse.find? fun w => decide (w.1 = p)).map Prod.snd

/-- The snapshots in front of a list of writes. -/
def snapshots : List (π × β) → (π → Option β) → Stack π β
  | [], _ => []
  | w :: ws, d => snapshots ws (Function.update d w.1 (some w.2)) ++ [(w.1, d w.1)]

theorem overlay_apply (ws : List (π × β)) (d : π → Option β) (p : π) : overlay ws d p = (lastWrite ws p).or (d p) := by
  induction ws generalizing d with
  | nil => rfl
  | cons w ws ih =>
    show overlay ws (Function.update d w.1 (some w.2)) p = _
    rw [ih, lastWrite, lastWrite, List.reverse_cons, List.find?_append]
    cases ws.reverse.find? fun w => decide (w.1 = p) with
    | some v => rfl
    | none =>
      by_cases hp : w.1 = p
      · subst hp
        simp
      · simp [hp, Function.update_of_ne (Ne.symm hp)]

/-- Writes leave the files as they are when each file is left with the content it had. -/
theorem overlay_eq_iff : overlay ws d = d ↔ ∀ p b, lastWrite ws p = some b → d p = some b := by
  constructor
  · intro h p b hb
    rw [← h, overlay_apply, hb]
    rfl
  · intro h
    funext p
    rw [overlay_apply]
    cases hb : lastWrite ws p with
    | none => rfl
    | some b => exact (h p b hb).symm

/-- Where no attempt fails everything is written. -/
theorem writeAll_of_works (stack : Stack π β) (h : ∀ i < ws.length, fails (n + i) = false) :
    writeAll fails ws stack ⟨d, n⟩ = (true, snapshots ws d ++ stack, ⟨overlay ws d, n + ws.length⟩) := by
  induction ws generalizing stack d n with
  | nil => rfl
  | cons w ws ih =>
    have hfirst : fails n = false := h 0 (Nat.succ_pos _)
    have hrest : ∀ i < ws.length, fails (n + 1 + i) = false := by
      intro i hi
      rw [Nat.add_assoc, Nat.add_comm 1 i]
      exact h (i + 1) (Nat.succ_lt_succ hi)
    rw [writeAll, put_of_works hfirst]
    dsimp only
    rw [if_pos rfl, ih _ hrest, snapshots, List.append_assoc, List.length_cons]
    simp only [List.singleton_append, Nat.add_assoc, Nat.add_comm 1]
    rfl

/-- Where an attempt fails the writes in front of it have been made. -/
theorem writeAll_of_fails {j : Nat} (stack : Stack π β) (hj : j < ws.length) (h : ∀ i < j, fails (n + i) = false)
    (hfails : fails (n + j) = true) : (writeAll fails ws stack ⟨d, n⟩).1 = false ∧
      (writeAll fails ws stack ⟨d, n⟩).2.2.files = overlay (ws.take j) d := by
  induction ws generalizing stack d n j with
  | nil => cases hj
  | cons w ws ih =>
    cases j with
    | zero =>
      rw [writeAll, put_of_fails (s := ⟨d, n⟩) hfails]
      exact ⟨rfl, rfl⟩
    | succ j =>
      have hfirst : fails n = false := h 0 (Nat.succ_pos _)
      have hrest : ∀ i < j, fails (n + 1 + i) = false := by
        intro i hi
        rw [Nat.add_assoc, Nat.add_comm 1 i]
        exact h (i + 1) (Nat.succ_lt_succ hi)
      have hlater : fails (n + 1 + j) = true := by rwa [Nat.add_assoc, Nat.add_comm 1 j]
      rw [writeAll, put_of_works hfirst]
      exact ih _ (Nat.lt_of_succ_lt_succ hj) hrest hlater

/-! ### The way back -/

/-- The stack was taken on the way from `d` to `e`: no file is removed on it, and a file that is not there has
no older snapshot. -/
inductive Undoes (d : π → Option β) : Stack π β → (π → Option β) → Prop
  | start : Undoes d [] d
  | push {stack : Stack π β} {e : π → Option β} (p : π) (content : Option β) (h : Undoes d stack e)
      (hnew : e p = none → p ∉ stack.map Prod.fst) (hkept : content = none → e p = none) :
      Undoes d ((p, e p) :: stack) (Function.update e p content)

/-- What the way back asks of the attempts: none fails, but for the removal of a file that is not there. -/
def WayBack (fails : Nat → Bool) (stack : Stack π β) (e : π → Option β) (n : Nat) : Prop :=
  ∀ i x, stack[i]? = some x → (x.2.isSome = true ∨ (e x.1).isSome = true) → fails (n + i) = false

theorem rollBack_works {prior : Option β} (h : fails n = false) :
    rollBack fails ((p, prior) :: stack) ⟨e, n⟩ = rollBack fails stack ⟨Function.update e p prior, n + 1⟩ := by
  rw [rollBack, put_of_works (s := ⟨e, n⟩) h]
  rfl

theorem rollBack_passes (h : fails n = true) :
    rollBack fails ((p, none) :: stack) ⟨e, n⟩ = rollBack fails stack ⟨e, n + 1⟩ := by
  rw [rollBack, put_of_fails (s := ⟨e, n⟩) h]
  rfl

theorem rollBack_stops {b : β} (h : fails n = true) : rollBack fails ((p, some b) :: stack) ⟨e, n⟩ = ⟨e, n + 1⟩ := by
  rw [rollBack, put_of_fails (s := ⟨e, n⟩) h]
  rfl

omit [DecidableEq π] in
theorem WayBack.cons {x : π × Option β} (h : WayBack fails stack e (n + 1))
    (hfirst : x.2.isSome = true ∨ (e x.1).isSome = true → fails n = false) : WayBack fails (x :: stack) e n := by
  intro i y hy hthere
  cases i with
  | zero =>
    obtain rfl : x = y := Option.some.inj hy
    exact hfirst hthere
  | succ i =>
    have := h i y hy hthere
    rwa [Nat.add_assoc, Nat.add_comm 1 i] at this

omit [DecidableEq π] in
theorem WayBack.tail {x : π × Option β} (h : WayBack fails (x :: stack) e n) : WayBack fails stack e (n + 1) := by
  intro i y hy hthere
  rw [Nat.add_assoc, Nat.add_comm 1 i]
  exact h (i + 1) y hy hthere

omit [DecidableEq π] in
/-- Of the files only those with a snapshot matter. -/
theorem WayBack.congr {f : π → Option β} (h : WayBack fails stack e n)
    (hsub : ∀ p ∈ stack.map Prod.fst, (f p).isSome = true → (e p).isSome = true) : WayBack fails stack f n := by
  intro i x hx hthere
  exact h i x hx (hthere.imp_right (hsub _ (List.mem_map_of_mem (List.mem_of_getElem? hx))))

theorem rollBack_of_not_mem (h : p ∉ stack.map Prod.fst) : (rollBack fails stack s).files p = s.files p := by
  induction stack generalizing s with
  | nil => rfl
  | cons x stack ih =>
    rw [List.map_cons, List.mem_cons, not_or] at h
    have hput : (s.put fails x.1 x.2).2.files p = s.files p := by
      rw [Progress.put]
      dsimp only
      split_ifs
      · rfl
      · exact Function.update_of_ne h.1 _ _
    rw [rollBack]
    split_ifs
    · rw [ih h.2, hput]
    · exact hput

theorem Undoes.eq_of_not_mem (h : Undoes d stack e) (hp : p ∉ stack.map Prod.fst) : e p = d p := by
  induction h with
  | start => rfl
  | push q content h hnew hkept ih =>
    rw [List.map_cons, List.mem_cons, not_or] at hp
    rw [Function.update_of_ne hp.1, ih hp.2]

/-- The way back leads back. -/
theorem rollBack_of_wayBack (h : Undoes d stack e) (hway : WayBack fails stack e n) :
    (rollBack fails stack ⟨e, n⟩).files = d := by
  induction h generalizing n with
  | start => rfl
  | @push stack e p content h hnew hkept ih =>
    have hrest : WayBack fails stack e (n + 1) := by
      refine hway.tail.congr fun r _ hsome => ?_
      by_cases hp : r = p
      · -- A file that was there before the write is there still.
        subst hp
        rw [Function.update_self]
        cases hc : content with
        | some c => rfl
        | none => rw [hkept hc] at hsome; cases hsome
      · rwa [Function.update_of_ne hp]
    by_cases hfail : fails n = true
    · have hfirst : ¬ ((e p).isSome = true ∨ (Function.update e p content p).isSome = true) := by
        intro hthere
        have : fails n = false := hway 0 (p, e p) rfl hthere
        rw [hfail] at this
        cases this
      rw [not_or, Function.update_self, Option.not_isSome_iff_eq_none, Option.not_isSome_iff_eq_none] at hfirst
      have hsame : Function.update e p content = e := by rw [hfirst.2, ← hfirst.1, Function.update_eq_self]
      rw [hfirst.1, rollBack_passes hfail, hsame]
      exact ih hrest
    · rw [Bool.not_eq_true] at hfail
      rw [rollBack_works hfail, Function.update_idem, Function.update_eq_self]
      exact ih hrest

/-- The oldest snapshot is of the files at the start. -/
theorem Undoes.oldest {content : Option β} (h : Undoes d (front ++ [(q, content)]) e) : d q = content := by
  induction front generalizing e with
  | nil =>
    cases h with
    | push p content h hnew hkept =>
      cases h with
      | start => rfl
  | cons x front ih =>
    cases h with
    | push p content h hnew hkept => exact ih h

/-- The last file on the way back is as it was only when the way was walked to its end. -/
theorem wayBack_of_rollBack {a : β} (h : Undoes d (front ++ [(q, some a)]) e) (hq : q ∉ front.map Prod.fst)
    (hchanged : e q ≠ some a) (hback : (rollBack fails (front ++ [(q, some a)]) ⟨e, n⟩).files = d) :
    WayBack fails (front ++ [(q, some a)]) e n := by
  have hold : d q = some a := h.oldest
  induction front generalizing e n with
  | nil =>
    by_cases hfail : fails n = true
    · rw [List.nil_append, rollBack, put_of_fails (s := ⟨_, n⟩) hfail] at hback
      refine absurd ?_ hchanged
      rw [← hold, ← hback]
      rfl
    · intro i x hx _
      cases i with
      | zero => exact Bool.not_eq_true _ ▸ hfail
      | succ i => cases hx
  | cons x front ih =>
    rw [List.map_cons, List.mem_cons, not_or] at hq
    cases h with
    | @push _ f p content h hnew hkept =>
      replace h : Undoes d (front ++ [(q, some a)]) f := h
      replace hnew : f p = none → p ∉ (front ++ [(q, some a)]).map Prod.fst := hnew
      have hstill : f q ≠ some a := by rwa [Function.update_of_ne hq.1] at hchanged
      rw [List.cons_append] at hback ⊢
      -- A file with an older snapshot was there when this one was taken.
      have hthere : ∀ r ∈ (front ++ [(q, some a)]).map Prod.fst,
          (Function.update f p content r).isSome = true → (f r).isSome = true := by
        intro r hr hsome
        by_cases hp : r = p
        · subst hp
          by_contra hnone
          exact hnew (Option.not_isSome_iff_eq_none.mp hnone) hr
        · rwa [Function.update_of_ne hp] at hsome
      by_cases hfail : fails n = true
      · cases hp : f p with
        | some c =>
          rw [hp, rollBack_stops hfail] at hback
          refine absurd ?_ hchanged
          rw [← hold, ← hback]
        | none =>
          rw [hp, rollBack_passes hfail] at hback
          have hfile := congrFun hback p
          rw [rollBack_of_not_mem (hnew hp), ← h.eq_of_not_mem (hnew hp), hp] at hfile
          dsimp only at hfile
          rw [Function.update_self] at hfile
          have hsame : Function.update f p content = f := by rw [hfile, ← hp, Function.update_eq_self]
          rw [hsame] at hback ⊢
          refine (ih h hq.2 hstill hback).cons fun hsome => ?_
          simp [hp] at hsome
      · rw [Bool.not_eq_true] at hfail
        rw [rollBack_works hfail, Function.update_idem, Function.update_eq_self] at hback
        exact ((ih h hq.2 hstill hback).congr hthere).cons fun _ => hfail

/-! ### A stack of writes -/

/-- The snapshots in front of writes undo them. -/
theorem Undoes.snapshots (h : Undoes d stack e) (hthere : ∀ w ∈ ws, w.1 ∈ stack.map Prod.fst → (e w.1).isSome = true) :
    Undoes d (snapshots ws e ++ stack) (overlay ws e) := by
  induction ws generalizing stack e with
  | nil => exact h
  | cons w ws ih =>
    rw [Faulty.snapshots, List.append_assoc]
    refine ih (h.push w.1 (some w.2) (fun hnone hin => ?_) fun hc => by cases hc) fun v hv hin => ?_
    · have := hthere w List.mem_cons_self hin
      rw [hnone] at this
      cases this
    · by_cases hp : v.1 = w.1
      · rw [hp, Function.update_self]
        rfl
      · rw [Function.update_of_ne hp]
        rw [List.map_append, List.mem_append, List.map_singleton, List.mem_singleton] at hin
        exact hthere v (List.mem_cons_of_mem _ hv) (hin.resolve_left hp)

theorem mem_snapshots {x : π × Option β} (h : x ∈ snapshots ws d) : ∃ w ∈ ws, x.1 = w.1 := by
  induction ws generalizing d with
  | nil => cases h
  | cons w ws ih =>
    rw [snapshots, List.mem_append, List.mem_singleton] at h
    rcases h with h | rfl
    · obtain ⟨v, hv, heq⟩ := ih h
      exact ⟨v, List.mem_cons_of_mem _ hv, heq⟩
    · exact ⟨w, List.mem_cons_self, rfl⟩

theorem length_snapshots : (snapshots ws d).length = ws.length := by
  induction ws generalizing d with
  | nil => rfl
  | cons w ws ih => rw [snapshots, List.length_append, ih, List.length_singleton, List.length_cons]

/-- A file that is written is there at the end. -/
theorem isSome_overlay {w : π × β} (h : w ∈ ws) : (overlay ws d w.1).isSome = true := by
  rw [overlay_apply, Option.isSome_or, lastWrite, Option.isSome_map, Bool.or_eq_true]
  left
  rw [List.find?_isSome]
  exact ⟨w, List.mem_reverse.mpr h, decide_eq_true rfl⟩

theorem overlay_of_ne (h : ∀ w ∈ ws, w.1 ≠ p) : overlay ws d p = d p := by
  have hnone : lastWrite ws p = none := by
    rw [lastWrite, Option.map_eq_none_iff, List.find?_eq_none]
    intro w hw
    rw [decide_eq_true_eq]
    exact h w (List.mem_reverse.mp hw)
  rw [overlay_apply, hnone, Option.none_or]

/-! ### Files apart -/

theorem overlay_update_of_ne (content : Option β) (h : ∀ w ∈ ws, w.1 ≠ p) :
    overlay ws (Function.update d p content) = Function.update (overlay ws d) p content := by
  induction ws generalizing d with
  | nil => rfl
  | cons w ws ih =>
    show overlay ws (Function.update (Function.update d p content) w.1 (some w.2)) = _
    rw [Function.update_comm (h w List.mem_cons_self).symm, ih fun v hv => h v (List.mem_cons_of_mem _ hv)]
    rfl

theorem snapshots_update_of_ne (content : Option β) (h : ∀ w ∈ ws, w.1 ≠ p) :
    snapshots ws (Function.update d p content) = snapshots ws d := by
  induction ws generalizing d with
  | nil => rfl
  | cons w ws ih =>
    have hw := h w List.mem_cons_self
    rw [snapshots, snapshots, Function.update_comm hw.symm, ih fun v hv => h v (List.mem_cons_of_mem _ hv),
      Function.update_of_ne hw]

end Faulty
