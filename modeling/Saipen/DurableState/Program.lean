import Mathlib.Logic.Relation

/-! # Durable programs and the states a crash can leave

A program over a durable state `σ` (a disk, a store) runs as a sequence of atomic effects. Between
any two of them the process may die, and the next process finds whatever state the effects so far
have left. `Prog σ ε α` keeps that information: one run yields a result, the final state, and the
`trail` of states that stood before each effect. `wp` is the weakest precondition with a crash
condition, in the manner of crash Hoare logic, and `CrashRuns` iterates a program that is
started again after each crash. -/

namespace DurableState

variable {σ ε α β : Type}

/-- What one run leaves: its result (an exception is a result too), the final state, and the
states that stood immediately before each durable effect. -/
structure Outcome (σ ε α : Type) where
  /-- The value returned or the exception raised. -/
  result : Except ε α
  /-- The durable state at the end of the run. -/
  final : σ
  /-- The durable states passed on the way, oldest first, without `final`. -/
  trail : List σ

/-- A program over the durable state `σ` that may raise `ε`. -/
def Prog (σ ε α : Type) : Type := σ → Outcome σ ε α

namespace Prog

/-- Run a program from a durable state. -/
def run (m : Prog σ ε α) (s : σ) : Outcome σ ε α := m s

/-- Return a value without touching the durable state. -/
protected def pure (a : α) : Prog σ ε α := fun s => ⟨.ok a, s, []⟩

/-- Raise an exception without touching the durable state. -/
def raise (e : ε) : Prog σ ε α := fun s => ⟨.error e, s, []⟩

/-- Sequential composition; an exception skips the continuation. -/
protected def bind (m : Prog σ ε α) (f : α → Prog σ ε β) : Prog σ ε β := fun s =>
  match (m s).result with
  | .ok a => ⟨(f a (m s).final).result, (f a (m s).final).final,
      (m s).trail ++ (f a (m s).final).trail⟩
  | .error e => ⟨.error e, (m s).final, (m s).trail⟩

instance : Monad (Prog σ ε) where
  pure := Prog.pure
  bind := Prog.bind

/-- Read the durable state. -/
def read : Prog σ ε σ := fun s => ⟨.ok s, s, []⟩

/-- One atomic durable effect. -/
def effect (f : σ → σ) : Prog σ ε Unit := fun s => ⟨.ok (), f s, [s]⟩

/-- One atomic durable effect that can be refused; a refusal leaves the state alone. -/
def attempt (f : σ → Except ε σ) : Prog σ ε Unit := fun s =>
  match f s with
  | .ok s' => ⟨.ok (), s', [s]⟩
  | .error e => ⟨.error e, s, []⟩

/-- Handle an exception of the first program. -/
def rescue (m : Prog σ ε α) (h : ε → Prog σ ε α) : Prog σ ε α := fun s =>
  match (m s).result with
  | .ok a => ⟨.ok a, (m s).final, (m s).trail⟩
  | .error e => ⟨(h e (m s).final).result, (h e (m s).final).final,
      (m s).trail ++ (h e (m s).final).trail⟩

/-- The states in which a run of the program can leave the durable state: by a crash before one of
its effects, or by ending. -/
def Leaves (m : Prog σ ε α) (s t : σ) : Prop := t ∈ (m s).trail ∨ t = (m s).final

/-- The states reached by starting the program again and again, each run crashing or ending. -/
def CrashRuns (m : Prog σ ε α) : σ → σ → Prop := Relation.ReflTransGen m.Leaves

end Prog

/-! ### Weakest precondition with a crash condition -/

/-- `wp m Q C s`: run from `s`, every state the program can crash in satisfies `C`, and it ends
with a result and a state satisfying `Q`. -/
def wp (m : Prog σ ε α) (Q : Except ε α → σ → Prop) (C : σ → Prop) (s : σ) : Prop :=
  (∀ c ∈ (m s).trail, C c) ∧ Q (m s).result (m s).final

variable {m : Prog σ ε α} {Q Q' : Except ε α → σ → Prop} {C C' : σ → Prop} {s t : σ}

theorem wp_pure (a : α) : wp (pure a : Prog σ ε α) Q C s ↔ Q (.ok a) s := by
  simp [wp, pure, Prog.pure]

theorem wp_raise (e : ε) : wp (Prog.raise e : Prog σ ε α) Q C s ↔ Q (.error e) s := by
  simp [wp, Prog.raise]

theorem wp_read {Q : Except ε σ → σ → Prop} :
    wp (Prog.read : Prog σ ε σ) Q C s ↔ Q (.ok s) s := by
  simp [wp, Prog.read]

theorem wp_effect (f : σ → σ) {Q : Except ε Unit → σ → Prop} :
    wp (Prog.effect f : Prog σ ε Unit) Q C s ↔ C s ∧ Q (.ok ()) (f s) := by
  simp [wp, Prog.effect]

theorem wp_attempt (f : σ → Except ε σ) {Q : Except ε Unit → σ → Prop} :
    wp (Prog.attempt f) Q C s ↔
      match f s with
      | .ok s' => C s ∧ Q (.ok ()) s'
      | .error e => Q (.error e) s := by
  simp only [wp, Prog.attempt]
  cases f s <;> simp

theorem wp_bind (f : α → Prog σ ε β) {Q : Except ε β → σ → Prop} :
    wp (m >>= f) Q C s ↔
      wp m (fun r t => match r with
        | .ok a => wp (f a) Q C t
        | .error e => Q (.error e) t) C s := by
  simp only [wp, bind, Prog.bind]
  cases (m s).result with
  | error e => rfl
  | ok a =>
    simp only [List.mem_append, or_imp, forall_and]
    exact and_assoc

theorem wp_rescue (h : ε → Prog σ ε α) :
    wp (m.rescue h) Q C s ↔
      wp m (fun r t => match r with
        | .ok a => Q (.ok a) t
        | .error e => wp (h e) Q C t) C s := by
  simp only [wp, Prog.rescue]
  cases (m s).result with
  | ok a => rfl
  | error e =>
    simp only [List.mem_append, or_imp, forall_and]
    exact and_assoc

/-- Programs that run alike from a state satisfy the same assertions there. -/
theorem wp_congr {m' : Prog σ ε α} (h : m s = m' s) : wp m Q C s ↔ wp m' Q C s := by
  unfold wp
  rw [h]

/-- The consequence rule. -/
theorem wp_mono (h : wp m Q C s) (hQ : ∀ r t, Q r t → Q' r t) (hC : ∀ c, C c → C' c) :
    wp m Q' C' s :=
  ⟨fun c hc => hC c (h.1 c hc), hQ _ _ h.2⟩

/-- Sequencing by an intermediate assertion on the normal exits; exceptions are passed on. -/
theorem wp_seq {f : α → Prog σ ε β} {Q : Except ε β → σ → Prop} {R : α → σ → Prop}
    (hm : wp m (fun r t => match r with
      | .ok a => R a t
      | .error e => Q (.error e) t) C s)
    (hf : ∀ a t, R a t → wp (f a) Q C t) : wp (m >>= f) Q C s := by
  rw [wp_bind]
  refine wp_mono hm (fun r t h => ?_) (fun _ h => h)
  cases r with
  | ok a => exact hf a t h
  | error e => exact h

/-! ### Runs by their exit -/

namespace Prog

/-- The run from `s` returns `a` and leaves `t`. -/
def Yields (m : Prog σ ε α) (s : σ) (a : α) (t : σ) : Prop :=
  (m s).result = .ok a ∧ (m s).final = t

/-- The run from `s` raises `e` and leaves `t`. -/
def Raises (m : Prog σ ε α) (s : σ) (e : ε) (t : σ) : Prop :=
  (m s).result = .error e ∧ (m s).final = t

variable {a : α} {b : β}

theorem yields_pure {a' : α} : (pure a' : Prog σ ε α).Yields s a t ↔ a' = a ∧ s = t := by
  simp [Yields, pure, Prog.pure]

theorem yields_raise {e : ε} : ¬ (Prog.raise e : Prog σ ε α).Yields s a t := by
  simp [Yields, Prog.raise]

theorem yields_read {u : σ} : (Prog.read : Prog σ ε σ).Yields s u t ↔ s = u ∧ s = t := by
  simp [Yields, Prog.read]

theorem yields_attempt {f : σ → Except ε σ} : (Prog.attempt f).Yields s () t ↔ f s = .ok t := by
  unfold Yields Prog.attempt
  cases f s <;> simp

/-- A sequence returns when both halves do. -/
theorem yields_bind {f : α → Prog σ ε β} :
    (m >>= f).Yields s b t ↔ ∃ a u, m.Yields s a u ∧ (f a).Yields u b t := by
  simp only [Yields, bind, Prog.bind]
  cases (m s).result with
  | error e => simp
  | ok a =>
    constructor
    · intro h
      exact ⟨a, (m s).final, ⟨rfl, rfl⟩, h⟩
    · rintro ⟨a', u, ⟨ha, rfl⟩, h⟩
      obtain rfl := Except.ok.inj ha
      exact h

/-- A sequence whose first half returns nothing. -/
theorem yields_seq {m : Prog σ ε Unit} {k : Prog σ ε β} :
    (do m; k).Yields s b t ↔ ∃ u, m.Yields s () u ∧ k.Yields u b t := by
  rw [yields_bind]
  exact ⟨fun ⟨_, u, hm, hk⟩ => ⟨u, hm, hk⟩, fun ⟨u, hm, hk⟩ => ⟨(), u, hm, hk⟩⟩

theorem yields_read_bind {f : σ → Prog σ ε β} :
    (Prog.read >>= f).Yields s b t ↔ (f s).Yields s b t := by
  rw [yields_bind]
  constructor
  · rintro ⟨u, v, hr, h⟩
    obtain ⟨rfl, rfl⟩ := yields_read.mp hr
    exact h
  · intro h
    exact ⟨s, s, yields_read.mpr ⟨rfl, rfl⟩, h⟩

/-- A handled program returns by itself or through its handler. -/
theorem yields_rescue {h : ε → Prog σ ε α} :
    (m.rescue h).Yields s a t ↔
      m.Yields s a t ∨ ∃ e u, m.Raises s e u ∧ (h e).Yields u a t := by
  simp only [Yields, Raises, Prog.rescue]
  cases (m s).result with
  | ok a => simp
  | error e =>
    constructor
    · intro hr
      exact .inr ⟨e, (m s).final, ⟨rfl, rfl⟩, hr⟩
    · rintro (⟨he, -⟩ | ⟨e', u, ⟨he, rfl⟩, hr⟩)
      · cases he
      · obtain rfl := Except.error.inj he
        exact hr

theorem raises_pure {e : ε} : ¬ (pure a : Prog σ ε α).Raises s e t := by
  simp [Raises, pure, Prog.pure]

theorem raises_raise {e e' : ε} : (Prog.raise e' : Prog σ ε α).Raises s e t ↔ e' = e ∧ s = t := by
  simp [Raises, Prog.raise]

theorem raises_attempt {f : σ → Except ε σ} {e : ε} :
    (Prog.attempt f).Raises s e t ↔ f s = .error e ∧ s = t := by
  unfold Raises Prog.attempt
  cases f s <;> simp

/-- A sequence raises where one of its halves does. -/
theorem raises_bind {f : α → Prog σ ε β} {e : ε} :
    (m >>= f).Raises s e t ↔ m.Raises s e t ∨ ∃ a u, m.Yields s a u ∧ (f a).Raises u e t := by
  simp only [Raises, Yields, bind, Prog.bind]
  cases (m s).result with
  | error e' => simp
  | ok a =>
    constructor
    · intro h
      exact .inr ⟨a, (m s).final, ⟨rfl, rfl⟩, h⟩
    · rintro (⟨he, -⟩ | ⟨a', u, ⟨ha, rfl⟩, h⟩)
      · cases he
      · obtain rfl := Except.ok.inj ha
        exact h

/-- Every run returns or raises. -/
theorem yields_or_raises (m : Prog σ ε α) (s : σ) :
    (∃ a t, m.Yields s a t) ∨ ∃ e t, m.Raises s e t := by
  cases h : (m s).result with
  | ok a => exact .inl ⟨a, _, h, rfl⟩
  | error e => exact .inr ⟨e, _, h, rfl⟩

theorem leaves_pure : (pure a : Prog σ ε α).Leaves s t ↔ t = s := by
  simp [Leaves, pure, Prog.pure]

theorem leaves_raise {e : ε} : (Prog.raise e : Prog σ ε α).Leaves s t ↔ t = s := by
  simp [Leaves, Prog.raise]

theorem leaves_attempt {f : σ → Except ε σ} :
    (Prog.attempt f).Leaves s t ↔ t = s ∨ f s = .ok t := by
  unfold Leaves Prog.attempt
  cases f s <;> simp [eq_comm]

/-- A sequence can be left in its first half, or in its second when the first returns. -/
theorem leaves_bind {f : α → Prog σ ε β} (h : (m >>= f).Leaves s t) :
    m.Leaves s t ∨ ∃ a u, m.Yields s a u ∧ (f a).Leaves u t := by
  simp only [Leaves, Yields, bind, Prog.bind] at h ⊢
  cases hr : (m s).result with
  | error e =>
    rw [hr] at h
    exact .inl h
  | ok a =>
    rw [hr] at h
    simp only [List.mem_append] at h
    rcases h with (h | h) | h
    · exact .inl (.inl h)
    · exact .inr ⟨a, _, ⟨rfl, rfl⟩, .inl h⟩
    · exact .inr ⟨a, _, ⟨rfl, rfl⟩, .inr h⟩

/-- A state the second half can be left in. -/
theorem leaves_bind_of_yields {f : α → Prog σ ε β} {u : σ} (hm : m.Yields s a u)
    (hf : (f a).Leaves u t) : (m >>= f).Leaves s t := by
  obtain ⟨hr, rfl⟩ := hm
  simp only [Leaves, bind, Prog.bind, hr, List.mem_append]
  exact hf.imp .inr id

/-- A state the first half can be left in, when the second half can be left where it starts. -/
theorem leaves_bind_left {f : α → Prog σ ε β} (hm : m.Leaves s t)
    (hf : ∀ a, (f a).Leaves t t) : (m >>= f).Leaves s t := by
  simp only [Leaves, bind, Prog.bind] at hm ⊢
  cases hr : (m s).result with
  | error e => exact hm
  | ok a =>
    rcases hm with hm | rfl
    · exact .inl (List.mem_append_left _ hm)
    · exact (hf a).imp (fun h => List.mem_append_right _ h) id

/-- Two states of one run with a single effect between them. -/
def Next (m : Prog σ ε α) (s u v : σ) : Prop :=
  ∃ before after, (m s).trail ++ [(m s).final] = before ++ u :: v :: after

theorem Next.leaves {u v : σ} (h : m.Next s u v) : m.Leaves s u ∧ m.Leaves s v := by
  obtain ⟨before, after, heq⟩ := h
  have key : ∀ w, w ∈ (m s).trail ++ [(m s).final] → m.Leaves s w := by
    intro w hw
    rcases List.mem_append.mp hw with hw | hw
    · exact .inl hw
    · exact .inr (List.mem_singleton.mp hw)
  refine ⟨key u ?_, key v ?_⟩ <;> simp [heq]

theorem leaves_of_yields (h : m.Yields s a t) : m.Leaves s t := .inr h.2.symm

theorem leaves_of_raises {e : ε} (h : m.Raises s e t) : m.Leaves s t := .inr h.2.symm

/-! ### Programs that run alike from a state -/

theorem read_bind_run (f : σ → Prog σ ε β) (s : σ) : (Prog.read >>= f) s = f s s := rfl

theorem pure_bind_run (a : α) (f : α → Prog σ ε β) (s : σ) : ((pure a : Prog σ ε α) >>= f) s = f a s := rfl

/-- A sequence whose first half is known. -/
theorem bind_run {a : α} {u : σ} {trail : List σ} (h : m s = ⟨.ok a, u, trail⟩) (f : α → Prog σ ε β) :
    (m >>= f) s = ⟨(f a u).result, (f a u).final, trail ++ (f a u).trail⟩ := by
  simp only [bind, Prog.bind, h]

theorem raise_bind_run (e : ε) (f : α → Prog σ ε β) (s : σ) :
    ((Prog.raise e : Prog σ ε α) >>= f) s = (Prog.raise e : Prog σ ε β) s := rfl

variable {m' : Prog σ ε α}

theorem leaves_congr (h : m s = m' s) : m.Leaves s t ↔ m'.Leaves s t := by
  unfold Leaves
  rw [h]

theorem yields_congr (h : m s = m' s) : m.Yields s a t ↔ m'.Yields s a t := by
  unfold Yields
  rw [h]

theorem raises_congr {e : ε} (h : m s = m' s) : m.Raises s e t ↔ m'.Raises s e t := by
  unfold Raises
  rw [h]

/-- A handler that cannot return the value does not matter. -/
theorem yields_rescue_of_not {h : ε → Prog σ ε α} (hh : ∀ e u, ¬ (h e).Yields u a t) :
    (m.rescue h).Yields s a t ↔ m.Yields s a t := by
  rw [yields_rescue]
  exact or_iff_left fun ⟨e, u, _, hr⟩ => hh e u hr

end Prog

/-! ### Consequences of a proved precondition -/

theorem wp.result (h : wp m Q C s) : Q (m.run s).result (m.run s).final := h.2

/-- Every state the run can leave satisfies the crash condition, when the final one does. -/
theorem wp.leaves (h : wp m Q C s) (hQ : ∀ r u, Q r u → C u) (ht : m.Leaves s t) : C t := by
  rcases ht with ht | rfl
  · exact h.1 t ht
  · exact hQ _ _ h.2

/-! ### Invariants of a program -/

namespace Prog

/-- The program keeps `K`: from a state with it, every state a run can leave has it. -/
def Keeps (K : σ → Prop) (m : Prog σ ε α) : Prop := ∀ s, K s → ∀ t, m.Leaves s t → K t

variable {K : σ → Prop}

theorem keeps_iff : m.Keeps K ↔ ∀ s, K s → wp m (fun _ t => K t) K s := by
  constructor
  · intro h s hs
    exact ⟨fun c hc => h s hs c (.inl hc), h s hs _ (.inr rfl)⟩
  · intro h s hs t ht
    exact (h s hs).leaves (fun _ _ hu => hu) ht

theorem Keeps.pure (a : α) : (Pure.pure a : Prog σ ε α).Keeps K :=
  keeps_iff.mpr fun _ hs => (wp_pure a).mpr hs

theorem Keeps.raise (e : ε) : (Prog.raise e : Prog σ ε α).Keeps K :=
  keeps_iff.mpr fun _ hs => (wp_raise e).mpr hs

theorem Keeps.read : (Prog.read : Prog σ ε σ).Keeps K :=
  keeps_iff.mpr fun _ hs => wp_read.mpr hs

/-- An attempt keeps what its effect keeps. -/
theorem Keeps.attempt {f : σ → Except ε σ} (h : ∀ s t, f s = .ok t → K s → K t) :
    (Prog.attempt f).Keeps K := by
  refine keeps_iff.mpr fun s hs => (wp_attempt f).mpr ?_
  cases hf : f s with
  | ok t => exact ⟨hs, h s t hf hs⟩
  | error e => exact hs

theorem Keeps.bind {f : α → Prog σ ε β} (hm : m.Keeps K) (hf : ∀ a, (f a).Keeps K) :
    (m >>= f).Keeps K := by
  refine keeps_iff.mpr fun s hs => (wp_bind f).mpr ?_
  refine wp_mono (keeps_iff.mp hm s hs) (fun r t ht => ?_) (fun _ h => h)
  cases r with
  | ok a => exact keeps_iff.mp (hf a) t ht
  | error e => exact ht

/-- A program that begins with a read may use what it read. -/
theorem Keeps.read_bind {f : σ → Prog σ ε β} (hf : ∀ s, K s → wp (f s) (fun _ t => K t) K s) :
    (Prog.read >>= f).Keeps K :=
  keeps_iff.mpr fun s hs => (wp_bind f).mpr (wp_read.mpr (hf s hs))

theorem Keeps.rescue {h : ε → Prog σ ε α} (hm : m.Keeps K) (hh : ∀ e, (h e).Keeps K) :
    (m.rescue h).Keeps K := by
  refine keeps_iff.mpr fun s hs => (wp_rescue h).mpr ?_
  refine wp_mono (keeps_iff.mp hm s hs) (fun r t ht => ?_) (fun _ h => h)
  cases r with
  | ok a => exact ht
  | error e => exact keeps_iff.mp (hh e) t ht

theorem Keeps.yields {a : α} (h : m.Keeps K) (hs : K s) (hm : m.Yields s a t) : K t :=
  h s hs t (.inr hm.2.symm)

/-- A program that keeps `K` satisfies every assertion that `K` gives at its ends. -/
theorem Keeps.wp (h : m.Keeps K) (hs : K s) (hC : ∀ u, K u → C u)
    (hok : ∀ a u, m.Yields s a u → K u → Q (.ok a) u)
    (herr : ∀ e u, m.Raises s e u → K u → Q (.error e) u) : DurableState.wp m Q C s := by
  refine ⟨fun c hc => hC c (h s hs c (.inl hc)), ?_⟩
  have hfinal : K (m s).final := h s hs _ (.inr rfl)
  cases hr : (m s).result with
  | ok a => exact hok a _ ⟨hr, rfl⟩ hfinal
  | error e => exact herr e _ ⟨hr, rfl⟩ hfinal

/-- An invariant of the program holds after any number of crashed runs. -/
theorem CrashRuns.invariant (h : m.Keeps K) (hs : K s) (hst : m.CrashRuns s t) : K t := by
  induction hst with
  | refl => exact hs
  | tail _ hlast ih => exact h _ ih _ hlast

end Prog

end DurableState
