import Saipen.FileTree.Basic

/-! # What a change at one path leaves alone

`alter` changes one node. Everything at a path that is neither above nor below it keeps its
`probe`; the node itself is described by the function that was applied, and so are the entries of
its parent directory. `prune` cuts a subtree off, which gives the view of a tree that ignores it:
changes below the cut are invisible there, and changes apart from it commute with the cut. -/

namespace FileTree

universe u

variable {α : Type u}

/-- Neither path is the other one or above it. -/
def Apart (p q : Path) : Prop := ¬ p <+: q ∧ ¬ q <+: p

instance (p q : Path) : Decidable (Apart p q) := inferInstanceAs (Decidable (_ ∧ _))

theorem Apart.symm {p q : Path} (h : Apart p q) : Apart q p := ⟨h.2, h.1⟩

/-- Two distinct first components separate two paths. -/
theorem apart_of_head_ne {a b : String} (h : a ≠ b) (p q : Path) : Apart (a :: p) (b :: q) :=
  ⟨fun hp => h (List.cons_prefix_cons.mp hp).1, fun hp => h (List.cons_prefix_cons.mp hp).1.symm⟩

@[simp] theorem apart_cons_self {a : String} {p q : Path} :
    Apart (a :: p) (a :: q) ↔ Apart p q := by
  simp [Apart, List.cons_prefix_cons]

/-- A common beginning does not matter. -/
@[simp] theorem apart_append_self {p q r : Path} : Apart (p ++ q) (p ++ r) ↔ Apart q r := by
  simp [Apart, List.prefix_append_right_inj]

/-- Two entries of one directory are apart. -/
theorem apart_sibling {a b : String} (h : a ≠ b) (p : Path) : Apart (p ++ [a]) (p ++ [b]) :=
  apart_append_self.mpr (apart_of_head_ne h [] [])

theorem Apart.ne_nil_left {p q : Path} (h : Apart p q) : p ≠ [] := by
  rintro rfl; exact h.1 (List.nil_prefix)

theorem Apart.ne_nil_right {p q : Path} (h : Apart p q) : q ≠ [] := h.symm.ne_nil_left

/-- A path below one that is apart from another is apart from it too. -/
theorem Apart.append_left {p q : Path} (h : Apart p q) (r : Path) : Apart (p ++ r) q :=
  ⟨fun hp => h.1 ((List.prefix_append p r).trans hp), fun hq => by
    rcases List.prefix_or_prefix_of_prefix hq (List.prefix_append p r) with h' | h'
    · exact h.2 h'
    · exact h.1 h'⟩

/-- The node a lookup found, if any. -/
def Probe.node : Probe α → Option (Node α)
  | .found n => some n
  | _ => none

/-- The lookup that finds this node, or nothing. -/
def Probe.ofNode : Option (Node α) → Probe α
  | some n => .found n
  | none => .absent

@[simp] theorem probe_nil (t : Entries α) : probe [] t = .found (.dir t) := rfl

theorem probe_empty {p : Path} (h : p ≠ []) : probe p ([] : Entries α) = .absent := by
  cases p with
  | nil => exact absurd rfl h
  | cons a p => rfl

theorem probe_cons_of_none {a : String} {t : Entries α} (p : Path) (h : t.lookup a = none) :
    probe (a :: p) t = .absent := by
  simp [probe, h]

theorem probe_cons_of_dir {a : String} {t sub : Entries α} (p : Path)
    (h : t.lookup a = some (.dir sub)) : probe (a :: p) t = probe p sub := by
  simp [probe, h]

theorem probe_singleton (a : String) (t : Entries α) :
    probe [a] t = Probe.ofNode (t.lookup a) := by
  cases h : t.lookup a with
  | none => simp [probe, h, Probe.ofNode]
  | some n => cases n <;> simp [probe, h, Probe.ofNode]

/-- Looking up below a directory that was found. -/
theorem probe_append {p : Path} {t es : Entries α} (h : probe p t = .found (.dir es)) (q : Path) :
    probe (p ++ q) t = probe q es := by
  induction p generalizing t with
  | nil =>
    simp only [probe_nil, Probe.found.injEq, Node.dir.injEq] at h
    simp [h]
  | cons a p ih =>
    cases hl : t.lookup a with
    | none => simp [probe, hl] at h
    | some n =>
      cases n with
      | dir sub => simpa [probe, hl] using ih (by simpa [probe, hl] using h)
      | _ => by_cases hp : p = [] <;> simp [probe, hl, hp] at h

/-! ### Success of a change and its effect at the path -/

theorem alter_singleton (mk : Bool) (f : Option (Node α) → Option (Option (Node α)))
    (a : String) (t : Entries α) :
    alter mk f [a] t = (f (t.lookup a)).map fun v => setEntry a v t := rfl

theorem alter_cons_of_none (f : Option (Node α) → Option (Option (Node α))) {a : String}
    {p : Path} (hp : p ≠ []) {t : Entries α} (h : t.lookup a = none) :
    alter true f (a :: p) t = (alter true f p []).map fun sub => insertEntry a (.dir sub) t := by
  cases p with
  | nil => exact absurd rfl hp
  | cons b p => simp [alter, h]

theorem alter_cons_of_none_false (f : Option (Node α) → Option (Option (Node α))) {a : String}
    {p : Path} (hp : p ≠ []) {t : Entries α} (h : t.lookup a = none) :
    alter false f (a :: p) t = none := by
  cases p with
  | nil => exact absurd rfl hp
  | cons b p => simp [alter, h]

theorem alter_cons_of_dir (mk : Bool) (f : Option (Node α) → Option (Option (Node α)))
    {a : String} {p : Path} (hp : p ≠ []) {t sub : Entries α}
    (h : t.lookup a = some (.dir sub)) :
    alter mk f (a :: p) t = (alter mk f p sub).map fun s => insertEntry a (.dir s) t := by
  cases p with
  | nil => exact absurd rfl hp
  | cons b p => simp [alter, h]

theorem alter_cons_of_leaf (mk : Bool) (f : Option (Node α) → Option (Option (Node α)))
    {a : String} {p : Path} (hp : p ≠ []) {t : Entries α} {n : Node α}
    (h : t.lookup a = some n) (hn : n.isDir = false) : alter mk f (a :: p) t = none := by
  cases p with
  | nil => exact absurd rfl hp
  | cons b p => cases n <;> simp_all [alter]

/-- Inversion of a successful change below the first component: the directory there, old or new,
was changed, and its entry rewritten. -/
theorem alter_cons_eq_some {mk : Bool} {f : Option (Node α) → Option (Option (Node α))}
    {a : String} {p : Path} (hp : p ≠ []) {t t' : Entries α} (h : alter mk f (a :: p) t = some t') :
    ∃ sub sub', alter mk f p sub = some sub' ∧ t' = insertEntry a (.dir sub') t ∧
      (t.lookup a = some (.dir sub) ∨ (t.lookup a = none ∧ sub = [] ∧ mk = true)) := by
  cases hl : t.lookup a with
  | none =>
    cases mk with
    | false => simp [alter_cons_of_none_false f hp hl] at h
    | true =>
      rw [alter_cons_of_none f hp hl, Option.map_eq_some_iff] at h
      obtain ⟨sub', hs, rfl⟩ := h
      exact ⟨[], sub', hs, rfl, .inr ⟨rfl, rfl, rfl⟩⟩
  | some n =>
    cases hn : n.isDir with
    | false => simp [alter_cons_of_leaf mk f hp hl hn] at h
    | true =>
      obtain ⟨sub, rfl⟩ : ∃ sub, n = .dir sub := by cases n <;> simp_all [Node.isDir]
      rw [alter_cons_of_dir mk f hp hl, Option.map_eq_some_iff] at h
      obtain ⟨sub', hs, rfl⟩ := h
      exact ⟨sub, sub', hs, rfl, .inl rfl⟩

/-- What a successful change found at its path, and what it left there. -/
theorem alter_eq_some {mk : Bool} {f : Option (Node α) → Option (Option (Node α))} {p : Path}
    {t t' : Entries α} (h : alter mk f p t = some t') :
    ∃ v, f (probe p t).node = some v ∧ probe p t' = Probe.ofNode v ∧ probe p t ≠ .blocked := by
  induction p generalizing t t' with
  | nil => simp [alter] at h
  | cons a p ih =>
    rcases eq_or_ne p [] with rfl | hp
    · rw [alter_singleton, Option.map_eq_some_iff] at h
      obtain ⟨v, hv, rfl⟩ := h
      refine ⟨v, ?_, ?_, ?_⟩
      · rw [probe_singleton, ← hv]; cases t.lookup a <;> rfl
      · rw [probe_singleton, lookup_setEntry_self]
      · rw [probe_singleton]; cases t.lookup a <;> simp [Probe.ofNode]
    · obtain ⟨sub, sub', hs, rfl, hsub⟩ := alter_cons_eq_some hp h
      have hp' : probe (a :: p) t = probe p sub := by
        rcases hsub with hl | ⟨hl, rfl, -⟩
        · exact probe_cons_of_dir p hl
        · rw [probe_cons_of_none p hl, probe_empty hp]
      rw [hp', probe_cons_of_dir p (lookup_insertEntry_self a (.dir sub') t)]
      exact ih hs

/-- A change apart from a path leaves what is there. -/
theorem probe_alter_of_apart {mk : Bool} {f : Option (Node α) → Option (Option (Node α))}
    {p q : Path} {t t' : Entries α} (h : alter mk f q t = some t') (hpq : Apart p q) :
    probe p t' = probe p t := by
  induction q generalizing p t t' with
  | nil => simp [alter] at h
  | cons b q ih =>
    cases p with
    | nil => exact absurd rfl hpq.ne_nil_left
    | cons a p =>
      rcases eq_or_ne a b with rfl | hab
      · rw [apart_cons_self] at hpq
        obtain ⟨sub, sub', hs, rfl, hsub⟩ := alter_cons_eq_some hpq.ne_nil_right h
        rw [probe_cons_of_dir p (lookup_insertEntry_self a (.dir sub') t), ih hs hpq]
        rcases hsub with hl | ⟨hl, rfl, -⟩
        · rw [probe_cons_of_dir p hl]
        · rw [probe_cons_of_none p hl, probe_empty hpq.ne_nil_left]
      · have hl : t'.lookup a = t.lookup a := by
          rcases eq_or_ne q [] with rfl | hq
          · rw [alter_singleton, Option.map_eq_some_iff] at h
            obtain ⟨v, -, rfl⟩ := h
            exact lookup_setEntry_ne hab v t
          · obtain ⟨sub, sub', -, rfl, -⟩ := alter_cons_eq_some hq h
            exact lookup_setEntry_ne hab (some (.dir sub')) t
        simp only [probe, hl]

/-! ### Changing an entry of a directory that is there -/

/-- Changing an entry of an existing directory is changing that directory's entries. -/
theorem alter_append {mk : Bool} {f : Option (Node α) → Option (Option (Node α))} {p q : Path}
    {t es es' : Entries α} (h : probe p t = .found (.dir es)) (hq : q ≠ [])
    (hf : alter mk f q es = some es') :
    ∃ t', alter mk f (p ++ q) t = some t' ∧ probe p t' = .found (.dir es') := by
  induction p generalizing t with
  | nil =>
    simp only [probe_nil, Probe.found.injEq, Node.dir.injEq] at h
    subst h
    exact ⟨es', by simpa using hf, rfl⟩
  | cons a p ih =>
    cases hl : t.lookup a with
    | none => simp [probe, hl] at h
    | some n =>
      cases n with
      | dir sub =>
        rw [probe_cons_of_dir p hl] at h
        obtain ⟨sub', hs, hp⟩ := ih h
        refine ⟨insertEntry a (.dir sub') t, ?_, ?_⟩
        · rw [List.cons_append, alter_cons_of_dir mk f (by simp [hq]) hl, hs, Option.map_some]
        · rw [probe_cons_of_dir p (lookup_insertEntry_self a (.dir sub') t), hp]
      | _ => by_cases hp : p = [] <;> simp [probe, hl, hp] at h

/-- The converse: a change below an existing directory succeeds only as a change of its entries. -/
theorem alter_append_eq_some {mk : Bool} {f : Option (Node α) → Option (Option (Node α))}
    {p q : Path} {t t' es : Entries α} (h : probe p t = .found (.dir es)) (hq : q ≠ [])
    (ha : alter mk f (p ++ q) t = some t') :
    ∃ es', alter mk f q es = some es' ∧ probe p t' = .found (.dir es') := by
  induction p generalizing t t' with
  | nil =>
    simp only [probe_nil, Probe.found.injEq, Node.dir.injEq] at h
    subst h
    exact ⟨t', by simpa using ha, rfl⟩
  | cons a p ih =>
    have hpq : p ++ q ≠ [] := by simp [hq]
    obtain ⟨sub, sub', hs, rfl, hsub⟩ := alter_cons_eq_some hpq ha
    have hp : probe p sub = .found (.dir es) := by
      rcases hsub with hl | ⟨hl, rfl, -⟩
      · rwa [probe_cons_of_dir p hl] at h
      · rw [probe_cons_of_none p hl] at h; cases h
    obtain ⟨es', he, hp'⟩ := ih hp hs
    exact ⟨es', he, by rw [probe_cons_of_dir p (lookup_insertEntry_self a (.dir sub') t), hp']⟩

/-! ### Cutting a subtree off -/

/-- The tree without the node at a path, if there is one. -/
def prune : Path → Entries α → Entries α
  | [], t => t
  | [a], t => removeEntry a t
  | a :: b :: p, t =>
      match t.lookup a with
      | some (.dir sub) => insertEntry a (.dir (prune (b :: p) sub)) t
      | _ => t

theorem prune_cons_of_dir {a : String} {p : Path} (hp : p ≠ []) {t sub : Entries α}
    (h : t.lookup a = some (.dir sub)) : prune (a :: p) t = insertEntry a (.dir (prune p sub)) t := by
  cases p with
  | nil => exact absurd rfl hp
  | cons b p => simp [prune, h]

theorem prune_cons_of_not_dir {a : String} {p : Path} (hp : p ≠ []) {t : Entries α}
    (h : ∀ sub, t.lookup a ≠ some (.dir sub)) : prune (a :: p) t = t := by
  cases p with
  | nil => exact absurd rfl hp
  | cons b p =>
    cases hl : t.lookup a with
    | none => simp [prune, hl]
    | some n => cases n <;> simp_all [prune]

theorem prune_empty (p : Path) : prune p ([] : Entries α) = [] := by
  match p with
  | [] => rfl
  | [a] => rfl
  | a :: b :: p => rfl

/-- A cut rewrites one entry, which it removes or which is a directory and stays one. -/
theorem prune_cons_eq (a : String) (p : Path) (t : Entries α) :
    prune (a :: p) t = t ∨ ∃ w, prune (a :: p) t = setEntry a w t ∧
      (w = none ∨ t.lookup a ≠ none) := by
  rcases eq_or_ne p [] with rfl | hp
  · exact .inr ⟨none, rfl, .inl rfl⟩
  · by_cases h : ∃ sub, t.lookup a = some (.dir sub)
    · obtain ⟨sub, hl⟩ := h
      exact .inr ⟨some (.dir (prune p sub)), prune_cons_of_dir hp hl, .inr (by simp [hl])⟩
    · exact .inl (prune_cons_of_not_dir hp (by simpa using h))

/-- A path apart from the cut keeps its node. -/
theorem probe_prune {p q : Path} (h : Apart p q) (t : Entries α) :
    probe p (prune q t) = probe p t := by
  induction q generalizing p t with
  | nil => rfl
  | cons b q ih =>
    cases p with
    | nil => exact absurd rfl h.ne_nil_left
    | cons a p =>
      rcases eq_or_ne a b with rfl | hab
      · rw [apart_cons_self] at h
        by_cases hd : ∃ sub, t.lookup a = some (.dir sub)
        · obtain ⟨sub, hl⟩ := hd
          rw [prune_cons_of_dir h.ne_nil_right hl, probe_cons_of_dir p hl,
            probe_cons_of_dir p (lookup_insertEntry_self a (.dir (prune q sub)) t), ih h]
        · rw [prune_cons_of_not_dir h.ne_nil_right (by simpa using hd)]
      · rcases prune_cons_eq b q t with h' | ⟨w, h', -⟩
        · rw [h']
        · rw [h']; simp only [probe, lookup_setEntry_ne hab w t]

/-- A change apart from the cut commutes with it. -/
theorem alter_prune {mk : Bool} {f : Option (Node α) → Option (Option (Node α))} {p q : Path}
    (h : Apart p q) (t : Entries α) :
    alter mk f q (prune p t) = (alter mk f q t).map (prune p) := by
  induction q generalizing p t with
  | nil => exact absurd rfl h.ne_nil_right
  | cons b q ih =>
    cases p with
    | nil => exact absurd rfl h.ne_nil_left
    | cons a p =>
      rcases eq_or_ne a b with rfl | hab
      · rw [apart_cons_self] at h
        cases hl : t.lookup a with
        | none =>
          rw [prune_cons_of_not_dir h.ne_nil_left (by simp [hl])]
          cases mk with
          | false => simp [alter_cons_of_none_false f h.ne_nil_right hl]
          | true =>
            rw [alter_cons_of_none f h.ne_nil_right hl]
            have key := ih h []
            rw [prune_empty] at key
            cases hs : alter true f q [] with
            | none => rfl
            | some sub =>
              rw [hs, Option.map_some, Option.some.injEq] at key
              simp only [Option.map_some, Option.some.injEq]
              rw [prune_cons_of_dir h.ne_nil_left
                (lookup_insertEntry_self a (.dir sub) t), ← key]
              exact (setEntry_insertEntry a (some (.dir sub)) _ t).symm
        | some n =>
          cases hn : n.isDir with
          | false =>
            rw [prune_cons_of_not_dir h.ne_nil_left (by
                rintro sub hs
                rw [hl, Option.some.injEq] at hs
                subst hs
                cases hn),
              alter_cons_of_leaf mk f h.ne_nil_right hl hn]
            rfl
          | true =>
            obtain ⟨sub, rfl⟩ : ∃ sub, n = .dir sub := by cases n <;> simp_all [Node.isDir]
            rw [prune_cons_of_dir h.ne_nil_left hl, alter_cons_of_dir mk f h.ne_nil_right hl,
              alter_cons_of_dir mk f h.ne_nil_right
                (lookup_insertEntry_self a (.dir (prune p sub)) t), ih h sub]
            cases alter mk f q sub with
            | none => rfl
            | some sub' =>
              simp only [Option.map_some, Option.some.injEq]
              rw [prune_cons_of_dir h.ne_nil_left
                (lookup_insertEntry_self a (.dir sub') t)]
              exact (setEntry_insertEntry a (some (.dir (prune p sub'))) _ t).trans
                (setEntry_insertEntry a (some (.dir (prune p sub'))) _ t).symm
      · -- different first components: both sides rewrite one entry each
        have hlook : (prune (a :: p) t).lookup b = t.lookup b := by
          rcases prune_cons_eq a p t with h' | ⟨w, h', -⟩
          · rw [h']
          · rw [h', lookup_setEntry_ne hab.symm]
        have hcomm : ∀ v, setEntry b v (prune (a :: p) t) = prune (a :: p) (setEntry b v t) := by
          intro v
          have hla : (setEntry b v t).lookup a = t.lookup a := lookup_setEntry_ne hab v t
          rcases eq_or_ne p [] with rfl | hp
          · exact setEntry_comm hab.symm v none t (.inl rfl)
          · by_cases hd : ∃ sub, t.lookup a = some (.dir sub)
            · obtain ⟨sub, hl⟩ := hd
              rw [prune_cons_of_dir hp hl, prune_cons_of_dir hp (hla.trans hl)]
              exact setEntry_comm hab.symm v (some (.dir (prune p sub))) t (.inr (by simp [hl]))
            · rw [prune_cons_of_not_dir hp (by simpa using hd),
                prune_cons_of_not_dir hp (by simpa [hla] using hd)]
        rcases eq_or_ne q [] with rfl | hq
        · rw [alter_singleton, alter_singleton, hlook]
          cases f (t.lookup b) with
          | none => rfl
          | some v => simp [hcomm v]
        · cases hl : t.lookup b with
          | none =>
            cases mk with
            | false => simp [alter_cons_of_none_false f hq hl,
                alter_cons_of_none_false f hq (hlook.trans hl)]
            | true =>
              rw [alter_cons_of_none f hq hl, alter_cons_of_none f hq (hlook.trans hl)]
              cases alter true f q [] with
              | none => rfl
              | some sub => simpa using hcomm (some (.dir sub))
          | some n =>
            cases hn : n.isDir with
            | false =>
              rw [alter_cons_of_leaf mk f hq hl hn, alter_cons_of_leaf mk f hq (hlook.trans hl) hn]
              rfl
            | true =>
              obtain ⟨sub, rfl⟩ : ∃ sub, n = .dir sub := by cases n <;> simp_all [Node.isDir]
              rw [alter_cons_of_dir mk f hq hl, alter_cons_of_dir mk f hq (hlook.trans hl)]
              cases alter mk f q sub with
              | none => rfl
              | some sub' => simpa using hcomm (some (.dir sub'))

/-- A change at or below the cut is invisible, when the directory around the cut exists. -/
theorem prune_alter {mk : Bool} {f : Option (Node α) → Option (Option (Node α))} {p : Path}
    {a : String} {q : Path} {t t' es : Entries α} (h : alter mk f (p ++ a :: q) t = some t')
    (hp : probe p t = .found (.dir es)) : prune (p ++ [a]) t' = prune (p ++ [a]) t := by
  induction p generalizing t t' with
  | nil =>
    simp only [List.nil_append] at h ⊢
    rcases eq_or_ne q [] with rfl | hq
    · rw [alter_singleton, Option.map_eq_some_iff] at h
      obtain ⟨v, -, rfl⟩ := h
      cases v with
      | none => exact removeEntry_self a t
      | some n => exact setEntry_insertEntry a none n t
    · obtain ⟨sub, sub', -, rfl, -⟩ := alter_cons_eq_some hq h
      exact setEntry_insertEntry a none _ t
  | cons b p ih =>
    rw [List.cons_append] at h
    have hpa : p ++ a :: q ≠ [] := by simp
    have hpa' : p ++ [a] ≠ [] := by simp
    obtain ⟨sub, sub', hs, rfl, hsub⟩ := alter_cons_eq_some hpa h
    rcases hsub with hl | ⟨hl, rfl, -⟩
    · rw [probe_cons_of_dir p hl] at hp
      rw [List.cons_append, prune_cons_of_dir hpa' hl,
        prune_cons_of_dir hpa' (lookup_insertEntry_self b (.dir sub') t), ih hs hp]
      exact setEntry_insertEntry b (some (.dir _)) _ t
    · rw [probe_cons_of_none p hl] at hp; cases hp

/-- A cut below a directory leaves a directory there. -/
theorem probe_prune_of_prefix {p q : Path} {t es : Entries α} (h : probe p t = .found (.dir es)) :
    q ≠ [] → probe p (prune (p ++ q) t) = .found (.dir (prune q es)) := by
  intro hq
  induction p generalizing t with
  | nil =>
    simp only [probe_nil, Probe.found.injEq, Node.dir.injEq] at h
    simp [h]
  | cons a p ih =>
    have hpq : p ++ q ≠ [] := by simp [hq]
    by_cases hd : ∃ sub, t.lookup a = some (.dir sub)
    · obtain ⟨sub, hl⟩ := hd
      rw [probe_cons_of_dir p hl] at h
      rw [List.cons_append, prune_cons_of_dir hpq hl,
        probe_cons_of_dir p (lookup_insertEntry_self a (.dir (prune (p ++ q) sub)) t), ih h]
    · exfalso
      cases hl : t.lookup a with
      | none => simp [probe, hl] at h
      | some n =>
        cases n with
        | dir sub => exact hd ⟨sub, hl⟩
        | _ => by_cases hp : p = [] <;> simp [probe, hl, hp] at h

end FileTree
