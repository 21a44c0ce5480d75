import Saipen.FileTree.Frame

/-! # Leaves

The leaf at a path is the node there unless it is a directory. The changes of a POSIX interface
refuse a directory that still holds something, so a change at one path touches no leaf at another:
what it destroys or creates on the way are directories. -/

namespace FileTree

universe u

variable {α : Type u}

/-- The node at a path, unless it is a directory. -/
def leafAt (p : Path) (t : Entries α) : Option (Node α) :=
  match probe p t with
  | .found (.dir _) => none
  | .found n => some n
  | _ => none

/-- There is a directory at the path. -/
def IsDirAt (p : Path) (t : Entries α) : Prop := ∃ es, probe p t = .found (.dir es)

theorem leafAt_of_isDirAt {p : Path} {t : Entries α} (h : IsDirAt p t) : leafAt p t = none := by
  obtain ⟨es, hes⟩ := h
  rw [leafAt, hes]

theorem leafAt_congr {p : Path} {t t' : Entries α} (h : probe p t = probe p t') :
    leafAt p t = leafAt p t' := by
  rw [leafAt, leafAt, h]

theorem isDirAt_congr {p : Path} {t t' : Entries α} (h : probe p t = probe p t') :
    IsDirAt p t ↔ IsDirAt p t' := by
  rw [IsDirAt, IsDirAt, h]

/-- A change that refuses directories with something in them, and puts none in their place. -/
structure Gentle (f : Option (Node α) → Option (Option (Node α))) : Prop where
  refuses : ∀ es, es ≠ [] → f (some (.dir es)) = none
  puts : ∀ o v es, f o = some (some (.dir es)) → v = es → v = []

/-- Below something that is not a directory with entries there is nothing. -/
theorem probe_below_of_empty {p : Path} {a : String} {q : Path} {t : Entries α}
    (h : ∀ es, probe p t = .found (.dir es) → es = []) :
    leafAt (p ++ a :: q) t = none ∧ ¬ IsDirAt (p ++ a :: q) t := by
  have key : ∀ n, probe (p ++ a :: q) t ≠ .found n := by
    intro n hn
    induction p generalizing t with
    | nil =>
      obtain rfl := h t rfl
      rw [List.nil_append, probe_empty (by simp)] at hn
      cases hn
    | cons b p ih =>
      rw [List.cons_append] at hn
      cases hl : t.lookup b with
      | none => rw [probe_cons_of_none _ hl] at hn; cases hn
      | some m =>
        cases m with
        | dir sub =>
          rw [probe_cons_of_dir _ hl] at hn
          exact ih (fun es hes => h es (by rw [probe_cons_of_dir _ hl, hes])) hn
        | _ => simp [probe, hl] at hn
  constructor
  · unfold leafAt
    cases hp : probe (p ++ a :: q) t with
    | found n => exact absurd hp (key n)
    | _ => rfl
  · rintro ⟨es, hes⟩
    exact key _ hes

/-- A change below a path leaves a directory there, and found one or nothing. -/
theorem isDirAt_of_alter_below {mk : Bool} {f : Option (Node α) → Option (Option (Node α))}
    {p : Path} {a : String} {q : Path} {t t' : Entries α}
    (h : alter mk f (p ++ a :: q) t = some t') : IsDirAt p t' ∧ leafAt p t = none := by
  induction p generalizing t t' with
  | nil => exact ⟨⟨t', rfl⟩, rfl⟩
  | cons b p ih =>
    rw [List.cons_append] at h
    obtain ⟨sub, sub', hs, rfl, hsub⟩ := alter_cons_eq_some (by simp) h
    obtain ⟨⟨es, hes⟩, hleaf⟩ := ih hs
    refine ⟨⟨es, ?_⟩, ?_⟩
    · rw [probe_cons_of_dir p (lookup_insertEntry_self b (.dir sub') t), hes]
    · rcases hsub with hl | ⟨hl, rfl, -⟩
      · rwa [leafAt, probe_cons_of_dir p hl]
      · rw [leafAt, probe_cons_of_none p hl]

/-- Two paths are equal, apart, or one is strictly above the other. -/
theorem path_cases (p q : Path) :
    p = q ∨ Apart p q ∨ (∃ a r, q = p ++ a :: r) ∨ ∃ a r, p = q ++ a :: r := by
  by_cases hpq : p <+: q
  · obtain ⟨r, rfl⟩ := hpq
    cases r with
    | nil => exact .inl (by simp)
    | cons a r => exact .inr (.inr (.inl ⟨a, r, rfl⟩))
  · by_cases hqp : q <+: p
    · obtain ⟨r, rfl⟩ := hqp
      cases r with
      | nil => exact .inl (by simp)
      | cons a r => exact .inr (.inr (.inr ⟨a, r, rfl⟩))
    · exact .inr (.inl ⟨hpq, hqp⟩)

section Gentle

variable {mk : Bool} {f : Option (Node α) → Option (Option (Node α))} {p q : Path}
  {t t' : Entries α}

/-- At the path of a gentle change stood no directory with entries, and none stands there after. -/
theorem Gentle.empty (hf : Gentle f) (h : alter mk f q t = some t') :
    (∀ es, probe q t = .found (.dir es) → es = []) ∧
      ∀ es, probe q t' = .found (.dir es) → es = [] := by
  obtain ⟨v, hv, hp, -⟩ := alter_eq_some h
  constructor
  · intro es hes
    by_contra hne
    rw [hes, Probe.node, hf.refuses es hne] at hv
    cases hv
  · intro es hes
    rw [hp] at hes
    cases v with
    | none => cases hes
    | some n =>
      obtain rfl : n = .dir es := by simpa [Probe.ofNode] using hes
      exact hf.puts _ es es hv rfl

/-- A gentle change touches no leaf at another path. -/
theorem Gentle.leafAt (hf : Gentle f) (h : alter mk f q t = some t') (hne : p ≠ q) :
    leafAt p t' = leafAt p t := by
  rcases path_cases p q with rfl | hap | ⟨a, r, rfl⟩ | ⟨a, r, rfl⟩
  · exact absurd rfl hne
  · exact leafAt_congr (probe_alter_of_apart h hap)
  · obtain ⟨hdir, hleaf⟩ := isDirAt_of_alter_below h
    rw [leafAt_of_isDirAt hdir, hleaf]
  · obtain ⟨hold, hnew⟩ := hf.empty h
    rw [(probe_below_of_empty hold).1, (probe_below_of_empty hnew).1]

/-- A gentle change removes no directory at another path. -/
theorem Gentle.isDirAt (hf : Gentle f) (h : alter mk f q t = some t') (hne : p ≠ q)
    (hp : IsDirAt p t) : IsDirAt p t' := by
  rcases path_cases p q with rfl | hap | ⟨a, r, rfl⟩ | ⟨a, r, rfl⟩
  · exact absurd rfl hne
  · exact (isDirAt_congr (probe_alter_of_apart h hap)).mpr hp
  · exact (isDirAt_of_alter_below h).1
  · exact absurd hp (probe_below_of_empty (hf.empty h).1).2

end Gentle

/-! ### The gentle changes -/

theorem gentle_writeFile (c : α) : Gentle (fun
    | none => some (some (.file c))
    | some (.file _) => some (some (.file c))
    | some _ => none : Option (Node α) → Option (Option (Node α))) where
  refuses := fun _ _ => rfl
  puts := by
    intro o v es h
    split at h <;> simp at h

theorem gentle_unlink : Gentle (fun
    | none => none
    | some (.dir _) => none
    | some _ => some none : Option (Node α) → Option (Option (Node α))) where
  refuses := fun _ _ => rfl
  puts := by
    intro o v es h
    split at h <;> simp at h

theorem gentle_rmdir : Gentle (fun
    | some (.dir []) => some none
    | _ => none : Option (Node α) → Option (Option (Node α))) where
  refuses := by
    intro es hes
    cases es with
    | nil => exact absurd rfl hes
    | cons e es => rfl
  puts := by
    intro o v es h
    split at h <;> simp at h

theorem writeFile_isFile {c : α} {p : Path} {t t' : Entries α} (h : writeFile c p t = some t') :
    probe p t' = .found (.file c) ∧ ¬ IsDirAt p t := by
  obtain ⟨v, hv, hp, -⟩ := alter_eq_some h
  split at hv
  · next hn =>
    rw [hp, ← Option.some.inj hv]
    refine ⟨rfl, fun ⟨es, hes⟩ => ?_⟩
    rw [hes] at hn
    cases hn
  · next hn =>
    rw [hp, ← Option.some.inj hv]
    refine ⟨rfl, fun ⟨es, hes⟩ => ?_⟩
    rw [hes] at hn
    cases hn
  · cases hv

theorem unlink_absent {p : Path} {t t' : Entries α} (h : unlink p t = some t') :
    probe p t' = .absent ∧ ¬ IsDirAt p t := by
  obtain ⟨v, hv, hp, -⟩ := alter_eq_some h
  split at hv
  · cases hv
  · cases hv
  · next n hn hnode =>
    rw [hp, ← Option.some.inj hv]
    refine ⟨rfl, fun ⟨es, hes⟩ => ?_⟩
    rw [hes] at hnode
    exact hn es (Option.some.inj hnode).symm

theorem rmdir_absent {p : Path} {t t' : Entries α} (h : rmdir p t = some t') :
    probe p t' = .absent ∧ probe p t = .found (.dir []) := by
  obtain ⟨v, hv, hp, -⟩ := alter_eq_some h
  split at hv
  · next hn =>
    rw [hp, ← Option.some.inj hv]
    refine ⟨rfl, ?_⟩
    cases hq : probe p t with
    | found n =>
      rw [hq] at hn
      rw [Option.some.inj hn]
    | _ => rw [hq] at hn; cases hn
  · cases hv

end FileTree
