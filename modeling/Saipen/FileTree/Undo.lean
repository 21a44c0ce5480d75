import Saipen.FileTree.Leaf

/-! # Undoing writes

A stack of snapshots undoes the writes it was taken for: put back newest first, every leaf is what it
was. A write made behind the stack's back stays where the stack holds no snapshot. -/

namespace FileTree

universe u

variable {α : Type u}

/-- The content of a regular file, if there is one. -/
def fileAt (p : Path) (t : Entries α) : Option α :=
  match probe p t with
  | .found (.file c) => some c
  | _ => none

theorem fileAt_eq_some {p : Path} {t : Entries α} {c : α} :
    fileAt p t = some c ↔ probe p t = .found (.file c) := by
  unfold fileAt
  split
  · next c' h => rw [h]; simp
  · next h => exact iff_of_false (by simp) (h c)

theorem fileAt_eq_some_leafAt {p : Path} {t : Entries α} {c : α} :
    fileAt p t = some c ↔ leafAt p t = some (.file c) := by
  rw [fileAt_eq_some]
  unfold leafAt
  cases h : probe p t with
  | found n => cases n <;> simp
  | _ => simp

theorem fileAt_congr {p : Path} {t t' : Entries α} (h : leafAt p t' = leafAt p t) :
    fileAt p t' = fileAt p t := by
  refine Option.ext fun c => ?_
  rw [fileAt_eq_some_leafAt, fileAt_eq_some_leafAt, h]

/-! ### Changes that go through -/

/-- A change of a node that is there goes through when the node allows it. -/
theorem alter_of_found {mk : Bool} {f : Option (Node α) → Option (Option (Node α))} {p : Path}
    {t : Entries α} {n : Node α} {v : Option (Node α)} (hp : p ≠ [])
    (h : probe p t = .found n) (hf : f (some n) = some v) : ∃ t', alter mk f p t = some t' := by
  induction p generalizing t with
  | nil => exact absurd rfl hp
  | cons a p ih =>
    rcases eq_or_ne p [] with rfl | hne
    · rw [probe_singleton] at h
      rw [alter_singleton]
      cases hl : t.lookup a with
      | none => rw [hl] at h; cases h
      | some m =>
        rw [hl] at h
        obtain rfl : m = n := by simpa [Probe.ofNode] using h
        exact ⟨_, by rw [hf, Option.map_some]⟩
    · cases hl : t.lookup a with
      | none => rw [probe_cons_of_none p hl] at h; cases h
      | some m =>
        cases m with
        | dir sub =>
          rw [probe_cons_of_dir p hl] at h
          obtain ⟨sub', hs⟩ := ih hne h
          exact ⟨_, by rw [alter_cons_of_dir mk f hne hl, hs, Option.map_some]⟩
        | _ => simp [probe, hl, hne] at h

theorem ne_nil_of_fileAt {p : Path} {t : Entries α} {c : α} (h : fileAt p t = some c) : p ≠ [] := by
  rintro rfl
  rw [fileAt_eq_some] at h
  cases h

/-- A file can be written over. -/
theorem writeFile_of_fileAt {p : Path} {t : Entries α} {c : α} (c' : α) (h : fileAt p t = some c) :
    ∃ t', writeFile c' p t = some t' :=
  alter_of_found (ne_nil_of_fileAt h) (fileAt_eq_some.mp h) rfl

/-- A file can be removed. -/
theorem unlink_of_fileAt {p : Path} {t : Entries α} {c : α} (h : fileAt p t = some c) :
    ∃ t', unlink p t = some t' :=
  alter_of_found (ne_nil_of_fileAt h) (fileAt_eq_some.mp h) rfl

/-! ### What a change leaves at the leaves -/

theorem leafAt_writeFile {c : α} {p : Path} {t t' : Entries α} (h : writeFile c p t = some t')
    (q : Path) : leafAt q t' = if q = p then some (.file c) else leafAt q t := by
  split
  · next heq =>
    rw [heq, leafAt, (writeFile_isFile h).1]
  · next hne => exact (gentle_writeFile c).leafAt h hne

theorem leafAt_unlink {p : Path} {t t' : Entries α} (h : unlink p t = some t') (q : Path) :
    leafAt q t' = if q = p then none else leafAt q t := by
  split
  · next heq =>
    rw [heq, leafAt, (unlink_absent h).1]
  · next hne => exact gentle_unlink.leafAt h hne

theorem fileAt_writeFile {c : α} {p : Path} {t t' : Entries α} (h : writeFile c p t = some t') :
    fileAt p t' = some c := by
  rw [fileAt_eq_some_leafAt, leafAt_writeFile h, if_pos rfl]

/-- Where a file was written there was one, or no leaf. -/
theorem leafAt_of_writeFile {c : α} {p : Path} {t t' : Entries α} (h : writeFile c p t = some t') :
    leafAt p t = (fileAt p t).map .file := by
  obtain ⟨v, hv, -, hb⟩ := alter_eq_some h
  unfold leafAt fileAt
  cases hp : probe p t with
  | absent => rfl
  | blocked => exact absurd hp hb
  | found n => rw [hp] at hv; cases n <;> simp_all [Probe.node]

/-! ### The stack -/

/-- The same leaves everywhere. -/
def SameLeaves (t t' : Entries α) : Prop := ∀ p, leafAt p t' = leafAt p t

theorem SameLeaves.refl (t : Entries α) : SameLeaves t t := fun _ => rfl

theorem SameLeaves.trans {t t' t'' : Entries α} (h : SameLeaves t t') (h' : SameLeaves t' t'') :
    SameLeaves t t'' := fun p => (h' p).trans (h p)

theorem SameLeaves.symm {t t' : Entries α} (h : SameLeaves t t') : SameLeaves t' t := fun p => (h p).symm

/-- The same leaves, but for a file at one path. -/
def SameBut (q : Path) (c : α) (t t' : Entries α) : Prop :=
  ∀ p, leafAt p t' = if p = q then some (.file c) else leafAt p t

theorem writeFile_sameBut {c : α} {p : Path} {t t' : Entries α} (h : writeFile c p t = some t') :
    SameBut p c t t' := leafAt_writeFile h

theorem SameBut.of_same {q : Path} {c : α} {t t' t'' : Entries α} (h : SameLeaves t t')
    (h' : SameBut q c t' t'') : SameBut q c t t'' := by
  intro p
  rw [h' p, h p]

/-- Put one snapshot back. -/
def undoStep (p : Path) : Option α → Entries α → Option (Entries α)
  | some prior, t => writeFile prior p t
  | none, t => some ((unlink p t).getD t)

/-- Put the snapshots of a stack back, newest first. -/
def undo : List (Path × Option α) → Entries α → Option (Entries α)
  | [], t => some t
  | (p, prior) :: stack, t => (undoStep p prior t).bind (undo stack)

/-- The stack was taken on the way from `t` to `t'`, a snapshot before each write. -/
inductive Undoes : List (Path × Option α) → Entries α → Entries α → Prop
  | nil (t : Entries α) : Undoes [] t t
  | write {stack : List (Path × Option α)} {t u v : Entries α} {p : Path} {c : α}
      (h : Undoes stack t u) (hw : writeFile c p u = some v) :
      Undoes ((p, fileAt p u) :: stack) t v

/-- A snapshot put back over a file leaves the leaf it was taken from, and the others. -/
theorem undoStep_leafAt {p : Path} {c c' : α} {u v t : Entries α} (hw : writeFile c p u = some v)
    (hfile : fileAt p t = some c') : ∃ t', undoStep p (fileAt p u) t = some t' ∧
      ∀ q, leafAt q t' = if q = p then leafAt p u else leafAt q t := by
  have hleaf := leafAt_of_writeFile hw
  cases hprior : fileAt p u with
  | some prior =>
    rw [hprior] at hleaf
    obtain ⟨t', ht'⟩ := writeFile_of_fileAt prior hfile
    exact ⟨t', ht', fun q => by rw [leafAt_writeFile ht', hleaf]; rfl⟩
  | none =>
    rw [hprior] at hleaf
    obtain ⟨t', ht'⟩ := unlink_of_fileAt hfile
    exact ⟨t', by rw [undoStep, ht', Option.getD_some],
      fun q => by rw [leafAt_unlink ht', hleaf]; rfl⟩

/-- The stack undoes its writes. -/
theorem Undoes.undo_same {stack : List (Path × Option α)} {t u u' : Entries α}
    (h : Undoes stack t u) (hsame : SameLeaves u u') :
    ∃ t', undo stack u' = some t' ∧ SameLeaves t t' := by
  induction h generalizing u' with
  | nil t => exact ⟨u', rfl, hsame⟩
  | @write stack t u v p c h hw ih =>
    have hfile : fileAt p u' = some c := by
      rw [fileAt_congr (hsame p), fileAt_writeFile hw]
    obtain ⟨v', hstep, hleaf⟩ := undoStep_leafAt hw hfile
    have hback : SameLeaves u v' := by
      intro q
      rw [hleaf q]
      split
      · next heq => rw [heq]
      · next hne => rw [hsame q, leafAt_writeFile hw, if_neg hne]
    obtain ⟨t', ht', hsame'⟩ := ih hback
    exact ⟨t', by rw [undo, hstep, Option.bind_some, ht'], hsame'⟩

/-- A file put in behind the stack's back is undone with the rest where the stack holds its path,
and stays where it does not. -/
theorem Undoes.undo_but {stack : List (Path × Option α)} {t u u' : Entries α} {q : Path} {c : α}
    (h : Undoes stack t u) (hbut : SameBut q c u u') :
    ∃ t', undo stack u' = some t' ∧
      (q ∈ stack.map Prod.fst → SameLeaves t t') ∧
      (q ∉ stack.map Prod.fst → SameBut q c t t') := by
  induction h generalizing u' with
  | nil t => exact ⟨u', rfl, fun hq => absurd hq (by simp), fun _ => hbut⟩
  | @write stack t u v p c₀ h hw ih =>
    by_cases hpq : q = p
    · -- the step at `q` brings its leaf back, and the rest is undone as it stands
      subst hpq
      have hfile : fileAt q u' = some c := by
        rw [fileAt_eq_some_leafAt, hbut q, if_pos rfl]
      obtain ⟨v', hstep, hleaf⟩ := undoStep_leafAt hw hfile
      have hback : SameLeaves u v' := by
        intro r
        rw [hleaf r]
        split
        · next heq => rw [heq]
        · next hne => rw [hbut r, if_neg hne, leafAt_writeFile hw, if_neg hne]
      obtain ⟨t', ht', hsame⟩ := h.undo_same hback
      exact ⟨t', by rw [undo, hstep, Option.bind_some, ht'], fun _ => hsame,
        fun hq => absurd hq (by simp)⟩
    · have hfile : fileAt p u' = some c₀ := by
        rw [fileAt_eq_some_leafAt, hbut p, if_neg (Ne.symm hpq), leafAt_writeFile hw, if_pos rfl]
      obtain ⟨v', hstep, hleaf⟩ := undoStep_leafAt hw hfile
      have hback : SameBut q c u v' := by
        intro r
        rw [hleaf r]
        split
        · next heq => rw [heq, if_neg (Ne.symm hpq)]
        · next hne =>
          rw [hbut r, leafAt_writeFile hw, if_neg hne]
      obtain ⟨t', ht', hin, hout⟩ := ih hback
      refine ⟨t', by rw [undo, hstep, Option.bind_some, ht'], ?_⟩
      rw [List.map_cons, List.mem_cons, or_iff_right hpq]
      exact ⟨hin, hout⟩

/-- A leaf at no path of the stack is as it was. -/
theorem Undoes.leafAt_of_notMem {stack : List (Path × Option α)} {t u : Entries α} {p : Path}
    (h : Undoes stack t u) (hp : p ∉ stack.map Prod.fst) : leafAt p u = leafAt p t := by
  induction h with
  | nil t => rfl
  | @write stack t u v q c h hw ih =>
    rw [List.map_cons, List.mem_cons, not_or] at hp
    rw [leafAt_writeFile hw, if_neg hp.1, ih hp.2]

end FileTree
