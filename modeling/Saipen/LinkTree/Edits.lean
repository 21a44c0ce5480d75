import Mathlib.Data.List.Nodup
import Saipen.LinkTree.Basic

/-! # Lists of edits

An edit gives a relative path a content or removes what stands there. Edits are performed one after
the other; `Ran` is what a list of them has made of a tree, and `edits_iff_clear` says from the first
tree alone when all of them are performed and all of them last. -/

namespace LinkTree

/-- What a relative path is to become: a file with a content, or nothing. -/
abbrev Edit (α : Type) := Path × Option α

namespace Tree

variable {α : Type} {t u x : Tree α} {links : ℕ} {root rel : Path} {content : α} {q : Path}

/-! ### Trees that only grow directories -/

/-- A tree with more directories at most. -/
structure Grown (t u : Tree α) : Prop where
  same : ∀ q, t.node q ≠ none → u.node q = t.node q
  made : ∀ q, t.node q = none → u.node q = none ∨ u.node q = some .dir

theorem Grown.refl (t : Tree α) : Grown t t := ⟨fun _ _ => rfl, fun _ => .inl⟩

theorem Ensured.grown {p : Path} {cs : List String} (h : Ensured t u p cs) : Grown t u := by
  refine ⟨h.same, fun q hnone => ?_⟩
  by_cases hmade : u.node q = none
  · exact .inl hmade
  · exact .inr (h.made q hnone hmade).1

/-- The same files stand in both trees. -/
def SameFiles (t u : Tree α) : Prop := ∀ q content, u.node q = some (.file content) ↔ t.node q = some (.file content)

theorem SameFiles.refl (t : Tree α) : SameFiles t t := fun _ _ => Iff.rfl

theorem SameFiles.trans (h : SameFiles t u) (h' : SameFiles u x) : SameFiles t x :=
  fun q content => (h' q content).trans (h q content)

theorem SameFiles.symm (h : SameFiles t u) : SameFiles u t := fun q content => (h q content).symm

theorem Grown.node_iff (h : Grown t u) {n : Node α} (hn : n ≠ .dir) : u.node q = some n ↔ t.node q = some n := by
  by_cases hnone : t.node q = none
  · rcases h.made q hnone with hsame | hdir
    · rw [hsame, hnone]
    · rw [hdir, hnone, Option.some.injEq]
      exact iff_of_false (Ne.symm hn) (by simp)
  · rw [h.same q hnone]

theorem Grown.sameFiles (h : Grown t u) : SameFiles t u := fun _ _ => h.node_iff (by simp)

/-! ### What no edit changes -/

/-- The directories stay, and what is neither a directory nor a file stays and is not made. -/
structure Edited (t u : Tree α) : Prop where
  keeps : Keeps t u
  special : ∀ p, u.node p = some .special ↔ t.node p = some .special

theorem Edited.refl (t : Tree α) : Edited t t := ⟨.refl t, fun _ => Iff.rfl⟩

theorem Edited.trans (h : Edited t u) (h' : Edited u x) : Edited t x :=
  ⟨h.keeps.trans h'.keeps, fun p => (h'.special p).trans (h.special p)⟩

theorem Grown.edited (h : Grown t u) : Edited t u := by
  refine ⟨⟨fun p hdir => ?_, fun p target => h.node_iff (by simp)⟩, fun p => h.node_iff (by simp)⟩
  rw [h.same p (by rw [hdir]; simp), hdir]

theorem Written.edited (h : Written t u root rel content) : Edited t u := by
  refine ⟨h.keeps, fun p => ?_⟩
  by_cases hp : p = root ++ rel
  · subst hp
    rw [h.self]
    refine iff_of_false (by simp) ?_
    rcases h.free with hnone | ⟨old, hfile⟩ <;> simp [*]
  · rcases h.other p hp with hsame | ⟨hnone, hdir, -⟩
    · rw [hsame]
    · rw [hnone, hdir]
      simp

theorem file?_eq_some : t.file? links root rel = some content ↔
    ∃ p, t.place links root rel = some p ∧ t.node p = some (.file content) := by
  unfold file? lstat
  cases t.place links root rel with
  | none => simp
  | some p =>
    simp only [Option.bind_some]
    split
    · next held hfile => simp [hfile]
    · next hother =>
      refine iff_of_false (by simp) ?_
      rintro ⟨p', hp, hfile⟩
      obtain rfl := Option.some.inj hp
      exact hother content hfile

/-- What `file?` finds at a place that is known. -/
theorem file?_of_place {p : Path} (hp : t.place links root rel = some p) :
    t.file? links root rel = some content ↔ t.node p = some (.file content) := by
  rw [file?_eq_some]
  constructor
  · rintro ⟨p', hp', hfile⟩
    obtain rfl := Option.some.inj (hp.symm.trans hp')
    exact hfile
  · exact fun hfile => ⟨p, hp, hfile⟩

/-- What `file?` finds behind no link. -/
theorem file?_plain (h : Plain t root rel) (hup : ".." ∉ rel) :
    t.file? links root rel = some content ↔ t.node (root ++ rel) = some (.file content) := by
  unfold file?
  rw [lstat_plain h hup]
  split
  · next held hfile => rw [hfile]; simp
  · next hother => exact iff_of_false (by simp) fun hfile => hother content hfile

theorem file?_eq_none {p : Path} (hp : t.place links root rel = some p) :
    t.file? links root rel = none ↔ ∀ content, t.node p ≠ some (.file content) := by
  rw [Option.eq_none_iff_forall_ne_some]
  exact forall_congr' fun content => not_congr (file?_of_place hp)

/-- A file that is unlinked takes nothing else with it. -/
theorem unlink_edited (h : u.unlink links root rel = some x) {p : Path}
    (hp : u.place links root rel = some p) (hfile : u.node p = some (.file content)) : Edited u x := by
  obtain ⟨p', n, hplace, hn, -, hnode⟩ := unlink_spec h
  obtain rfl := Option.some.inj (hp.symm.trans hplace)
  refine ⟨.update hnode (by simp [hfile]) (by simp [hfile]) (by simp), fun q => ?_⟩
  rw [hnode]
  by_cases hq : q = p
  · subst hq
    rw [Function.update_self, hfile]
    simp
  · rw [Function.update_of_ne hq]

/-! ### Runs -/

/-- What an edit makes of the tree, where it is not refused. -/
def edit (t : Tree α) (links : ℕ) (root : Path) : Edit α → Option (Tree α)
  | (rel, none) => t.unlink links root rel
  | (rel, some content) => t.write root rel content

/-- What the edits make of the tree, where none is refused. -/
def edits (t : Tree α) (links : ℕ) (root : Path) : List (Edit α) → Option (Tree α)
  | [] => some t
  | e :: rest => (t.edit links root e).bind fun u => u.edits links root rest

variable {e : Edit α} {done rest : List (Edit α)}

theorem edits_cons : t.edits links root (e :: rest) = some x ↔
    ∃ u, t.edit links root e = some u ∧ u.edits links root rest = some x :=
  Option.bind_eq_some_iff

theorem edits_append : t.edits links root (done ++ rest) = some x ↔
    ∃ u, t.edits links root done = some u ∧ u.edits links root rest = some x := by
  induction done generalizing t with
  | nil => simp [edits]
  | cons e done ih =>
    rw [List.cons_append, edits_cons]
    constructor
    · rintro ⟨v, hstep, h⟩
      obtain ⟨u, hdone, hrest⟩ := ih.mp h
      exact ⟨u, edits_cons.mpr ⟨v, hstep, hdone⟩, hrest⟩
    · rintro ⟨u, hdone, hrest⟩
      obtain ⟨v, hstep, hdone⟩ := edits_cons.mp hdone
      exact ⟨v, hstep, ih.mpr ⟨u, hdone, hrest⟩⟩

theorem edits_concat : t.edits links root (done ++ [e]) = some x ↔
    ∃ u, t.edits links root done = some u ∧ u.edit links root e = some x := by
  simp [edits_append, edits]

/-- A tree at an edit: before it, or with the directories made for it. -/
def AtEdit (u x : Tree α) (root : Path) (rest : List (Edit α)) : Prop :=
  x = u ∨ ∃ e ∈ rest, Ensured u x root e.1.dropLast

theorem AtEdit.grown (h : AtEdit u x root rest) : Grown u x := by
  rcases h with rfl | ⟨e, -, hensured⟩
  · exact .refl x
  · exact hensured.grown

/-- The trees on the way of the edits, behind some of them and at the next. -/
def Passes (t : Tree α) (links : ℕ) (root : Path) (edits : List (Edit α)) (x : Tree α) : Prop :=
  ∃ done rest u, edits = done ++ rest ∧ t.edits links root done = some u ∧ AtEdit u x root rest

theorem Passes.here (t : Tree α) (links : ℕ) (root : Path) (edits : List (Edit α)) :
    t.Passes links root edits t := ⟨[], edits, t, rfl, rfl, .inl rfl⟩

theorem Passes.later (he : t.edit links root e = some u) (h : u.Passes links root rest x) :
    t.Passes links root (e :: rest) x := by
  obtain ⟨done, post, v, rfl, hdone, hat⟩ := h
  exact ⟨e :: done, post, v, rfl, edits_cons.mpr ⟨u, he, hdone⟩, hat⟩

/-- The edits remove what stands at a place. -/
def Removes (t : Tree α) (links : ℕ) (root : Path) (done : List (Edit α)) (q : Path) : Prop :=
  ∃ rel, (rel, none) ∈ done ∧ t.place links root rel = some q

/-- The edits write a content at a place. -/
def Puts (root : Path) (done : List (Edit α)) (q : Path) (content : α) : Prop :=
  ∃ rel, (rel, some content) ∈ done ∧ root ++ rel = q

/-- A file stands at each path the edits remove. -/
def Held (t : Tree α) (links : ℕ) (root : Path) (edits : List (Edit α)) : Prop :=
  ∀ rel, (rel, none) ∈ edits → t.file? links root rel ≠ none

/-- What edits have made of a tree. -/
structure Ran (t : Tree α) (links : ℕ) (root : Path) (done : List (Edit α)) (u : Tree α) : Prop where
  edited : Edited t u
  owned : ∀ rel content, (rel, some content) ∈ done → Owned u root rel
  kept : ∀ q, ¬ t.Removes links root done q → (∀ content, ¬ Puts root done q content) →
    u.node q = t.node q ∨ t.node q = none ∧ u.node q = some .dir ∧
      ∃ rel content pre, (rel, some content) ∈ done ∧ pre <+: rel.dropLast ∧ pre ≠ [] ∧ q = root ++ pre
  removed : ∀ q, t.Removes links root done q → u.node q = none ∨ u.node q = some .dir ∨
    ∃ content, Puts root done q content ∧ u.node q = some (.file content)
  written : ∀ q content, Puts root done q content → ¬ t.Removes links root done q →
    ∃ last, Puts root done q last ∧ u.node q = some (.file last)

theorem removes_concat : t.Removes links root (done ++ [e]) q ↔
    t.Removes links root done q ∨ e.2 = none ∧ t.place links root e.1 = some q := by
  obtain ⟨rel, body⟩ := e
  constructor
  · rintro ⟨rel', hmem, hplace⟩
    rcases List.mem_append.mp hmem with hdone | hlast
    · exact .inl ⟨rel', hdone, hplace⟩
    · obtain ⟨rfl, rfl⟩ := Prod.mk.inj (List.mem_singleton.mp hlast)
      exact .inr ⟨rfl, hplace⟩
  · rintro (⟨rel', hdone, hplace⟩ | ⟨rfl, hplace⟩)
    · exact ⟨rel', List.mem_append_left _ hdone, hplace⟩
    · exact ⟨rel, by simp, hplace⟩

theorem puts_concat : Puts root (done ++ [e]) q content ↔
    Puts root done q content ∨ e.2 = some content ∧ root ++ e.1 = q := by
  obtain ⟨rel, body⟩ := e
  constructor
  · rintro ⟨rel', hmem, hplace⟩
    rcases List.mem_append.mp hmem with hdone | hlast
    · exact .inl ⟨rel', hdone, hplace⟩
    · obtain ⟨rfl, rfl⟩ := Prod.mk.inj (List.mem_singleton.mp hlast)
      exact .inr ⟨rfl, hplace⟩
  · rintro (⟨rel', hdone, hplace⟩ | ⟨rfl, hplace⟩)
    · exact ⟨rel', List.mem_append_left _ hdone, hplace⟩
    · exact ⟨rel, by simp, hplace⟩

theorem Ran.nil (t : Tree α) : t.Ran links root [] t where
  edited := .refl t
  owned := fun _ _ h => absurd h List.not_mem_nil
  kept := fun _ _ _ => .inl rfl
  removed := fun _ ⟨_, h, _⟩ => absurd h List.not_mem_nil
  written := fun _ _ ⟨_, h, _⟩ => absurd h List.not_mem_nil

/-- A write behind a run. -/
theorem Ran.write (h : t.Ran links root done u) (hw : u.write root rel content = some x) :
    t.Ran links root (done ++ [(rel, some content)]) x := by
  have hwritten := write_spec hw
  refine ⟨h.edited.trans hwritten.edited, fun rel' content' hmem => ?_, fun q hremoves hputs => ?_,
    fun q hremoves => ?_, fun q content' hputs hremoves => ?_⟩
  · rcases List.mem_append.mp hmem with hdone | hlast
    · exact (h.owned _ _ hdone).keeps hwritten.keeps
    · obtain ⟨rfl, -⟩ := Prod.mk.inj (List.mem_singleton.mp hlast)
      exact hwritten.owned
  · have hq : q ≠ root ++ rel := fun hq => hputs content (puts_concat.mpr (.inr ⟨rfl, hq.symm⟩))
    have hkept := h.kept q (fun hr => hremoves (removes_concat.mpr (.inl hr)))
      fun c hc => hputs c (puts_concat.mpr (.inl hc))
    rcases hkept, hwritten.other q hq with ⟨hsame | ⟨hnone, hdir, rel', c, pre, hmem, hpre⟩,
      hsame' | ⟨hnone', hdir', pre', hpre', hne', rfl⟩⟩
    · exact .inl (hsame'.trans hsame)
    · exact .inr ⟨hsame ▸ hnone', hdir', rel, content, pre', by simp, hpre', hne', rfl⟩
    · exact .inr ⟨hnone, hsame'.trans hdir, rel', c, pre, List.mem_append_left _ hmem, hpre⟩
    · rw [hdir] at hnone'
      cases hnone'
  · by_cases hq : q = root ++ rel
    · exact .inr (.inr ⟨content, puts_concat.mpr (.inr ⟨rfl, hq.symm⟩), hq ▸ hwritten.self⟩)
    · have hdone : t.Removes links root done q := (removes_concat.mp hremoves).resolve_right (by simp)
      rcases h.removed q hdone, hwritten.other q hq with ⟨hnone | hdir | ⟨c, hc, hfile⟩,
        hsame | ⟨hnone', hdir', -⟩⟩
      · exact .inl (hsame.trans hnone)
      · exact .inr (.inl hdir')
      · exact .inr (.inl (hsame.trans hdir))
      · exact .inr (.inl hdir')
      · exact .inr (.inr ⟨c, puts_concat.mpr (.inl hc), hsame.trans hfile⟩)
      · rw [hfile] at hnone'
        cases hnone'
  · by_cases hq : q = root ++ rel
    · exact ⟨content, puts_concat.mpr (.inr ⟨rfl, hq.symm⟩), hq ▸ hwritten.self⟩
    · have hdone := (puts_concat.mp hputs).resolve_right fun hlast => hq hlast.2.symm
      obtain ⟨last, hlast, hfile⟩ := h.written q content' hdone
        fun hr => hremoves (removes_concat.mpr (.inl hr))
      refine ⟨last, puts_concat.mpr (.inl hlast), ?_⟩
      rcases hwritten.other q hq with hsame | ⟨hnone', -⟩
      · exact hsame.trans hfile
      · rw [hfile] at hnone'
        cases hnone'

/-- What stands where a held file stood is still no link and nothing special. -/
theorem Edited.of_file {p : Path} {n : Node α} (h : Edited t u) (hfile : t.node p = some (.file content))
    (hn : u.node p = some n) (hdir : n ≠ .dir) : ∃ c, n = .file c := by
  cases n with
  | file c => exact ⟨c, rfl⟩
  | dir => exact absurd rfl hdir
  | link target =>
    rw [(h.keeps.link p target).mp hn] at hfile
    cases hfile
  | special =>
    rw [(h.special p).mp hn] at hfile
    cases hfile

/-- A removal behind a run. -/
theorem Ran.unlink (h : t.Ran links root done u) (hheld : t.file? links root rel ≠ none)
    (hu : u.unlink links root rel = some x) : t.Ran links root (done ++ [(rel, none)]) x := by
  obtain ⟨c₀, hheld⟩ := Option.ne_none_iff_exists'.mp hheld
  obtain ⟨p, hplace, hfile⟩ := file?_eq_some.mp hheld
  have hplace' := place_keeps h.edited.keeps hplace
  obtain ⟨p', n, hp', hn, hdir, hnode⟩ := unlink_spec hu
  obtain rfl := Option.some.inj (hplace'.symm.trans hp')
  obtain ⟨c, rfl⟩ := h.edited.of_file hfile hn hdir
  have hother : ∀ q, q ≠ p → x.node q = u.node q := fun q hq => by rw [hnode, Function.update_of_ne hq]
  refine ⟨h.edited.trans (unlink_edited hu hplace' hn), fun rel' content' hmem => ?_,
    fun q hremoves hputs => ?_, fun q hremoves => ?_, fun q content' hputs hremoves => ?_⟩
  · rcases List.mem_append.mp hmem with hdone | hlast
    · exact (h.owned _ _ hdone).keeps (unlink_edited hu hplace' hn).keeps
    · cases List.mem_singleton.mp hlast
  · have hq : q ≠ p := fun hq => hremoves (removes_concat.mpr (.inr ⟨rfl, hq ▸ hplace⟩))
    rw [hother q hq]
    refine (h.kept q (fun hr => hremoves (removes_concat.mpr (.inl hr)))
      fun c hc => hputs c (puts_concat.mpr (.inl hc))).imp id ?_
    rintro ⟨hnone, hdir, rel', c', pre, hmem, hpre⟩
    exact ⟨hnone, hdir, rel', c', pre, List.mem_append_left _ hmem, hpre⟩
  · by_cases hq : q = p
    · subst hq
      exact .inl (by rw [hnode, Function.update_self])
    · rw [hother q hq]
      have hdone : t.Removes links root done q := by
        refine (removes_concat.mp hremoves).resolve_right fun hlast => hq ?_
        exact Option.some.inj (hlast.2.symm.trans hplace)
      refine (h.removed q hdone).imp id (.imp id ?_)
      rintro ⟨c', hc', hfile'⟩
      exact ⟨c', puts_concat.mpr (.inl hc'), hfile'⟩
  · have hq : q ≠ p := fun hq => hremoves (removes_concat.mpr (.inr ⟨rfl, hq ▸ hplace⟩))
    rw [hother q hq]
    obtain ⟨last, hlast, hfile'⟩ := h.written q content' ((puts_concat.mp hputs).resolve_right (by simp))
      fun hr => hremoves (removes_concat.mpr (.inl hr))
    exact ⟨last, puts_concat.mpr (.inl hlast), hfile'⟩

/-- What edits have made of a tree that holds a file at each path they remove. -/
theorem ran_of_edits (hheld : t.Held links root done) (h : t.edits links root done = some u) :
    t.Ran links root done u := by
  induction done using List.reverseRecOn generalizing u with
  | nil =>
    obtain rfl := Option.some.inj h
    exact .nil t
  | append_singleton done e ih =>
    obtain ⟨v, hdone, he⟩ := edits_concat.mp h
    have hran := ih (fun rel hmem => hheld rel (List.mem_append_left _ hmem)) hdone
    obtain ⟨rel, _ | content⟩ := e
    · exact hran.unlink (hheld rel (by simp)) he
    · exact hran.write he

/-- Each edit writes what does not stand there yet. -/
def Fresh (t : Tree α) (root : Path) (edits : List (Edit α)) : Prop :=
  ∀ rel content, (rel, some content) ∈ edits → t.node (root ++ rel) ≠ some (.file content)

/-- Edits that write something new change the files as soon as one of them is performed. -/
theorem Ran.changed (h : t.Ran links root done u) (hheld : t.Held links root done)
    (hfresh : t.Fresh root done) (hne : done ≠ []) : ¬ SameFiles t u := by
  intro hsame
  have hput : ∀ q c, Puts root done q c → u.node q ≠ some (.file c) := by
    rintro q c ⟨rel, hmem, rfl⟩ hfile
    exact hfresh rel c hmem ((hsame _ c).mp hfile)
  -- a place that was removed holds the file no longer, for what was written there since is another
  have hremoved : ∀ q c, t.node q = some (.file c) → ¬ t.Removes links root done q := by
    intro q c hfile hremoves
    have hfile' := (hsame q c).mpr hfile
    rcases h.removed q hremoves with hnone | hdir | ⟨c', hputs, hlast⟩
    · rw [hnone] at hfile'
      cases hfile'
    · rw [hdir] at hfile'
      cases hfile'
    · exact hput q c' hputs hlast
  obtain ⟨⟨rel, body⟩, hmem⟩ := List.exists_mem_of_ne_nil done hne
  cases body with
  | none =>
    obtain ⟨c, hc⟩ := Option.ne_none_iff_exists'.mp (hheld rel hmem)
    obtain ⟨q, hplace, hfile⟩ := file?_eq_some.mp hc
    exact hremoved q c hfile ⟨rel, hmem, hplace⟩
  | some content =>
    have hputs : Puts root done (root ++ rel) content := ⟨rel, hmem, rfl⟩
    by_cases hremoves : t.Removes links root done (root ++ rel)
    · obtain ⟨rel', hmem', hplace⟩ := hremoves
      obtain ⟨c, hc⟩ := Option.ne_none_iff_exists'.mp (hheld rel' hmem')
      exact hremoved _ c ((file?_of_place hplace).mp hc) ⟨rel', hmem', hplace⟩
    · obtain ⟨last, hlast, hfile⟩ := h.written _ content hputs hremoves
      exact hput _ last hlast hfile

/-! ### Edits that do not clash -/

/-- An edit finds room behind others. A removal names another place than they do. What is written goes
where no file is removed, where a file or nothing stands and nothing of theirs is made, and has only
directories on its way, or what they remove. -/
def Room (t : Tree α) (links : ℕ) (root : Path) (done : List (Edit α)) : Edit α → Prop
  | (rel, none) => ∀ e ∈ done, t.place links root e.1 ≠ t.place links root rel
  | (rel, some _) =>
      ¬ t.Removes links root done (root ++ rel) ∧
      (t.node (root ++ rel) = none ∨ ∃ old, t.node (root ++ rel) = some (.file old)) ∧
      (∀ e ∈ done, e.2 ≠ none → ¬ rel <+: e.1.dropLast) ∧
      ∀ pre, pre <+: rel.dropLast → pre ≠ [] →
        (t.node (root ++ pre) = some .dir ∨ t.node (root ++ pre) = none ∨
          t.Removes links root done (root ++ pre)) ∧
        ∀ e ∈ done, e.2 ≠ none → e.1 ≠ pre

/-- Every edit finds room behind the ones before it. -/
def Clear (t : Tree α) (links : ℕ) (root : Path) (edits : List (Edit α)) : Prop :=
  ∀ done e rest, edits = done ++ e :: rest → t.Room links root done e

theorem Clear.concat (h : t.Clear links root (done ++ [e])) :
    t.Clear links root done ∧ t.Room links root done e := by
  refine ⟨fun pre e' post heq => h pre e' (post ++ [e]) ?_, h done e [] rfl⟩
  rw [heq, List.append_assoc, List.cons_append]

/-- The paths of the edits are proper, and no two are the same. -/
structure Proper (edits : List (Edit α)) : Prop where
  nodup : (edits.map Prod.fst).Nodup
  up : ∀ e ∈ edits, ".." ∉ e.1
  ne : ∀ e ∈ edits, e.1 ≠ []

theorem Proper.concat (h : Proper (done ++ [e])) :
    Proper done ∧ (∀ e' ∈ done, e'.1 ≠ e.1) ∧ ".." ∉ e.1 ∧ e.1 ≠ [] := by
  have hnodup := h.nodup
  rw [List.map_append, List.map_singleton, List.nodup_append] at hnodup
  refine ⟨⟨hnodup.1, fun e' he' => h.up e' (List.mem_append_left _ he'),
    fun e' he' => h.ne e' (List.mem_append_left _ he')⟩, fun e' he' => ?_, h.up e (by simp), h.ne e (by simp)⟩
  exact hnodup.2.2 e'.1 (List.mem_map_of_mem he') e.1 (by simp)

/-- A written path is read as it is spelled. -/
theorem Ran.file?_written (h : t.Ran links root done u) (hmem : (rel, some content) ∈ done)
    (hup : ".." ∉ rel) (c : α) :
    u.file? links root rel = some c ↔ u.node (root ++ rel) = some (.file c) :=
  file?_of_place (place_owned (h.owned rel content hmem) hup)

/-- Whatever stood at a spelled path is found there. -/
theorem place_of_node (h : t.node (root ++ rel) ≠ none) (hup : ".." ∉ rel) :
    t.place links root rel = some (root ++ rel) := place_owned (owned_of_node h) hup

theorem prefix_dropLast_ne {pre rel : Path} (h : pre <+: rel.dropLast) (hne : rel ≠ []) : pre ≠ rel := by
  rintro rfl
  have hle := h.length_le
  rw [List.length_dropLast] at hle
  have hpos := List.length_pos_iff.mpr hne
  omega

/-- Directories are made along a way of directories and gaps. -/
theorem ensure_isSome {p : Path} {cs : List String} (hp : t.IsDir p)
    (h : ∀ pre, pre <+: cs → pre ≠ [] → t.node (p ++ pre) = some .dir ∨ t.node (p ++ pre) = none) :
    ∃ u, t.ensure p cs = some u := by
  induction cs generalizing t p with
  | nil => exact ⟨t, rfl⟩
  | cons c cs ih =>
    have hbelow : ∀ pre, pre <+: cs → pre ≠ [] →
        t.node (p ++ [c] ++ pre) = some .dir ∨ t.node (p ++ [c] ++ pre) = none := fun pre hpre hne => by
      rw [List.append_assoc]
      exact h (c :: pre) (List.cons_prefix_cons.mpr ⟨rfl, hpre⟩) (by simp)
    rcases h [c] (by simp) (by simp) with hdir | hnone
    · obtain ⟨u, hu⟩ := ih (.inr hdir) hbelow
      exact ⟨u, by rw [ensure, hdir]; exact hu⟩
    · obtain ⟨v, hv⟩ : ∃ v, t.mkdir (p ++ [c]) = some v := by
        unfold mkdir
        split
        · rw [dif_pos (by rwa [List.dropLast_concat])]
          exact ⟨_, rfl⟩
        · next hother => exact absurd hnone hother
      obtain ⟨-, -, hnode⟩ := mkdir_spec hv
      have hsame : ∀ pre, pre ≠ [] → v.node (p ++ [c] ++ pre) = t.node (p ++ [c] ++ pre) := by
        intro pre hne
        rw [hnode, Function.update_of_ne]
        simpa using hne
      obtain ⟨u, hu⟩ := ih (t := v) (.inr (by rw [hnode, Function.update_self])) fun pre hpre hne => by
        rw [hsame pre hne]
        exact hbelow pre hpre hne
      exact ⟨u, by rw [ensure, hnone]; exact Option.bind_eq_some_iff.mpr ⟨v, hv, hu⟩⟩

/-- Where all directories stand, none is made. -/
theorem ensure_of_dirs {p : Path} {cs : List String}
    (h : ∀ pre, pre <+: cs → pre ≠ [] → t.node (p ++ pre) = some .dir) : t.ensure p cs = some t := by
  induction cs generalizing p with
  | nil => rfl
  | cons c cs ih =>
    rw [ensure, h [c] (by simp) (by simp)]
    refine ih fun pre hpre hne => ?_
    rw [List.append_assoc]
    exact h (c :: pre) (List.cons_prefix_cons.mpr ⟨rfl, hpre⟩) (by simp)

/-- A write behind directories changes one place. -/
theorem write_owned (h : Owned t root rel) (hw : t.write root rel content = some u) :
    u.node = Function.update t.node (root ++ rel) (some (.file content)) := by
  rw [write, ensure_of_dirs h, Option.bind_some] at hw
  exact (setFile_spec hw).2.2

/-- A file is written over a file or nothing, behind directories and gaps. -/
theorem write_isSome (hroot : t.IsDir root) (hne : rel ≠ [])
    (hfree : t.node (root ++ rel) = none ∨ ∃ old, t.node (root ++ rel) = some (.file old))
    (hway : ∀ pre, pre <+: rel.dropLast → pre ≠ [] →
      t.node (root ++ pre) = some .dir ∨ t.node (root ++ pre) = none) (content : α) :
    ∃ u, t.write root rel content = some u := by
  obtain ⟨v, hv⟩ := ensure_isSome hroot hway
  have hensured := ensure_spec hv
  have hdir : v.IsDir (root ++ rel).dropLast := by
    rw [List.dropLast_append_of_ne_nil hne]
    by_cases hnil : rel.dropLast = []
    · rw [hnil, List.append_nil]
      exact hensured.keeps.isDir hroot
    · exact .inr (hensured.dirs _ (List.prefix_refl _) hnil)
  have hfree' : v.node (root ++ rel) = none ∨ ∃ old, v.node (root ++ rel) = some (.file old) := by
    by_cases hnone : t.node (root ++ rel) = none
    · by_cases hmade : v.node (root ++ rel) = none
      · exact .inl hmade
      · obtain ⟨-, pre, hpre, -, heq⟩ := hensured.made _ hnone hmade
        exact absurd (List.append_cancel_left heq).symm (prefix_dropLast_ne hpre hne)
    · rwa [hensured.same _ hnone]
  have hset : ∃ u, v.setFile (root ++ rel) content = some u := by
    unfold setFile
    split
    · exact ⟨_, dif_pos hdir⟩
    · exact ⟨_, dif_pos hdir⟩
    · next hnone hfile =>
      rcases hfree' with h | ⟨old, h⟩
      · exact absurd h hnone
      · exact absurd h (hfile old)
  obtain ⟨u, hu⟩ := hset
  exact ⟨u, Option.bind_eq_some_iff.mpr ⟨v, hv, hu⟩⟩

theorem remove_isSome {p : Path} (h : t.node p = some (.file content)) : ∃ u, t.remove p = some u := by
  unfold remove
  split
  · next hnone => rw [hnone] at h; cases h
  · next hdir => rw [hdir] at h; cases h
  all_goals exact ⟨_, rfl⟩

/-- The edits last: what each asked for is there at the end. -/
def Lasts (u : Tree α) (links : ℕ) (root : Path) (edits : List (Edit α)) : Prop :=
  ∀ e ∈ edits, u.file? links root e.1 = e.2

/-- Edits that remove only where they are spelled last. -/
theorem Ran.lasts (h : t.Ran links root done u) (hproper : Proper done)
    (hspelled : ∀ rel, (rel, none) ∈ done → t.place links root rel = some (root ++ rel)) :
    u.Lasts links root done := by
  have hunique : ∀ rel body body', (rel, body) ∈ done → (rel, body') ∈ done → body = body' := by
    intro rel body body' he he'
    exact congrArg Prod.snd (List.inj_on_of_nodup_map hproper.nodup he he' rfl)
  rintro ⟨rel, _ | content⟩ he
  · have hplace := hspelled rel he
    refine (file?_eq_none (place_keeps h.edited.keeps hplace)).mpr fun c hc => ?_
    rcases h.removed _ ⟨rel, he, hplace⟩ with hnone | hdir | ⟨c', ⟨rel', he', heq⟩, -⟩
    · rw [hnone] at hc
      cases hc
    · rw [hdir] at hc
      cases hc
    · rw [List.append_cancel_left heq] at he'
      cases hunique rel none (some c') he he'
  · have hremoves : ¬ t.Removes links root done (root ++ rel) := by
      rintro ⟨rel', he', hplace⟩
      have heq := Option.some.inj ((hspelled rel' he').symm.trans hplace)
      rw [List.append_cancel_left heq] at he'
      cases hunique rel none (some content) he' he
    obtain ⟨last, ⟨rel', he', heq⟩, hfile⟩ := h.written _ content ⟨rel, he, rfl⟩ hremoves
    rw [List.append_cancel_left heq] at he'
    obtain rfl := Option.some.inj (hunique rel (some content) (some last) he he')
    exact (h.file?_written he (hproper.up _ he) content).mpr hfile

/-- A file that the edits did not put somewhere stood there before. -/
theorem Ran.file_old (h : t.Ran links root done u) (hputs : ∀ c, ¬ Puts root done q c)
    (hfile : u.node q = some (.file content)) : t.node q = some (.file content) := by
  by_cases hremoves : t.Removes links root done q
  · rcases h.removed q hremoves with hnone | hdir | ⟨c, hc, -⟩
    · rw [hnone] at hfile
      cases hfile
    · rw [hdir] at hfile
      cases hfile
    · exact absurd hc (hputs c)
  · rcases h.kept q hremoves hputs with hsame | ⟨-, hdir, -⟩
    · rwa [← hsame]
    · rw [hdir] at hfile
      cases hfile

/-- Where an edit that has been performed put its file, or where it removed one. -/
theorem Ran.placed (h : t.Ran links root done u) (hheld : t.Held links root done)
    (hproper : Proper done) {e : Edit α} (he : e ∈ done) :
    ∃ q, u.place links root e.1 = some q ∧
      (e.2 = none ∧ t.place links root e.1 = some q ∨ e.2 ≠ none ∧ q = root ++ e.1) := by
  obtain ⟨rel, _ | content⟩ := e
  · obtain ⟨c, hc⟩ := Option.ne_none_iff_exists'.mp (hheld rel he)
    obtain ⟨q, hplace, -⟩ := file?_eq_some.mp hc
    exact ⟨q, place_keeps h.edited.keeps hplace, .inl ⟨rfl, hplace⟩⟩
  · exact ⟨_, place_owned (h.owned rel content he) (hproper.up _ he), .inr ⟨by simp, rfl⟩⟩

/-- A removal that finds room is performed, and what the others did lasts. -/
theorem Ran.unlink_room (h : t.Ran links root done u) (hheld : t.Held links root done)
    (hproper : Proper done) (hlasts : u.Lasts links root done) (hfile : t.file? links root rel ≠ none)
    (hroom : t.Room links root done (rel, none)) :
    ∃ x, u.unlink links root rel = some x ∧ x.Lasts links root (done ++ [(rel, none)]) := by
  obtain ⟨c, hc⟩ := Option.ne_none_iff_exists'.mp hfile
  obtain ⟨p, hplace, hnode⟩ := file?_eq_some.mp hc
  have hapart : ∀ e ∈ done, ∀ q, u.place links root e.1 = some q →
      (e.2 = none ∧ t.place links root e.1 = some q ∨ e.2 ≠ none ∧ q = root ++ e.1) → q ≠ p := by
    rintro e he q hq (⟨-, hplace'⟩ | ⟨-, rfl⟩) rfl
    · exact hroom e he (hplace'.trans hplace.symm)
    · refine hroom e he ((place_of_node ?_ (hproper.up e he)).trans hplace.symm)
      rw [hnode]
      simp
  have hstill : u.node p = some (.file c) := by
    have hremoves : ¬ t.Removes links root done p := by
      rintro ⟨rel', hmem, hplace'⟩
      exact hroom (rel', none) hmem (hplace'.trans hplace.symm)
    have hputs : ∀ c', ¬ Puts root done p c' := by
      rintro c' ⟨rel', hmem, heq⟩
      obtain ⟨q, hq, hwhere⟩ := h.placed hheld hproper hmem
      refine hapart _ hmem q hq hwhere ?_
      rcases hwhere with ⟨hnone, -⟩ | ⟨-, rfl⟩
      · cases hnone
      · exact heq
    rcases h.kept p hremoves hputs with hsame | ⟨hnone, -⟩
    · exact hsame.trans hnode
    · rw [hnode] at hnone
      cases hnone
  obtain ⟨x, hx⟩ := remove_isSome hstill
  have hplace' := place_keeps h.edited.keeps hplace
  have hunlink : u.unlink links root rel = some x := Option.bind_eq_some_iff.mpr ⟨p, hplace', hx⟩
  obtain ⟨-, hnodes⟩ := remove_spec hx
  have hkeeps := (unlink_edited hunlink hplace' hstill).keeps
  refine ⟨x, hunlink, fun e he => ?_⟩
  rcases List.mem_append.mp he with hdone | hlast
  · obtain ⟨q, hq, hwhere⟩ := h.placed hheld hproper hdone
    have hne := hapart e hdone q hq hwhere
    rw [← hlasts e hdone]
    refine Option.ext fun c' => ?_
    rw [file?_of_place hq, file?_of_place (place_keeps hkeeps hq), hnodes, Function.update_of_ne hne]
  · rw [List.mem_singleton.mp hlast]
    refine (file?_eq_none (place_keeps hkeeps hplace')).mpr fun c' => ?_
    rw [hnodes, Function.update_self]
    simp

/-- A write that finds room is performed, and what the others did lasts. -/
theorem Ran.write_room (h : t.Ran links root done u) (hheld : t.Held links root done)
    (hproper : Proper (done ++ [(rel, some content)])) (hlasts : u.Lasts links root done)
    (hroot : t.IsDir root) (hroom : t.Room links root done (rel, some content)) :
    ∃ x, u.write root rel content = some x ∧ x.Lasts links root (done ++ [(rel, some content)]) := by
  obtain ⟨hproper, hnew, hup, hne⟩ := hproper.concat
  obtain ⟨hremoves, hfree, habove, hway⟩ := hroom
  have hputs : ∀ c, ¬ Puts root done (root ++ rel) c := by
    rintro c ⟨rel', hmem, heq⟩
    exact hnew _ hmem (List.append_cancel_left heq)
  have hfree' : u.node (root ++ rel) = none ∨ ∃ old, u.node (root ++ rel) = some (.file old) := by
    rcases h.kept _ hremoves hputs with hsame | ⟨-, -, rel', c, pre, hmem, hpre, -, heq⟩
    · rwa [hsame]
    · exact absurd (List.append_cancel_left heq ▸ hpre) (habove _ hmem (by simp))
  have hway' : ∀ pre, pre <+: rel.dropLast → pre ≠ [] →
      u.node (root ++ pre) = some .dir ∨ u.node (root ++ pre) = none := by
    intro pre hpre hnil
    obtain ⟨hway, hother⟩ := hway pre hpre hnil
    have hputs' : ∀ c, ¬ Puts root done (root ++ pre) c := by
      rintro c ⟨rel', hmem, heq⟩
      exact hother _ hmem (by simp) (List.append_cancel_left heq)
    by_cases hr : t.Removes links root done (root ++ pre)
    · rcases h.removed _ hr with hnone | hdir | ⟨c, hc, -⟩
      · exact .inr hnone
      · exact .inl hdir
      · exact absurd hc (hputs' c)
    · rcases h.kept _ hr hputs' with hsame | ⟨-, hdir, -⟩
      · rw [hsame]
        exact hway.imp id fun hway => hway.resolve_right hr
      · exact .inl hdir
  obtain ⟨x, hx⟩ := write_isSome (h.edited.keeps.isDir hroot) hne hfree' hway' content
  have hwritten := write_spec hx
  refine ⟨x, hx, fun e he => ?_⟩
  rcases List.mem_append.mp he with hdone | hlast
  · obtain ⟨q, hq, hwhere⟩ := h.placed hheld hproper hdone
    have hq' : q ≠ root ++ rel := by
      rintro rfl
      rcases hwhere with ⟨hnone, hplace⟩ | ⟨-, heq⟩
      · exact hremoves ⟨e.1, hnone ▸ hdone, hplace⟩
      · exact hnew e hdone (List.append_cancel_left heq).symm
    rw [← hlasts e hdone]
    refine Option.ext fun c => ?_
    rw [file?_of_place hq, file?_of_place (place_keeps hwritten.keeps hq)]
    rcases hwritten.other q hq' with hsame | ⟨hnone, hdir, -⟩
    · rw [hsame]
    · rw [hnone, hdir]
      simp
  · rw [List.mem_singleton.mp hlast]
    exact (file?_of_place (place_owned hwritten.owned hup)).mpr hwritten.self

/-- Edits that do not clash are all performed, and they last. -/
theorem edits_of_clear (hroot : t.IsDir root) (hproper : Proper done) (hheld : t.Held links root done)
    (hclear : t.Clear links root done) :
    ∃ u, t.edits links root done = some u ∧ u.Lasts links root done := by
  induction done using List.reverseRecOn with
  | nil => exact ⟨t, rfl, fun e he => absurd he List.not_mem_nil⟩
  | append_singleton done e ih =>
    obtain ⟨hbefore, hroom⟩ := hclear.concat
    have hheld' : t.Held links root done := fun rel hmem => hheld rel (List.mem_append_left _ hmem)
    obtain ⟨u, hdone, hlasts⟩ := ih hproper.concat.1 hheld' hbefore
    have hran := ran_of_edits hheld' hdone
    obtain ⟨rel, _ | content⟩ := e
    · obtain ⟨x, hx, hlast⟩ := hran.unlink_room hheld' hproper.concat.1 hlasts (hheld rel (by simp)) hroom
      exact ⟨x, edits_concat.mpr ⟨u, hdone, hx⟩, hlast⟩
    · obtain ⟨x, hx, hlast⟩ := hran.write_room hheld' hproper hlasts hroot hroom
      exact ⟨x, edits_concat.mpr ⟨u, hdone, hx⟩, hlast⟩

/-- Edits that are all performed and last leave room for each other. -/
theorem clear_of_edits (hproper : Proper done) (hheld : t.Held links root done)
    (h : t.edits links root done = some x) (hlasts : x.Lasts links root done) :
    t.Clear links root done := by
  rintro pre ⟨rel, body⟩ post rfl
  obtain ⟨u, hpre, hpost⟩ := edits_append.mp h
  obtain ⟨v, hedit, hpost⟩ := edits_cons.mp hpost
  have hran := ran_of_edits (fun rel' hmem => hheld rel' (List.mem_append_left _ hmem)) hpre
  have hend := ran_of_edits hheld h
  have hkeep : ∀ e ∈ pre, e ∈ pre ++ (rel, body) :: post := fun e he => List.mem_append_left _ he
  have hread : ∀ e ∈ pre, ∀ c, e.2 = some c → x.node (root ++ e.1) = some (.file c) := by
    rintro ⟨rel', _⟩ he c rfl
    exact (hend.file?_written (hkeep _ he) (hproper.up _ (hkeep _ he)) c).mp (hlasts _ (hkeep _ he))
  have hnodup := hproper.nodup
  rw [List.map_append, List.nodup_append] at hnodup
  have hnew : ∀ e ∈ pre, e.1 ≠ rel := fun e he =>
    hnodup.2.2 e.1 (List.mem_map_of_mem he) rel (by simp)
  cases body with
  | none =>
    obtain ⟨c₀, hc₀⟩ := Option.ne_none_iff_exists'.mp (hheld rel (by simp))
    obtain ⟨p, hplace, hfile⟩ := file?_eq_some.mp hc₀
    have hgone : ∀ c, x.node p ≠ some (.file c) := fun c hc => by
      have hnone := hlasts (rel, none) (by simp)
      rw [(file?_of_place (place_keeps hend.edited.keeps hplace)).mpr hc] at hnone
      cases hnone
    rintro ⟨rel', body'⟩ he hsame
    have hplace' : t.place links root rel' = some p := hsame.trans hplace
    cases body' with
    | some c =>
      have hlast := hlasts (rel', some c) (hkeep _ he)
      exact hgone c ((file?_of_place (place_keeps hend.edited.keeps hplace')).mp hlast)
    | none =>
      -- what was removed there before is not there again, so the second removal was refused
      obtain ⟨p', n, hp', hn, hdir, -⟩ := unlink_spec hedit
      obtain rfl := Option.some.inj ((place_keeps hran.edited.keeps hplace).symm.trans hp')
      rcases hran.removed p ⟨rel', he, hplace'⟩ with hnone | hmade | ⟨c, ⟨rel'', hmem, rfl⟩, -⟩
      · rw [hnone] at hn
        cases hn
      · rw [hmade] at hn
        exact hdir (Option.some.inj hn).symm
      · exact hgone c (hread _ hmem c rfl)
  | some content =>
    have hwritten := write_spec hedit
    have hmem : (rel, some content) ∈ pre ++ (rel, some content) :: post := by simp
    have hself : x.node (root ++ rel) = some (.file content) :=
      (hend.file?_written hmem (hproper.up _ hmem) content).mp (hlasts _ hmem)
    have hremoves : ¬ t.Removes links root pre (root ++ rel) := by
      rintro ⟨rel', hmem, hplace⟩
      have hnone := hlasts (rel', none) (hkeep _ hmem)
      rw [(file?_of_place (place_keeps hend.edited.keeps hplace)).mpr hself] at hnone
      cases hnone
    have hputs : ∀ c, ¬ Puts root pre (root ++ rel) c := by
      rintro c ⟨rel', hmem', heq⟩
      exact hnew _ hmem' (List.append_cancel_left heq)
    refine ⟨hremoves, ?_, ?_, ?_⟩
    · rcases hran.kept _ hremoves hputs with hsame | ⟨hnone, -⟩
      · rw [← hsame]
        exact hwritten.free
      · exact .inl hnone
    · rintro ⟨rel', body'⟩ he hsome habove
      obtain ⟨c, rfl⟩ := Option.ne_none_iff_exists'.mp hsome
      have hdir := hran.owned rel' c he rel habove (hproper.ne _ hmem)
      rcases hwritten.free with hnone | ⟨old, hfile⟩
      · rw [hnone] at hdir
        cases hdir
      · rw [hfile] at hdir
        cases hdir
    · intro q hq hne
      have hmade : x.node (root ++ q) = some .dir := hend.owned rel content hmem q hq hne
      have hother : ∀ e ∈ pre, e.2 ≠ none → e.1 ≠ q := by
        rintro e he hsome rfl
        obtain ⟨c, hc⟩ := Option.ne_none_iff_exists'.mp hsome
        rw [hread e he c hc] at hmade
        cases hmade
      refine ⟨?_, hother⟩
      by_cases hr : t.Removes links root pre (root ++ q)
      · exact .inr (.inr hr)
      · have hputs' : ∀ c, ¬ Puts root pre (root ++ q) c := by
          rintro c ⟨rel', hmem, heq⟩
          exact hother _ hmem (by simp) (List.append_cancel_left heq)
        rcases hran.kept _ hr hputs' with hsame | ⟨hnone, -⟩
        · rw [← hsame]
          have hq' : root ++ q ≠ root ++ rel := fun heq =>
            prefix_dropLast_ne hq (hproper.ne _ hmem) (List.append_cancel_left heq)
          rcases hwritten.other _ hq' with hsame' | ⟨hnone, -⟩
          · exact .inl (hsame' ▸ hwritten.owned q hq hne)
          · exact .inr (.inl hnone)
        · exact .inr (.inl hnone)

/-- From the first tree alone: edits are all performed and last exactly when they do not clash. -/
theorem edits_iff_clear (hroot : t.IsDir root) (hproper : Proper done) (hheld : t.Held links root done) :
    (∃ u, t.edits links root done = some u ∧ u.Lasts links root done) ↔ t.Clear links root done :=
  ⟨fun ⟨_, h, hlasts⟩ => clear_of_edits hproper hheld h hlasts, edits_of_clear hroot hproper hheld⟩

end Tree

end LinkTree
