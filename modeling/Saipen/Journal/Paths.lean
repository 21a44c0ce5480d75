import Saipen.Journal.Project

/-! # Canonical spellings

A resolved path spelled with `posix` resolves to itself, unless its first component looks like a
drive; and a validated operation id validates to itself. -/

namespace Saipen

open FileTree

variable {env : Environment}

/-! ### Splitting a path string -/

theorem components_clean {s c : String} (h : c ∈ components s) (hc : c ≠ "..")
    (hs : Char.ofNat 0 ∉ s.toList) : CleanComponent c := by
  obtain ⟨hmem, hne⟩ := List.mem_filter.mp h
  obtain ⟨w, hw, rfl⟩ := List.mem_map.mp hmem
  obtain ⟨h1, h2⟩ := Text.mem_splitOn hw
  have hne' : String.ofList w ≠ "" ∧ String.ofList w ≠ "." := by simpa using hne
  exact ⟨hne'.1, hne'.2, hc, by rwa [String.toList_ofList],
    by rw [String.toList_ofList]; exact fun h0 => hs (h2 _ h0)⟩

/-- The components of a spelled path are the path. -/
theorem components_posix {p : Path} (h : CleanPath p) : components (posix p) = p := by
  cases p with
  | nil => decide
  | cons c p =>
    have hsplit : Text.split '/' ("/".intercalate (c :: p)) = c :: p :=
      Text.split_intercalate (fun w hw => (h w hw).no_slash) (by simp)
    rw [components, posix, if_neg (by simp), hsplit, List.filter_eq_self]
    intro w hw
    simp [(h w hw).ne_empty, (h w hw).ne_dot]

theorem posix_ne_empty {p : Path} (h : CleanPath p) : posix p ≠ "" := by
  intro he
  have := components_posix h
  rw [he] at this
  have hp : p = [] := by rw [← this]; decide
  subst hp
  exact absurd he (by decide)

/-- Spelling is injective on resolved paths. -/
theorem posix_injective {p q : Path} (hp : CleanPath p) (hq : CleanPath q)
    (h : posix p = posix q) : p = q := by
  rw [← components_posix hp, h, components_posix hq]

theorem posix_toList {p : Path} (hp : p ≠ []) :
    (posix p).toList = ['/'].intercalate (p.map String.toList) := by
  rw [posix, if_neg hp, String.toList_intercalate]
  rfl

theorem mem_intercalate {sep ch : Char} {ls : List (List Char)}
    (h : ch ∈ [sep].intercalate ls) : ch = sep ∨ ∃ l ∈ ls, ch ∈ l := by
  induction ls with
  | nil => simp at h
  | cons l ls ih =>
    cases ls with
    | nil => exact .inr ⟨l, by simp, by simpa using h⟩
    | cons m ls =>
      rw [List.intercalate_cons_cons, List.mem_append, List.mem_append, List.mem_singleton] at h
      rcases h with (h | h) | h
      · exact .inr ⟨l, by simp, h⟩
      · exact .inl h
      · refine (ih h).imp_right fun ⟨k, hk, hc⟩ => ⟨k, List.mem_cons_of_mem _ hk, hc⟩

/-- Every character of a spelled path is a separator or comes from a component. -/
theorem mem_posix {p : Path} {ch : Char} (h : ch ∈ (posix p).toList) :
    ch = '/' ∨ ch = '.' ∨ ∃ c ∈ p, ch ∈ c.toList := by
  rcases eq_or_ne p [] with rfl | hp
  · exact .inr (.inl (by simpa [posix] using h))
  · rw [posix_toList hp] at h
    rcases mem_intercalate h with h | ⟨l, hl, hch⟩
    · exact .inl h
    · obtain ⟨c, hc, rfl⟩ := List.mem_map.mp hl
      exact .inr (.inr ⟨c, hc, hch⟩)

theorem not_isAbsolute_posix {p : Path} (h : CleanPath p) : isAbsolute (posix p) = false := by
  cases p with
  | nil => decide
  | cons c p =>
    have hc := h c List.mem_cons_self
    have hne : c.toList ≠ [] := fun he => hc.ne_empty (by simpa using he)
    obtain ⟨d, ds, hd⟩ := List.exists_cons_of_ne_nil hne
    have hhead : ∃ rest, (posix (c :: p)).toList = d :: rest := by
      rw [posix_toList (by simp), List.map_cons, hd]
      cases p with
      | nil => exact ⟨ds, by simp [List.intercalate]⟩
      | cons e p => exact ⟨ds ++ '/' :: ['/'].intercalate ((e :: p).map String.toList), by
          simp [List.intercalate_cons_cons]⟩
    obtain ⟨rest, hr⟩ := hhead
    have hds : d ≠ '/' := by
      rintro rfl
      exact hc.no_slash (by rw [hd]; exact List.mem_cons_self)
    rw [isAbsolute, Text.startsWith, hr]
    simpa [List.isPrefixOf] using Ne.symm hds

/-! ### Resolution -/

theorem resolve_of_clean {cs : List String} (h : ".." ∉ cs) (acc : Path) :
    resolve cs acc = acc.reverse ++ cs := by
  induction cs generalizing acc with
  | nil => simp [resolve]
  | cons c cs ih =>
    simp only [List.mem_cons, not_or] at h
    rw [resolve, if_neg (Ne.symm h.1), ih h.2]
    simp

theorem mem_resolve {cs : List String} {acc : Path} {c : String} (h : c ∈ resolve cs acc) :
    c ∈ acc ∨ (c ∈ cs ∧ c ≠ "..") := by
  induction cs generalizing acc with
  | nil => exact .inl (by simpa [resolve] using h)
  | cons d cs ih =>
    rw [resolve] at h
    by_cases hd : d = ".."
    · rw [if_pos hd] at h
      rcases ih h with h | h
      · exact .inl (List.mem_of_mem_tail h)
      · exact .inr ⟨List.mem_cons_of_mem _ h.1, h.2⟩
    · rw [if_neg hd] at h
      rcases ih h with h | h
      · rcases List.mem_cons.mp h with rfl | h
        · exact .inr ⟨List.mem_cons_self, hd⟩
        · exact .inl h
      · exact .inr ⟨List.mem_cons_of_mem _ h.1, h.2⟩

/-- What an owned spelling must not be. -/
theorem ownedTargetPath_eq_some {s : String} {p : Path} (h : ownedTargetPath env s = some p) :
    (s ≠ "" ∧ isAbsolute s = false ∧ driveRooted s.toList = false ∧ Char.ofNat 0 ∉ s.toList) ∧
      CleanPath p ∧ resolve (env.root ++ components s) [] = env.root ++ p := by
  unfold ownedTargetPath at h
  split at h
  · cases h
  · next hn =>
    simp only [not_or, Bool.not_eq_true] at hn
    simp only at h
    split at h
    · next hp =>
      obtain ⟨q, hq⟩ := hp
      rw [← hq, List.drop_left, Option.some.injEq] at h
      subst h
      refine ⟨⟨hn.1, hn.2.1, hn.2.2.1, hn.2.2.2⟩, fun c hc => ?_, hq.symm⟩
      have hmem : c ∈ resolve (env.root ++ components s) [] := by
        rw [← hq]; exact List.mem_append_right _ hc
      rcases mem_resolve hmem with h0 | ⟨hm, hne⟩
      · cases h0
      · rcases List.mem_append.mp hm with hm | hm
        · exact env.root_clean c hm
        · exact components_clean hm hne hn.2.2.2
    · cases h

theorem ownedTargetPath_clean {s : String} {p : Path} (h : ownedTargetPath env s = some p) :
    CleanPath p := (ownedTargetPath_eq_some h).2.1

theorem nul_not_mem_posix {p : Path} (h : CleanPath p) : Char.ofNat 0 ∉ (posix p).toList := by
  intro h0
  rcases mem_posix h0 with h1 | h1 | ⟨c, hc, h1⟩
  · exact absurd h1 (by decide)
  · exact absurd h1 (by decide)
  · exact (h c hc).no_nul h1

/-- A resolved path that does not look like a drive is owned and resolves to itself. -/
theorem ownedTargetPath_posix {p : Path} (h : CleanPath p)
    (hd : driveRooted (posix p).toList = false) : ownedTargetPath env (posix p) = some p := by
  have hroot : ".." ∉ env.root ++ p := by
    simp only [List.mem_append, not_or]
    exact ⟨fun hm => (env.root_clean _ hm).ne_dotdot rfl, fun hm => (h _ hm).ne_dotdot rfl⟩
  have hres : resolve (env.root ++ components (posix p)) [] = env.root ++ p := by
    rw [components_posix h, resolve_of_clean hroot]
    rfl
  unfold ownedTargetPath
  rw [if_neg (by
    simp [posix_ne_empty h, not_isAbsolute_posix h, hd, nul_not_mem_posix h])]
  simp [hres]

/-- A spelled path that resolves at all resolves to itself. -/
theorem ownedTargetPath_posix_eq {p q : Path} (h : CleanPath p)
    (hq : ownedTargetPath env (posix p) = some q) : q = p := by
  have := @ownedTargetPath_posix env p h (ownedTargetPath_eq_some hq).1.2.2.1
  rw [hq, Option.some.injEq] at this
  exact this

/-! ### Operation ids -/

theorem validateSafeId_eq_ok {kind s v : String} (h : validateSafeId kind s = .ok v) :
    v = Text.strip s ∧ v ≠ "" ∧ '/' ∉ v.toList ∧ '\\' ∉ v.toList ∧ matchesSafeId v.toList ∧
      validateSafeId kind v = .ok v := by
  have hv : validateSafeId kind (Text.strip s) = validateSafeId kind s := by
    simp only [validateSafeId, Text.strip_strip]
  have h' := h
  unfold validateSafeId at h
  simp only at h
  split_ifs at h with h1 h2 h3 h4 h5 h6 h7 h8
  obtain rfl := Except.ok.inj h
  simp only [not_or] at h4
  exact ⟨rfl, h1, h4.1, h4.2, by simpa using h6, hv.trans h'⟩

/-- A validated id is a fixed point of validation. -/
theorem validateOpId_self {s v : String} (h : validateOpId s = .ok v) :
    validateOpId v = .ok v ∧ v ≠ "" := by
  unfold validateOpId at h
  split_ifs at h with h1 h2
  obtain ⟨-, hne, hs, hb, hsafe, hv⟩ := validateSafeId_eq_ok h
  refine ⟨?_, hne⟩
  have hdots : Text.startsWith v ".." = false := by
    unfold Text.startsWith
    cases hl : v.toList with
    | nil => rfl
    | cons c cs =>
      rw [hl, matchesSafeId, Bool.and_eq_true] at hsafe
      have : c ≠ '.' := by
        rintro rfl
        exact absurd hsafe.1 (by decide)
      simp [List.isPrefixOf, Ne.symm this]
  unfold validateOpId
  rw [if_neg hne, if_neg (by simp [hdots, hs, hb]), hv]

end Saipen
