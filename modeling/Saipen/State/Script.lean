import Saipen.State.Kinds
import Mathlib.Data.List.Pairwise

/-! # Edits of a run

An edit of the lines of a frontmatter keeps a line, drops it, or writes the lines of a field in place
of a field line. The reader reads the edited lines as it read the old ones, with the written values in
place of theirs, when each line that is dropped belongs to an owned field and each line that is kept
does not. It is the only way: a line kept or dropped out of place is missed when the fields, or the
items of the lists, are counted. -/

namespace Saipen.State

/-- The lines of one field, with the value they are read as. -/
structure Written where
  key : String
  value : Value
  kinds : List Kind
  reads : ∀ s : Reading, key ∉ s.fields.map (·.1) →
    ∃ current, run kinds s = some ⟨s.fields ++ [(key, value)], current⟩

def Written.entry (w : Written) : String × Value := (w.key, w.value)

theorem keys_entry (ws : List Written) : (ws.map (·.entry)).map (·.1) = ws.map (·.key) :=
  List.map_map ..

/-- What happens to a line. -/
inductive Edit where
  | kept (k : Kind)
  | dropped (k : Kind)
  | replaced (raw : String) (w : Written)

def Edit.before : Edit → Kind
  | .kept k => k
  | .dropped k => k
  | .replaced raw w => .field w.key raw

def Edit.after : Edit → List Kind
  | .kept k => [k]
  | .dropped _ => []
  | .replaced _ w => w.kinds

/-- A line with whether it is dropped. -/
def Edit.mark : Edit → Bool × Kind
  | .kept k => (false, k)
  | .dropped k => (true, k)
  | .replaced raw w => (true, .field w.key raw)

def written (es : List Edit) : List Written :=
  es.filterMap fun e =>
    match e with
    | .replaced _ w => some w
    | _ => none

/-- The lines that are dropped are those of fields that have `P`; `current` is the list field the first
items belong to. -/
def Belong (P : String → Prop) : Option String → List (Bool × Kind) → Prop
  | _, [] => True
  | _, (d, .field key raw) :: ms => (d = true ↔ P key) ∧ Belong P (fieldList key raw) ms
  | current, (d, .item _) :: ms => (∀ key ∈ current, (d = true ↔ P key)) ∧ Belong P current ms
  | current, (_, .blank) :: ms => Belong P current ms
  | current, (_, .bad) :: ms => Belong P current ms

/-- Items are dropped behind a field line that is dropped; `dropping` says that the last one was. -/
def Covered : Bool → List Edit → Prop
  | _, [] => True
  | _, .kept (.field ..) :: es => Covered false es
  | dropping, .kept _ :: es => Covered dropping es
  | _, .dropped (.field ..) :: es => Covered true es
  | dropping, .dropped (.item _) :: es => dropping = true ∧ Covered dropping es
  | dropping, .dropped _ :: es => Covered dropping es
  | _, .replaced .. :: es => Covered true es

/-- The law of an edit: under `P` the fields are the new ones, and the others are the old ones. -/
def Law (P : String → Prop) (new old fields : Fields) : Prop :=
  (∀ k, P k → fields.lookup k = new.lookup k) ∧ ∀ k, ¬ P k → fields.lookup k = old.lookup k

/-! ### The edited lines are read -/

theorem lookup_concat {key : String} {v : Value} {fields : Fields} (k : String)
    (h : key ∉ fields.map (·.1)) :
    (fields ++ [(key, v)]).lookup k = if k = key then some v else fields.lookup k := by
  rw [List.lookup_append, Assoc.lookup_cons]
  split
  case isTrue hk =>
    have hnone : fields.lookup k = none :=
      Assoc.lookup_eq_none fun e he heq => h (hk ▸ heq ▸ List.mem_map_of_mem he)
    rw [hnone]
    rfl
  case isFalse => simp

/-- Lines written behind a reading. -/
theorem run_written {ws : List Written} : ∀ {s : Reading},
    (s.fields.map (·.1) ++ ws.map (·.key)).Nodup →
    ∃ current, run (ws.flatMap (·.kinds)) s = some ⟨s.fields ++ ws.map (·.entry), current⟩ := by
  induction ws with
  | nil =>
    intro s _
    exact ⟨s.current, by simp [run]⟩
  | cons w ws ih =>
    intro s h
    have hfresh : w.key ∉ s.fields.map (·.1) := fun hmem =>
      (List.nodup_append.mp h).2.2 _ hmem _ (by simp) rfl
    obtain ⟨current, hw⟩ := w.reads s hfresh
    obtain ⟨last, hws⟩ := ih (s := ⟨s.fields ++ [(w.key, w.value)], current⟩) (by simpa using h)
    refine ⟨last, ?_⟩
    rw [List.flatMap_cons, run_append, hw, Option.bind_some, hws]
    simp [Written.entry]

/-- What holds between the readings of the old lines and of the edited ones: they differ in the owned
fields, and those are the ones written so far. -/
structure Agree (P : String → Prop) (done : Fields) (s s' : Reading) : Prop where
  others : ∀ k, ¬ P k → s'.fields.lookup k = s.fields.lookup k
  owned : ∀ k, P k → s'.fields.lookup k = done.lookup k
  current : ∀ k, s.current = some k → ¬ P k → s'.current = some k

section Simulation

variable {P : String → Prop}

theorem Agree.dropped {done : Fields} {s t s' : Reading} {k : Kind} (h : Agree P done s s')
    (hbelong : Belong P s.current [(true, k)]) (hstep : step k s = some t) : Agree P done t s' := by
  cases k with
  | blank => exact Option.some.inj hstep ▸ h
  | item raw =>
    obtain ⟨key, hkey, rfl⟩ := step_item_eq_some_iff.mp hstep
    have hP : P key := (hbelong.1 key hkey).mp rfl
    refine ⟨fun k hk => ?_, h.owned, h.current⟩
    have hne : k ≠ key := fun heq => hk (heq ▸ hP)
    rw [h.others k hk, lookup_appendItem]
    simp [hne]
  | field key raw =>
    obtain ⟨hfresh, rfl⟩ := step_field_eq_some_iff.mp hstep
    have hP : P key := hbelong.1.mp rfl
    refine ⟨fun k hk => ?_, h.owned, fun k hcur hk => ?_⟩
    · rw [h.others k hk, lookup_concat k hfresh, if_neg fun (heq : k = key) => hk (heq ▸ hP)]
    · simp only [fieldList] at hcur
      split at hcur
      · exact absurd (Option.some.inj hcur ▸ hP) hk
      · cases hcur
  | bad => cases hstep

theorem Agree.kept {done : Fields} {s t s' : Reading} {k : Kind} (h : Agree P done s s')
    (hbelong : Belong P s.current [(false, k)]) (hstep : step k s = some t) :
    ∃ t', step k s' = some t' ∧ Agree P done t t' := by
  cases k with
  | blank => exact ⟨s', rfl, Option.some.inj hstep ▸ h⟩
  | item raw =>
    obtain ⟨key, hkey, rfl⟩ := step_item_eq_some_iff.mp hstep
    have hP : ¬ P key := fun hP => absurd ((hbelong.1 key hkey).mpr hP) (by decide)
    have hkey' := h.current key hkey hP
    refine ⟨_, step_item_eq_some_iff.mpr ⟨key, hkey', rfl⟩, fun k hk => ?_, fun k hk => ?_, h.current⟩
    · rw [lookup_appendItem, lookup_appendItem, h.others k hk]
    · have hne : k ≠ key := fun heq => hP (heq ▸ hk)
      rw [lookup_appendItem, ← h.owned k hk]
      simp [hne]
  | field key raw =>
    obtain ⟨hfresh, rfl⟩ := step_field_eq_some_iff.mp hstep
    have hP : ¬ P key := fun hP => absurd (hbelong.1.mpr hP) (by decide)
    have hfresh' : key ∉ s'.fields.map (·.1) := by
      rw [Assoc.notMem_iff_lookup, h.others key hP]
      exact Assoc.notMem_iff_lookup.mp hfresh
    refine ⟨_, step_field_eq_some_iff.mpr ⟨hfresh', rfl⟩, fun k hk => ?_, fun k hk => ?_,
      fun k hcur _ => hcur⟩
    · rw [lookup_concat k hfresh, lookup_concat k hfresh', h.others k hk]
    · rw [lookup_concat k hfresh', if_neg fun (heq : k = key) => hP (heq ▸ hk), h.owned k hk]
  | bad => cases hstep

theorem belong_cons {s t : Reading} {d : Bool} {k : Kind} {ms : List (Bool × Kind)}
    (hstep : step k s = some t) : Belong P s.current ((d, k) :: ms) ↔
      Belong P s.current [(d, k)] ∧ Belong P t.current ms := by
  cases k with
  | blank => obtain rfl := Option.some.inj hstep; simp [Belong]
  | item raw =>
    obtain ⟨key, -, rfl⟩ := step_item_eq_some_iff.mp hstep
    simp [Belong]
  | field key raw =>
    obtain ⟨-, rfl⟩ := step_field_eq_some_iff.mp hstep
    simp [Belong]
  | bad => cases hstep

/-- A field line is replaced by what is written for it. -/
theorem Agree.replaced {done : Fields} {s t s' : Reading} {raw : String} {w : Written}
    (h : Agree P done s s') (hP : P w.key) (hstep : step (.field w.key raw) s = some t)
    (hfresh : w.key ∉ done.map (·.1)) :
    ∃ t', run w.kinds s' = some t' ∧ Agree P (done ++ [w.entry]) t t' := by
  have hdrop : Agree P done t s' := h.dropped (by simp [Belong, hP]) hstep
  have hfresh' : w.key ∉ s'.fields.map (·.1) := by
    rw [Assoc.notMem_iff_lookup, h.owned _ hP]
    exact Assoc.notMem_iff_lookup.mp hfresh
  obtain ⟨current, hrun⟩ := w.reads s' hfresh'
  refine ⟨_, hrun, fun k hk => ?_, fun k hk => ?_, fun k hcur hk => ?_⟩
  · rw [lookup_concat k hfresh', if_neg fun (heq : k = w.key) => hk (heq ▸ hP), hdrop.others k hk]
  · rw [lookup_concat k hfresh', Written.entry, lookup_concat k hfresh, hdrop.owned k hk]
  · obtain ⟨-, rfl⟩ := step_field_eq_some_iff.mp hstep
    simp only [fieldList] at hcur
    split at hcur
    · exact absurd (Option.some.inj hcur ▸ hP) hk
    · cases hcur

/-- The edited lines are read when the old ones are. -/
theorem run_after {es : List Edit} : ∀ {done : Fields} {s t s' : Reading},
    Belong P s.current (es.map (·.mark)) → run (es.map (·.before)) s = some t → Agree P done s s' →
    (∀ w ∈ written es, P w.key) → (done.map (·.1) ++ (written es).map (·.key)).Nodup →
    ∃ t', run (es.flatMap (·.after)) s' = some t' ∧
      Agree P (done ++ (written es).map (·.entry)) t t' := by
  induction es with
  | nil =>
    intro done s t s' _ hrun hagree _ _
    obtain rfl := Option.some.inj hrun
    exact ⟨s', rfl, by simpa [written] using hagree⟩
  | cons e es ih =>
    intro done s t s' hbelong hrun hagree hP hnodup
    obtain ⟨m, hstep, hrest⟩ := run_cons_eq_some_iff.mp hrun
    obtain ⟨hhead, htail⟩ := (belong_cons (d := e.mark.1) hstep).mp (by cases e <;> exact hbelong)
    cases e with
    | kept k =>
      obtain ⟨m', hstep', hagree⟩ := hagree.kept hhead hstep
      obtain ⟨t', hrun', hagree⟩ := ih htail hrest hagree hP hnodup
      refine ⟨t', ?_, hagree⟩
      rw [List.flatMap_cons]
      exact run_cons_eq_some_iff.mpr ⟨m', hstep', hrun'⟩
    | dropped k => exact ih htail hrest (hagree.dropped hhead hstep) hP hnodup
    | replaced raw w =>
      have hw : written (.replaced raw w :: es) = w :: written es := rfl
      rw [hw] at hP hnodup
      have hfresh : w.key ∉ done.map (·.1) := fun hmem =>
        (List.nodup_append.mp hnodup).2.2 _ hmem _ List.mem_cons_self rfl
      obtain ⟨m', hwrite, hagree⟩ := hagree.replaced (hP w List.mem_cons_self) hstep hfresh
      obtain ⟨t', hrun', hagree⟩ := ih htail hrest hagree (fun v hv => hP v (List.mem_cons_of_mem _ hv))
        (by simpa [Written.entry] using hnodup)
      refine ⟨t', ?_, ?_⟩
      · rw [List.flatMap_cons, run_append, Edit.after, hwrite]
        exact hrun'
      · rw [hw, List.map_cons]
        simpa using hagree

/-- The lines are edited within their fields: the law holds. -/
theorem law_of_belong {es : List Edit} {ws : List Written} {new : Fields} {t : Reading}
    (hbelong : Belong P none (es.map (·.mark))) (hrun : run (es.map (·.before)) {} = some t)
    (hP : ∀ w ∈ written es ++ ws, P w.key) (hnodup : ((written es ++ ws).map (·.key)).Nodup)
    (hnew : ∀ k, ((written es ++ ws).map (·.entry)).lookup k = new.lookup k) :
    ∃ t', run (es.flatMap (·.after) ++ ws.flatMap (·.kinds)) {} = some t' ∧
      Law P new t.fields t'.fields := by
  have hinit : Agree P [] {} {} := ⟨fun _ _ => rfl, fun _ _ => rfl, fun _ h => absurd h (Option.some_ne_none _).symm⟩
  rw [List.map_append] at hnodup
  obtain ⟨m, hm, hagree⟩ := run_after hbelong hrun hinit
    (fun w hw => hP w (List.mem_append_left _ hw)) (by simpa using (List.nodup_append.mp hnodup).1)
  have hfresh : (m.fields.map (·.1) ++ ws.map (·.key)).Nodup := by
    refine List.nodup_append.mpr ⟨(sound_init.run hm).nodup, (List.nodup_append.mp hnodup).2.1, ?_⟩
    rintro k hk l hl rfl
    obtain ⟨w, hw, rfl⟩ := List.mem_map.mp hl
    have hnone : w.key ∉ (written es).map (·.key) := fun hmem =>
      (List.nodup_append.mp hnodup).2.2 _ hmem _ hl rfl
    refine absurd hk (Assoc.notMem_iff_lookup.mpr ?_)
    rw [hagree.owned _ (hP w (List.mem_append_right _ hw)), List.nil_append]
    refine Assoc.notMem_iff_lookup.mp ?_
    simpa [Written.entry] using hnone
  obtain ⟨current, hws⟩ := run_written hfresh
  refine ⟨_, run_append_eq_some_iff.mpr ⟨m, hm, hws⟩, fun k hk => ?_, fun k hk => ?_⟩
  · rw [← hnew, List.map_append, List.lookup_append, List.lookup_append, hagree.owned k hk,
      List.nil_append]
  · have hnone : (ws.map (·.entry)).lookup k = none := by
      refine Assoc.lookup_eq_none fun e he heq => ?_
      obtain ⟨w, hw, rfl⟩ := List.mem_map.mp he
      exact hk (heq ▸ hP w (List.mem_append_right _ hw))
    rw [List.lookup_append, hnone, hagree.others k hk]
    simp

end Simulation

/-! ### No other edit is -/

section Counting

variable {P : String → Prop} [DecidablePred P]

/-- The number of items among some lines. -/
def itemCount (ks : List Kind) : Nat := ks.countP fun k => k matches .item _

theorem credits_true {ks : List Kind} : ∀ {s t : Reading}, run ks s = some t →
    credits (fun _ => True) s.current ks = itemCount ks := by
  induction ks with
  | nil => exact fun _ => rfl
  | cons k ks ih =>
    intro s t h
    obtain ⟨m, hstep, hrun⟩ := run_cons_eq_some_iff.mp h
    have hrest := ih hrun
    cases k with
    | blank => obtain rfl := Option.some.inj hstep; simpa [itemCount, credits] using hrest
    | item raw =>
      obtain ⟨key, hkey, rfl⟩ := step_item_eq_some_iff.mp hstep
      simp only [itemCount, credits, hkey] at hrest ⊢
      simp [hrest, Nat.add_comm]
    | field key raw =>
      obtain ⟨-, rfl⟩ := step_field_eq_some_iff.mp hstep
      simpa [itemCount, credits] using hrest
    | bad => cases hstep

/-- What is written for a field lists as many items as its value. -/
theorem Written.itemCount_eq (w : Written) : itemCount w.kinds = w.value.size := by
  obtain ⟨current, h⟩ := w.reads {} List.not_mem_nil
  have htotal := total_run (fun _ => True) sound_init h
  rw [credits_true h] at htotal
  rw [← Nat.zero_add (itemCount _)]
  refine htotal.symm.trans ?_
  rw [List.nil_append, total_cons, if_pos trivial]
  rfl

theorem Written.keysOf_eq (w : Written) : keysOf w.kinds = [w.key] := by
  obtain ⟨current, h⟩ := w.reads {} List.not_mem_nil
  exact (keys_run h).symm

/-- The kept lines. -/
def keptOf (es : List Edit) : List Kind :=
  es.filterMap fun e =>
    match e with
    | .kept k => some k
    | _ => none

theorem itemCount_append (ks ms : List Kind) : itemCount (ks ++ ms) = itemCount ks + itemCount ms :=
  List.countP_append

theorem itemCount_written (ws : List Written) :
    itemCount (ws.flatMap (·.kinds)) = total (fun _ => True) (ws.map (·.entry)) := by
  induction ws with
  | nil => rfl
  | cons w ws ih =>
    rw [List.flatMap_cons, itemCount_append, ih, List.map_cons, total_cons, if_pos trivial,
      w.itemCount_eq]
    rfl

theorem itemCount_after (es : List Edit) : itemCount (es.flatMap (·.after)) =
    itemCount (keptOf es) + total (fun _ => True) ((written es).map (·.entry)) := by
  induction es with
  | nil => rfl
  | cons e es ih =>
    rw [List.flatMap_cons, itemCount_append, ih]
    cases e with
    | kept k =>
      have hkept : keptOf (.kept k :: es) = [k] ++ keptOf es := rfl
      rw [hkept, itemCount_append, Nat.add_assoc]
      rfl
    | dropped k => simp [Edit.after, itemCount, keptOf, written]
    | replaced raw w =>
      have hwritten : written (.replaced raw w :: es) = w :: written es := rfl
      rw [hwritten, List.map_cons, total_cons, if_pos trivial, Edit.after, w.itemCount_eq]
      have hkept : keptOf (.replaced raw w :: es) = keptOf es := rfl
      rw [hkept]
      dsimp only [Written.entry]
      omega

/-- The field lines are dropped and kept as they should be. -/
def FieldsBelong (P : String → Prop) (es : List Edit) : Prop :=
  ∀ e ∈ es, ∀ key raw, e.before = .field key raw → (e.mark.1 = true ↔ P key)

/-- When the fields are in place and items are dropped behind dropped fields only, at least the items
of the other fields are kept; when no more are, the lines belong. -/
theorem belong_of_count {es : List Edit} (hfields : FieldsBelong P es) :
    ∀ {dropping : Bool} {s t : Reading}, Covered dropping es → run (es.map (·.before)) s = some t →
    (dropping = true → ∀ key ∈ s.current, P key) →
    credits (fun k => ¬ P k) s.current (es.map (·.before)) ≤ itemCount (keptOf es) ∧
      (itemCount (keptOf es) ≤ credits (fun k => ¬ P k) s.current (es.map (·.before)) →
        Belong P s.current (es.map (·.mark))) := by
  induction es with
  | nil => exact fun _ _ _ => ⟨Nat.le_refl _, fun _ => trivial⟩
  | cons e es ih =>
    intro dropping s t hcovered hrun hdropping
    have htail : FieldsBelong P es := fun e he => hfields e (List.mem_cons_of_mem _ he)
    have hhead := hfields e List.mem_cons_self
    obtain ⟨m, hstep, hrest⟩ := run_cons_eq_some_iff.mp hrun
    have hfield : ∀ key raw, P key → ∀ l ∈ fieldList key raw, P l := by
      intro key raw hP l hl
      unfold fieldList at hl
      split at hl
      · exact Option.some.inj hl ▸ hP
      · cases hl
    cases e with
    | kept k =>
      have hkept : itemCount (keptOf (.kept k :: es)) = itemCount [k] + itemCount (keptOf es) :=
        itemCount_append [k] (keptOf es)
      rw [hkept]
      cases k with
      | blank =>
        obtain rfl := Option.some.inj hstep
        simpa [Edit.before, Edit.mark, credits, Belong, itemCount] using ih htail hcovered hrest hdropping
      | item raw =>
        obtain ⟨key, hkey, rfl⟩ := step_item_eq_some_iff.mp hstep
        obtain ⟨hle, hbelong⟩ := ih htail hcovered hrest hdropping
        have hone : itemCount [.item raw] = 1 := rfl
        simp only [List.map_cons, Edit.before, Edit.mark, credits, Belong, hkey, hone] at hle hbelong ⊢
        by_cases hP : P key
        · simp only [Option.mem_def, Option.some.injEq, exists_eq_left', hP, not_true_eq_false, if_false]
          exact ⟨by omega, fun h => absurd h (by omega)⟩
        · simp only [Option.mem_def, Option.some.injEq, exists_eq_left', hP, not_false_iff, if_true]
          refine ⟨by omega, fun h => ⟨?_, hbelong (by omega)⟩⟩
          rintro l rfl
          simp [hP]
      | field key raw =>
        obtain ⟨-, rfl⟩ := step_field_eq_some_iff.mp hstep
        obtain ⟨hle, hbelong⟩ := ih htail hcovered hrest fun h => absurd h Bool.false_ne_true
        have hnone : itemCount [.field key raw] = 0 := rfl
        rw [hnone, Nat.zero_add]
        exact ⟨hle, fun h => ⟨hhead key raw rfl, hbelong h⟩⟩
      | bad => cases hstep
    | dropped k =>
      cases k with
      | blank =>
        obtain rfl := Option.some.inj hstep
        exact ih htail hcovered hrest hdropping
      | item raw =>
        obtain ⟨key, hkey, rfl⟩ := step_item_eq_some_iff.mp hstep
        obtain ⟨hle, hbelong⟩ := ih htail hcovered.2 hrest hdropping
        have hP : P key := hdropping hcovered.1 key hkey
        have hkept : keptOf (.dropped (.item raw) :: es) = keptOf es := rfl
        rw [hkept]
        simp only [List.map_cons, Edit.before, Edit.mark, credits, Belong, hkey] at hle hbelong ⊢
        simp only [Option.mem_def, Option.some.injEq, exists_eq_left', hP, not_true_eq_false, if_false,
          Nat.zero_add]
        refine ⟨hle, fun h => ⟨?_, hbelong h⟩⟩
        rintro l rfl
        simp [hP]
      | field key raw =>
        obtain ⟨-, rfl⟩ := step_field_eq_some_iff.mp hstep
        have hbelongs := hhead key raw rfl
        obtain ⟨hle, hbelong⟩ := ih htail hcovered hrest fun _ => hfield key raw (hbelongs.mp rfl)
        exact ⟨hle, fun h => ⟨hbelongs, hbelong h⟩⟩
      | bad => cases hstep
    | replaced raw w =>
      obtain ⟨-, rfl⟩ := step_field_eq_some_iff.mp hstep
      have hbelongs := hhead w.key raw rfl
      obtain ⟨hle, hbelong⟩ := ih htail hcovered hrest fun _ => hfield w.key raw (hbelongs.mp rfl)
      exact ⟨hle, fun h => ⟨hbelongs, hbelong h⟩⟩

/-- A field of the old lines has one line. -/
theorem eq_of_keyOf {es : List Edit} (h : (keysOf (es.map (·.before))).Nodup) {e e' : Edit}
    (he : e ∈ es) (he' : e' ∈ es) {key : String} (hkey : keyOf e.before = some key)
    (hkey' : keyOf e'.before = some key) : e = e' := by
  rw [keysOf, List.filterMap_map, List.Nodup, List.pairwise_filterMap] at h
  by_contra hne
  have hsymm : Std.Symm fun a a' : Edit => ∀ b, (keyOf ∘ (·.before)) a = some b →
      ∀ b', (keyOf ∘ (·.before)) a' = some b' → b ≠ b' :=
    ⟨fun a a' hab b hb b' hb' => (hab b' hb' b hb).symm⟩
  exact h.forall he he' hne key hkey key hkey' rfl

theorem fieldsBelong_of_law {es : List Edit} {ws : List Written} {new : Fields} {t t' : Reading}
    (hrun : run (es.map (·.before)) {} = some t) (hP : ∀ w ∈ written es ++ ws, P w.key)
    (hnew : ∀ k, ((written es ++ ws).map (·.entry)).lookup k = new.lookup k)
    (hrun' : run (es.flatMap (·.after) ++ ws.flatMap (·.kinds)) {} = some t')
    (hlaw : Law P new t.fields t'.fields) : FieldsBelong P es := by
  have hkeys : t.fields.map (·.1) = keysOf (es.map (·.before)) := keys_run hrun
  have hkeys' := keys_run hrun'
  have hnodup' := (sound_init.run hrun').nodup
  rw [keysOf, List.filterMap_append, List.filterMap_flatMap, List.filterMap_flatMap,
    show ({} : Reading).fields.map (·.1) = [] from rfl, List.nil_append] at hkeys'
  intro e he key raw hfield
  have hkey : keyOf e.before = some key := by rw [hfield]; rfl
  cases e with
  | replaced raw' w =>
    have hw : w ∈ written es := List.mem_filterMap.mpr ⟨_, he, rfl⟩
    obtain rfl : w.key = key := by simpa [keyOf, Edit.before] using hkey
    simpa [Edit.mark] using hP w (List.mem_append_left _ hw)
  | dropped k =>
    refine iff_of_true rfl ?_
    by_contra hnP
    have hmem : key ∈ t.fields.map (·.1) := by
      rw [hkeys]
      exact List.mem_filterMap.mpr ⟨_, List.mem_map_of_mem he, hkey⟩
    have hmem' : key ∈ t'.fields.map (·.1) := by
      by_contra hnone
      rw [Assoc.notMem_iff_lookup, hlaw.2 key hnP, ← Assoc.notMem_iff_lookup] at hnone
      exact hnone hmem
    rw [hkeys', List.mem_append, List.mem_flatMap, List.mem_flatMap] at hmem'
    rcases hmem' with ⟨e', he', hin⟩ | ⟨w, hw, hin⟩
    · cases e' with
      | kept k' =>
        have hkey' : keyOf k' = some key := by simpa [Edit.after] using hin
        have heq := eq_of_keyOf (hkeys ▸ (sound_init.run hrun).nodup) he he' hkey hkey'
        cases heq
      | dropped k' => simp [Edit.after] at hin
      | replaced raw' w =>
        have hw : w ∈ written es := List.mem_filterMap.mpr ⟨_, he', rfl⟩
        have hin : key ∈ keysOf w.kinds := hin
        rw [w.keysOf_eq, List.mem_singleton] at hin
        exact hnP (hin ▸ hP w (List.mem_append_left _ hw))
    · have hin : key ∈ keysOf w.kinds := hin
      rw [w.keysOf_eq, List.mem_singleton] at hin
      exact hnP (hin ▸ hP w (List.mem_append_right _ hw))
  | kept k =>
    refine iff_of_false Bool.false_ne_true fun hPk => ?_
    have hin : key ∈ es.flatMap fun e => e.after.filterMap keyOf :=
      List.mem_flatMap.mpr ⟨_, he, List.mem_filterMap.mpr ⟨k, List.mem_singleton_self k, hkey⟩⟩
    have hsome : key ∈ (written es ++ ws).map (·.key) := by
      have hmem : key ∈ t'.fields.map (·.1) := by
        rw [hkeys']
        exact List.mem_append_left _ hin
      by_contra hnone
      refine absurd hmem (Assoc.notMem_iff_lookup.mpr ?_)
      rw [hlaw.1 key hPk, ← hnew]
      refine Assoc.notMem_iff_lookup.mp ?_
      simpa [Written.entry] using hnone
    rw [hkeys', List.nodup_append] at hnodup'
    obtain ⟨w, hw, rfl⟩ := List.mem_map.mp hsome
    have hw' : w.key ∈ w.kinds.filterMap keyOf := by
      rw [← keysOf, w.keysOf_eq]
      exact List.mem_singleton_self _
    rcases List.mem_append.mp hw with hw | hw
    · obtain ⟨e', he', heq⟩ := List.mem_filterMap.mp hw
      cases e' with
      | kept k' => cases heq
      | dropped k' => cases heq
      | replaced raw' w' =>
        obtain rfl := Option.some.inj heq
        have hsymm : Std.Symm (Function.onFun List.Disjoint fun e : Edit => e.after.filterMap keyOf) :=
          ⟨fun _ _ h _ hb ha => h ha hb⟩
        have hdisjoint := (List.nodup_flatMap.mp hnodup'.1).2.forall he he' Edit.noConfusion
        exact hdisjoint (List.mem_filterMap.mpr ⟨k, List.mem_singleton_self k, hkey⟩) hw'
    · exact hnodup'.2.2 _ hin _ (List.mem_flatMap.mpr ⟨w, hw, hw'⟩) rfl

/-- The law holds only of edits within the fields. -/
theorem belong_of_law {es : List Edit} {ws : List Written} {new : Fields} {t t' : Reading}
    (hrun : run (es.map (·.before)) {} = some t) (hcovered : Covered true es)
    (hP : ∀ w ∈ written es ++ ws, P w.key) (hnodup : ((written es ++ ws).map (·.key)).Nodup)
    (hnew : ∀ k, ((written es ++ ws).map (·.entry)).lookup k = new.lookup k)
    (hrun' : run (es.flatMap (·.after) ++ ws.flatMap (·.kinds)) {} = some t')
    (hlaw : Law P new t.fields t'.fields) : Belong P none (es.map (·.mark)) := by
  have hfields := fieldsBelong_of_law hrun hP hnew hrun' hlaw
  have hsound := sound_init.run hrun
  have hsound' := sound_init.run hrun'
  refine (belong_of_count hfields hcovered hrun fun _ _ h => absurd h (Option.some_ne_none _).symm).2 ?_
  -- the items of the fields written, and those of the others
  have hothers : total (fun k => ¬ P k) t'.fields = credits (fun k => ¬ P k) none (es.map (·.before)) := by
    rw [total_congr _ hsound'.nodup hsound.nodup hlaw.2, total_run _ sound_init hrun]
    simp [total]
  have howned : total P t'.fields = total (fun _ => True) ((written es ++ ws).map (·.entry)) := by
    have hkeys : (((written es ++ ws).map (·.entry)).map (·.1)).Nodup := by
      rw [keys_entry]
      exact hnodup
    rw [total_congr P hsound'.nodup hkeys fun k hk => (hlaw.1 k hk).trans (hnew k).symm]
    unfold total
    congr 2
    refine List.filter_congr fun e he => ?_
    obtain ⟨w, hw, rfl⟩ := List.mem_map.mp he
    exact decide_eq_decide.mpr (iff_of_true (hP w hw) trivial)
  have hcount : total (fun _ => True) t'.fields =
      itemCount (es.flatMap (·.after)) + itemCount (ws.flatMap (·.kinds)) := by
    rw [total_run _ sound_init hrun', credits_true hrun', itemCount_append]
    simp [total]
  rw [total_not P, hothers, howned, itemCount_after, itemCount_written, List.map_append,
    total_append] at hcount
  exact Nat.le_of_eq (show itemCount (keptOf es) = credits (fun k => ¬ P k) none _ by omega)

end Counting

-- the lines of a text are not to be computed where a fact about them is only passed on
attribute [irreducible] Belong

end Saipen.State
