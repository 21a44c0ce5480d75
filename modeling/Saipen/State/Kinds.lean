import Saipen.State.Frontmatter
import Saipen.Assoc

/-! # Kinds of frontmatter lines

What a line is for the reader: blank, an item, a field, or none of these. Reading is a run over the
kinds of the lines, and a run is accounted for twice: the fields it leaves are the field lines it read,
in order, and the lists it leaves are as long as the items it read. -/

namespace Saipen.State

open Text

/-- What a line is for the reader. -/
inductive Kind where
  | blank
  | item (raw : String)
  | field (key raw : String)
  | bad
deriving DecidableEq

def kind (line : String) : Kind :=
  if strip line = "" then .blank
  else
    match itemLine line with
    | some raw => .item raw
    | none =>
      match fieldLine line with
      | some (key, raw) => .field key raw
      | none => .bad

/-- The value a field line begins, and the list field its items go to. -/
def fieldValue (raw : String) : Value := if raw = "" then .list [] else .scalar (coerce raw)

def fieldList (key raw : String) : Option String := if raw = "" then some key else none

/-- One step of the reader, without its reports. -/
def step (k : Kind) (s : Reading) : Option Reading :=
  match k with
  | .blank => some s
  | .item raw => s.current.map fun key => { s with fields := appendItem key (coerce raw) s.fields }
  | .field key raw =>
      if key ∈ s.fields.map (·.1) then none
      else some ⟨s.fields ++ [(key, fieldValue raw)], fieldList key raw⟩
  | .bad => none

/-- The reader over kinds of lines. -/
def run : List Kind → Reading → Option Reading
  | [], s => some s
  | k :: ks, s => (step k s).bind (run ks)

theorem run_append (ks ms : List Kind) (s : Reading) : run (ks ++ ms) s = (run ks s).bind (run ms) := by
  induction ks generalizing s with
  | nil => rfl
  | cons k ks ih =>
    rw [List.cons_append, run, run, Option.bind_assoc]
    exact congrArg _ (funext ih)

theorem run_cons_eq_some_iff {k : Kind} {ks : List Kind} {s t : Reading} :
    run (k :: ks) s = some t ↔ ∃ m, step k s = some m ∧ run ks m = some t := Option.bind_eq_some_iff

theorem run_append_eq_some_iff {ks ms : List Kind} {s t : Reading} :
    run (ks ++ ms) s = some t ↔ ∃ m, run ks s = some m ∧ run ms m = some t := by
  rw [run_append, Option.bind_eq_some_iff]

/-- Blank lines change nothing. -/
theorem run_filter (ks : List Kind) (s : Reading) : run (ks.filter (· ≠ .blank)) s = run ks s := by
  induction ks generalizing s with
  | nil => rfl
  | cons k ks ih =>
    by_cases hk : k = .blank
    · subst hk
      rw [List.filter_cons_of_neg (by simp), ih]
      rfl
    · rw [List.filter_cons_of_pos (by simpa using hk), run, run]
      exact congrArg _ (funext ih)

theorem step_item_eq_some_iff {raw : String} {s t : Reading} :
    step (.item raw) s = some t ↔ ∃ key, s.current = some key ∧
      t = ⟨appendItem key (coerce raw) s.fields, s.current⟩ := by
  rw [step, Option.map_eq_some_iff]
  exact ⟨fun ⟨key, hkey, h⟩ => ⟨key, hkey, h.symm⟩, fun ⟨key, hkey, h⟩ => ⟨key, hkey, h.symm⟩⟩

theorem step_field_eq_some_iff {key raw : String} {s t : Reading} :
    step (.field key raw) s = some t ↔ key ∉ s.fields.map (·.1) ∧
      t = ⟨s.fields ++ [(key, fieldValue raw)], fieldList key raw⟩ := by
  rw [step]
  split
  case isTrue h => simp [h]
  case isFalse h => simp [h, eq_comm]

/-! ### The fields that are left -/

/-- A value with an item behind the others. -/
def Value.push (x : Scalar) : Value → Value
  | .list items => .list (items ++ [x])
  | .scalar y => .scalar y

theorem appendItem_eq (key : String) (x : Scalar) (fields : Fields) :
    appendItem key x fields = fields.map fun f => (f.1, if f.1 = key then f.2.push x else f.2) := by
  refine List.map_congr_left fun f _ => ?_
  obtain ⟨k, v⟩ := f
  cases v <;> simp [Value.push]
  split <;> rfl

theorem keys_appendItem (key : String) (x : Scalar) (fields : Fields) :
    (appendItem key x fields).map (·.1) = fields.map (·.1) := by
  rw [appendItem_eq, List.map_map]
  rfl

theorem appendItem_of_notMem {key : String} {x : Scalar} {fields : Fields}
    (h : key ∉ fields.map (·.1)) : appendItem key x fields = fields := by
  have hsame : ∀ f ∈ fields, (f.1, if f.1 = key then f.2.push x else f.2) = f := fun f hf => by
    rw [if_neg fun (heq : f.1 = key) => h (heq ▸ List.mem_map_of_mem hf)]
  rw [appendItem_eq, List.map_congr_left hsame, List.map_id']

theorem lookup_appendItem (key : String) (x : Scalar) (fields : Fields) (k : String) :
    (appendItem key x fields).lookup k =
      (fields.lookup k).map fun v => if k = key then v.push x else v := by
  rw [appendItem_eq]
  induction fields with
  | nil => rfl
  | cons f fields ih =>
    rw [List.map_cons, Assoc.lookup_cons, Assoc.lookup_cons, ih]
    split
    case isTrue h => rw [h]; rfl
    case isFalse => rfl

def keyOf : Kind → Option String
  | .field key _ => some key
  | _ => none

/-- The keys of the field lines. -/
def keysOf (ks : List Kind) : List String := ks.filterMap keyOf

theorem keys_run {ks : List Kind} {s t : Reading} (h : run ks s = some t) :
    t.fields.map (·.1) = s.fields.map (·.1) ++ keysOf ks := by
  induction ks generalizing s with
  | nil =>
    obtain rfl := Option.some.inj h
    simp [keysOf]
  | cons k ks ih =>
    obtain ⟨m, hstep, hrun⟩ := run_cons_eq_some_iff.mp h
    rw [ih hrun]
    cases k with
    | blank => obtain rfl := Option.some.inj hstep; rfl
    | item raw =>
      obtain ⟨key, -, rfl⟩ := step_item_eq_some_iff.mp hstep
      rw [keys_appendItem]
      rfl
    | field key raw =>
      obtain ⟨-, rfl⟩ := step_field_eq_some_iff.mp hstep
      simp [keysOf, keyOf]
    | bad => cases hstep

/-! ### The lengths of the lists -/

/-- What holds of a reading: no field twice, and the items go to a list that has been begun. -/
structure Reading.Sound (s : Reading) : Prop where
  nodup : (s.fields.map (·.1)).Nodup
  current : ∀ key, s.current = some key → ∃ items, s.fields.lookup key = some (.list items)

theorem sound_init : Reading.Sound {} := ⟨List.nodup_nil, fun _ h => nomatch h⟩

theorem Reading.Sound.step {k : Kind} {s t : Reading} (hs : s.Sound) (h : step k s = some t) :
    t.Sound := by
  cases k with
  | blank => exact Option.some.inj h ▸ hs
  | item raw =>
    obtain ⟨key, hkey, rfl⟩ := step_item_eq_some_iff.mp h
    refine ⟨by rw [keys_appendItem]; exact hs.nodup, fun l hl => ?_⟩
    obtain ⟨items, hitems⟩ := hs.current l hl
    refine ⟨items ++ [coerce raw], ?_⟩
    obtain rfl : l = key := Option.some.inj (hl.symm.trans hkey)
    rw [lookup_appendItem, hitems, Option.map_some, if_pos rfl]
    rfl
  | field key raw =>
    obtain ⟨hfresh, rfl⟩ := step_field_eq_some_iff.mp h
    refine ⟨?_, fun l hl => ?_⟩
    · rw [List.map_append, List.nodup_append]
      refine ⟨hs.nodup, List.nodup_singleton _, ?_⟩
      rintro l hl m hm rfl
      obtain rfl := List.mem_singleton.mp hm
      exact hfresh hl
    · simp only [fieldList] at hl
      split at hl
      case isTrue hraw =>
        obtain rfl := Option.some.inj hl
        refine ⟨[], ?_⟩
        have hnone : s.fields.lookup key = none :=
          Assoc.lookup_eq_none fun e he heq => hfresh (heq ▸ List.mem_map_of_mem he)
        rw [List.lookup_append, hnone, fieldValue, if_pos hraw]
        simp
      case isFalse => cases hl
  | bad => cases h

theorem Reading.Sound.run {ks : List Kind} {s t : Reading} (hs : s.Sound) (h : run ks s = some t) :
    t.Sound := by
  induction ks generalizing s with
  | nil => exact Option.some.inj h ▸ hs
  | cons k ks ih =>
    obtain ⟨m, hstep, hrun⟩ := run_cons_eq_some_iff.mp h
    exact ih (hs.step hstep) hrun

/-- The number of items a value lists. -/
def Value.size : Value → Nat
  | .list items => items.length
  | .scalar _ => 0

/-- The number of items listed under some keys. -/
def total (P : String → Prop) [DecidablePred P] (fields : Fields) : Nat :=
  ((fields.filter fun f => P f.1).map fun f => f.2.size).sum

/-- The number of items that go to lists under some keys, the list of the first items given. -/
def credits (P : String → Prop) [DecidablePred P] : Option String → List Kind → Nat
  | _, [] => 0
  | current, .item _ :: ks => (if ∃ key ∈ current, P key then 1 else 0) + credits P current ks
  | _, .field key raw :: ks => credits P (fieldList key raw) ks
  | current, _ :: ks => credits P current ks

section Totals

variable (P : String → Prop) [DecidablePred P]

theorem total_cons (f : String × Value) (fields : Fields) :
    total P (f :: fields) = (if P f.1 then f.2.size else 0) + total P fields := by
  unfold total
  by_cases h : P f.1 <;> simp [h]

theorem total_append (f g : Fields) : total P (f ++ g) = total P f + total P g := by
  induction f with
  | nil => simp [total]
  | cons e f ih => rw [List.cons_append, total_cons, total_cons, ih, Nat.add_assoc]

/-- An item is one more under its key. -/
theorem total_appendItem {key : String} {x : Scalar} {fields : Fields}
    (hnodup : (fields.map (·.1)).Nodup) {items : List Scalar}
    (hlist : fields.lookup key = some (.list items)) :
    total P (appendItem key x fields) = total P fields + if P key then 1 else 0 := by
  induction fields with
  | nil => cases hlist
  | cons f fields ih =>
    obtain ⟨k, v⟩ := f
    rw [List.map_cons, List.nodup_cons] at hnodup
    have hcons : appendItem key x ((k, v) :: fields) =
        (k, if k = key then v.push x else v) :: appendItem key x fields := by
      rw [appendItem_eq, appendItem_eq, List.map_cons]
    rw [hcons, total_cons, total_cons]
    rw [Assoc.lookup_cons] at hlist
    by_cases hk : k = key
    · subst hk
      rw [if_pos rfl] at hlist
      obtain rfl := Option.some.inj hlist
      rw [appendItem_of_notMem hnodup.1, if_pos rfl]
      by_cases hP : P k <;> simp [hP, Value.push, Value.size]
      omega
    · rw [if_neg (Ne.symm hk)] at hlist
      rw [ih hnodup.2 hlist, if_neg hk, Nat.add_assoc]

/-- What a run adds to the lists under some keys is what it credits them with. -/
theorem total_run {ks : List Kind} {s t : Reading} (hs : s.Sound) (h : run ks s = some t) :
    total P t.fields = total P s.fields + credits P s.current ks := by
  induction ks generalizing s with
  | nil =>
    obtain rfl := Option.some.inj h
    rfl
  | cons k ks ih =>
    obtain ⟨m, hstep, hrun⟩ := run_cons_eq_some_iff.mp h
    rw [ih (hs.step hstep) hrun]
    cases k with
    | blank => obtain rfl := Option.some.inj hstep; rfl
    | item raw =>
      obtain ⟨key, hkey, rfl⟩ := step_item_eq_some_iff.mp hstep
      obtain ⟨items, hitems⟩ := hs.current key hkey
      rw [total_appendItem P hs.nodup hitems, credits, hkey]
      simp [Nat.add_assoc]
    | field key raw =>
      obtain ⟨-, rfl⟩ := step_field_eq_some_iff.mp hstep
      have hsize : (fieldValue raw).size = 0 := by
        unfold fieldValue
        split <;> rfl
      rw [total_append, total_cons, credits, hsize]
      simp [total]
    | bad => cases hstep

theorem total_not (fields : Fields) :
    total (fun _ => True) fields = total P fields + total (fun k => ¬ P k) fields := by
  induction fields with
  | nil => rfl
  | cons f fields ih =>
    rw [total_cons, total_cons, total_cons, ih]
    by_cases h : P f.1 <;> simp [h] <;> omega

/-- The number of items under some keys depends on what is read there only. -/
theorem total_congr {f g : Fields} (hf : (f.map (·.1)).Nodup) (hg : (g.map (·.1)).Nodup)
    (h : ∀ k, P k → f.lookup k = g.lookup k) : total P f = total P g := by
  have hmem : ∀ e, e ∈ f.filter (fun e => P e.1) ↔ e ∈ g.filter (fun e => P e.1) := by
    rintro ⟨k, v⟩
    rw [List.mem_filter, List.mem_filter, Assoc.mem_iff_lookup hf, Assoc.mem_iff_lookup hg]
    by_cases hP : P k
    · rw [h k hP]
    · simp [hP]
  have hperm : (f.filter fun e => P e.1).Perm (g.filter fun e => P e.1) :=
    (List.perm_ext_iff_of_nodup (hf.of_map _ |>.filter _) (hg.of_map _ |>.filter _)).mpr hmem
  exact (hperm.map _).sum_nat

end Totals

end Saipen.State
