import Saipen.State.Emit

/-! # The law of the STATE writers

A patched text has the fields of the old one with the owned values in place of theirs, and a text
without some fields has the others. The writers go by lines that begin with an owned name and by the
items right behind them; the law holds exactly when those are the lines of the owned fields. -/

namespace Saipen.State

open Text

/-! ### Which lines are dropped -/

/-- The lines of a body with whether a writer drops them: it drops the lines that begin with an owned
name, and the items right behind one that `items` says it drops them of. -/
def dropMarks (owned : List String) (items : String → String → Bool) (skipping : Bool) :
    List String → List (Bool × String)
  | [] => []
  | line :: lines =>
      if skipping && (itemLine line).isSome then (true, line) :: dropMarks owned items true lines
      else
        match fieldLine line with
        | some (key, raw) =>
            if key ∈ owned then (true, line) :: dropMarks owned items (items key raw) lines
            else (false, line) :: dropMarks owned items false lines
        | none => (false, line) :: dropMarks owned items false lines

/-- The kinds of the reader's lines, each with what happens to its line. -/
def markKinds (marks : List (Bool × String)) : List (Bool × Kind) :=
  marks.flatMap fun d => (kindsOf d.2).map (d.1, ·)

/-- `patch_state` drops the items of fields that are set to a list, `remove_state_fields` those of
fields without a scalar. The reader's lines behind the opening fence are dropped by both. -/
def patchMarks (text : String) (owned : List (String × Owned)) : List (Bool × Kind) :=
  (openingRest text).map (fun line => (true, kind line)) ++
    markKinds (dropMarks (owned.map (·.1))
      (fun key _ => (owned.lookup key).any Owned.isList) false (bodyLines text))

def removeMarks (text : String) (keys : List String) : List (Bool × Kind) :=
  (openingRest text).map (fun line => (true, kind line)) ++
    markKinds (dropMarks keys (fun _ raw => raw = "") false (bodyLines text))

/-- When both writers keep the law: they find the opening fence, the owned fields can be written, and
the lines dropped are, as the reader has it, those of the owned fields. -/
structure Sound (text : String) (owned : List (String × Owned)) (keys : List String) : Prop where
  opening : startsWith text "---" = true
  names : ∀ f ∈ owned, IsName f.1
  values : ∀ f ∈ owned, ∃ x, f.2.value? = some x
  patch : Belong (· ∈ owned.map (·.1)) none (patchMarks text owned)
  remove : Belong (· ∈ keys) none (removeMarks text keys)

/-! ### The law -/

/-- The patched text is read as the old fields with the owned values, and goes on as before behind the
closing fence. -/
def PatchLaw (p : Printable) (text : String) (owned : List (String × Owned)) (fields : Fields) : Prop :=
  ∃ out fields', patchState p text owned = .ok out ∧ parseFrontmatter p out = .ok fields' ∧
    (∀ f ∈ owned, ∃ x, f.2.value? = some x ∧ fields'.lookup f.1 = some x) ∧
    (∀ k, k ∉ owned.map (·.1) → fields'.lookup k = fields.lookup k) ∧
    suffixLines out = suffixLines text

/-- The text without some fields. -/
def RemoveLaw (p : Printable) (text : String) (keys : List String) (fields : Fields) : Prop :=
  ∃ out fields', removeStateFields p text keys = .ok out ∧ parseFrontmatter p out = .ok fields' ∧
    (∀ k ∈ keys, fields'.lookup k = none) ∧
    (∀ k, k ∉ keys → fields'.lookup k = fields.lookup k) ∧
    suffixLines out = suffixLines text

/-! ### Scripts of the writers -/

/-- Edits that a writer makes, up to blank lines, with what it writes behind them. -/
structure Scripted (old : List Kind) (marks : List (Bool × Kind)) (skipping : Bool) (out : List Kind)
    (new : Fields) (es : List Edit) (ws : List Written) : Prop where
  before : es.map (·.before) = old
  mark : es.map (·.mark) = marks
  covered : ∀ dropping, (skipping = true → dropping = true) → Covered dropping es
  after : es.flatMap (·.after) ++ ws.flatMap (·.kinds) = out
  new : ((written es ++ ws).map (·.entry)).Perm new

theorem Scripted.perm {old : List Kind} {marks : List (Bool × Kind)} {skipping : Bool} {out : List Kind}
    {new new' : Fields} {es : List Edit} {ws : List Written}
    (h : Scripted old marks skipping out new es ws) (hperm : new.Perm new') :
    Scripted old marks skipping out new' es ws :=
  { h with new := h.new.trans hperm }

theorem covered_kept {es : List Edit} (h : ∀ dropping, Covered dropping es) (ks : List Kind) :
    ∀ dropping, Covered dropping (ks.map .kept ++ es) := by
  induction ks with
  | nil => exact h
  | cons k ks ih =>
    intro dropping
    cases k <;> exact ih _

theorem covered_dropped {es : List Edit} (h : Covered true es) (ks : List Kind) :
    Covered true (ks.map .dropped ++ es) := by
  induction ks with
  | nil => exact h
  | cons k ks ih =>
    cases k with
    | item raw => exact ⟨rfl, ih⟩
    | blank => exact ih
    | field key raw => exact ih
    | bad => exact ih

theorem written_append (es es' : List Edit) : written (es ++ es') = written es ++ written es' :=
  List.filterMap_append

section Edits

variable {old : List Kind} {marks : List (Bool × Kind)} {skipping : Bool} {out : List Kind}
  {new : Fields} {es : List Edit} {ws : List Written}

/-- A line is kept. -/
theorem Scripted.kept (h : Scripted old marks false out new es ws) (ks : List Kind) (skipping : Bool) :
    Scripted (ks ++ old) (ks.map (false, ·) ++ marks) skipping (ks ++ out) new (ks.map .kept ++ es) ws where
  before := by rw [List.map_append, h.before, List.map_map]; simp [Function.comp_def, Edit.before]
  mark := by rw [List.map_append, h.mark, List.map_map]; rfl
  covered := fun dropping _ => covered_kept (fun d => h.covered d (fun h => nomatch h)) ks dropping
  after := by
    rw [List.flatMap_append, List.append_assoc, h.after, List.flatMap_map]
    simp [Edit.after]
  new := by
    have hnone : written (ks.map .kept) = [] := by
      rw [written, List.filterMap_map]
      exact List.filterMap_eq_nil_iff.mpr fun k _ => rfl
    rw [written_append, hnone]
    exact h.new

/-- Lines are dropped behind a line that is dropped. -/
theorem Scripted.skipped {rest : Bool} (h : Scripted old marks rest out new es ws) (ks : List Kind) :
    Scripted (ks ++ old) (ks.map (true, ·) ++ marks) true out new (ks.map .dropped ++ es) ws where
  before := by rw [List.map_append, h.before, List.map_map]; simp [Function.comp_def, Edit.before]
  mark := by rw [List.map_append, h.mark, List.map_map]; rfl
  covered := fun dropping hd => by
    rw [hd rfl]
    exact covered_dropped (h.covered true fun _ => rfl) ks
  after := by
    rw [List.flatMap_append, List.append_assoc, h.after, List.flatMap_map]
    simp [Edit.after]
  new := by
    have hnone : written (ks.map .dropped) = [] := by
      rw [written, List.filterMap_map]
      exact List.filterMap_eq_nil_iff.mpr fun k _ => rfl
    rw [written_append, hnone]
    exact h.new

/-- A line that begins a field is dropped. -/
theorem Scripted.dropped {rest : Bool} (h : Scripted old marks rest out new es ws) (key raw : String)
    (ks : List Kind) (skipping : Bool) :
    Scripted (.field key raw :: ks ++ old) ((.field key raw :: ks).map (true, ·) ++ marks) skipping out
      new ((.field key raw :: ks).map .dropped ++ es) ws where
  before := by rw [List.map_append, h.before, List.map_map]; simp [Function.comp_def, Edit.before]
  mark := by rw [List.map_append, h.mark, List.map_map]; rfl
  covered := fun _ _ => covered_dropped (h.covered true fun _ => rfl) ks
  after := by
    rw [List.flatMap_append, List.append_assoc, h.after, List.flatMap_map]
    simp [Edit.after]
  new := by
    have hnone : written ((Kind.field key raw :: ks).map .dropped) = [] := by
      rw [written, List.filterMap_map]
      exact List.filterMap_eq_nil_iff.mpr fun k _ => rfl
    rw [written_append, hnone]
    exact h.new

/-- A line that begins a field is replaced. -/
theorem Scripted.replaced {rest : Bool} (h : Scripted old marks rest out new es ws) (raw : String)
    (w : Written) (ks : List Kind) (skipping : Bool) :
    Scripted (.field w.key raw :: ks ++ old) ((.field w.key raw :: ks).map (true, ·) ++ marks) skipping
      (w.kinds ++ out) (w.entry :: new) (.replaced raw w :: ks.map .dropped ++ es) ws where
  before := by
    rw [List.map_append, h.before, List.map_cons, List.map_map]
    simp [Function.comp_def, Edit.before]
  mark := by rw [List.map_append, h.mark, List.map_cons, List.map_map]; rfl
  covered := fun _ _ => covered_dropped (h.covered true fun _ => rfl) ks
  after := by
    rw [List.flatMap_append, List.append_assoc, h.after, List.flatMap_cons, List.flatMap_map]
    simp [Edit.after]
  new := by
    have hone : written (.replaced raw w :: ks.map .dropped) = [w] := by
      have hnone : written (ks.map .dropped) = [] := by
        rw [written, List.filterMap_map]
        exact List.filterMap_eq_nil_iff.mpr fun k _ => rfl
      exact congrArg (w :: ·) hnone
    rw [written_append, hone]
    exact h.new.cons _

end Edits

theorem markKinds_cons (d : Bool) (line : String) (marks : List (Bool × String)) :
    markKinds ((d, line) :: marks) = (kindsOf line).map (d, ·) ++ markKinds marks := List.flatMap_cons ..

/-- The edits of `remove_state_fields`. -/
theorem remove_script {keys : List String} (lines : List String) : ∀ skipping : Bool, ∃ es,
    Scripted (lines.flatMap kindsOf)
      (markKinds (dropMarks keys (fun _ raw => raw = "") skipping lines)) skipping
      ((removeBody keys skipping lines).flatMap kindsOf) [] es [] := by
  induction lines with
  | nil => exact fun _ => ⟨[], ⟨rfl, rfl, fun _ _ => trivial, rfl, List.Perm.refl _⟩⟩
  | cons line lines ih =>
    intro skipping
    rw [removeBody, dropMarks, List.flatMap_cons]
    split
    case isTrue hskip =>
      obtain ⟨es, h⟩ := ih true
      rw [Bool.and_eq_true] at hskip
      rw [markKinds_cons, hskip.1]
      exact ⟨_, h.skipped (kindsOf line)⟩
    case isFalse =>
      cases hfield : fieldLine line with
      | none =>
        obtain ⟨es, h⟩ := ih false
        dsimp only
        rw [markKinds_cons, List.flatMap_cons]
        exact ⟨_, h.kept (kindsOf line) skipping⟩
      | some f =>
        obtain ⟨key, raw⟩ := f
        dsimp only
        split
        case isTrue =>
          obtain ⟨es, h⟩ := ih (raw = "")
          obtain ⟨raw', ks, hkinds⟩ := kindsOf_of_fieldLine hfield
          rw [markKinds_cons, hkinds]
          exact ⟨_, h.dropped key raw' ks skipping⟩
        case isFalse =>
          obtain ⟨es, h⟩ := ih false
          rw [markKinds_cons, List.flatMap_cons]
          exact ⟨_, h.kept (kindsOf line) skipping⟩

theorem removeBody_sublist (keys : List String) (lines : List String) :
    ∀ skipping : Bool, (removeBody keys skipping lines).Sublist lines := by
  induction lines with
  | nil => exact fun _ => List.Sublist.refl _
  | cons line lines ih =>
    intro skipping
    rw [removeBody]
    split
    · exact (ih true).cons _
    · split
      · split
        · exact (ih _).cons _
        · exact (ih _).cons_cons _
      · exact (ih _).cons_cons _

/-! ### Owned fields -/

/-- The fields that are written: their names are names, and their values are values of the reader. -/
def Proper (owned : List (String × Owned)) : Prop := ∀ f ∈ owned, IsName f.1 ∧ ∃ x, f.2.value? = some x

/-- The fields an operation sets, as the reader has them. -/
def newFields (owned : List (String × Owned)) : Fields :=
  owned.map fun f => (f.1, f.2.value?.getD (.list []))

theorem keys_newFields (owned : List (String × Owned)) : (newFields owned).map (·.1) = owned.map (·.1) :=
  List.map_map ..

/-- Taking a field out of the pending ones. -/
theorem perm_without {pending : List (String × Owned)} (hnodup : (pending.map (·.1)).Nodup) {key : String}
    {v : Owned} (h : pending.lookup key = some v) : ((key, v) :: without key pending).Perm pending := by
  induction pending with
  | nil => cases h
  | cons f pending ih =>
    obtain ⟨k, w⟩ := f
    rw [List.map_cons, List.nodup_cons] at hnodup
    rw [Assoc.lookup_cons] at h
    split at h
    case isTrue hk =>
      obtain rfl := Option.some.inj h
      subst hk
      have hall : without key pending = pending := by
        refine List.filter_eq_self.mpr fun e he => ?_
        have hne : e.1 ≠ key := fun heq => hnodup.1 (heq ▸ List.mem_map_of_mem (f := (·.1)) he)
        simpa using hne
      rw [without, List.filter_cons_of_neg (by simp), ← without, hall]
    case isFalse hk =>
      rw [without, List.filter_cons_of_pos (by simpa using Ne.symm hk), ← without]
      exact (List.Perm.swap ..).trans ((ih hnodup.2 h).cons _)

theorem lookup_without (key : String) (pending : List (String × Owned)) (k : String) :
    (without key pending).lookup k = if k = key then none else pending.lookup k := by
  induction pending with
  | nil => simp [without]
  | cons f pending ih =>
    obtain ⟨l, v⟩ := f
    by_cases hl : l = key
    · subst hl
      rw [without, List.filter_cons_of_neg (by simp), ← without, ih, Assoc.lookup_cons]
      split <;> rfl
    · rw [without, List.filter_cons_of_pos (by simpa using hl), ← without, Assoc.lookup_cons, ih,
        Assoc.lookup_cons]
      by_cases hk : k = l
      · simp [hk, hl]
      · simp [hk]

theorem emit_all {pending : List (String × Owned)} : ∀ {blocks : List (List String)}, Proper pending →
    (pending.mapM fun f => emitBlock f.1 f.2) = .ok blocks →
    ∃ ws : List Written, ws.map (·.entry) = newFields pending ∧
      ws.flatMap (·.kinds) = blocks.flatten.flatMap kindsOf ∧ ∀ m ∈ blocks.flatten, Inner m := by
  induction pending with
  | nil =>
    intro blocks _ h
    obtain rfl := Except.ok.inj h
    exact ⟨[], rfl, rfl, fun _ h => nomatch h⟩
  | cons f pending ih =>
    intro blocks hproper h
    rw [List.mapM_cons] at h
    cases hblock : emitBlock f.1 f.2 with
    | error e => simp [hblock, bind, Except.bind] at h
    | ok block =>
      cases hrest : pending.mapM fun f => emitBlock f.1 f.2 with
      | error e => simp [hblock, hrest, bind, Except.bind] at h
      | ok rest =>
        obtain rfl : block :: rest = blocks := by
          simpa [hblock, hrest, bind, Except.bind, pure, Except.pure] using h
        obtain ⟨hname, x, hx⟩ := hproper f List.mem_cons_self
        obtain ⟨w, hentry, hkinds, hinner⟩ := written_of_emitBlock hname hblock hx
        obtain ⟨ws, hentries, hkindss, hinners⟩ := ih (fun g hg => hproper g (List.mem_cons_of_mem _ hg)) hrest
        refine ⟨w :: ws, ?_, ?_, ?_⟩
        · rw [List.map_cons, hentries, hentry, newFields, newFields, List.map_cons, hx, Option.getD_some]
        · rw [List.flatMap_cons, hkinds, hkindss, List.flatten_cons, List.flatMap_append]
        · intro m hm
          rw [List.flatten_cons, List.mem_append] at hm
          exact hm.elim (hinner m) (hinners m)

/-- The edits of `patch_state`: what is pending, and what was owned and has been written, are told
apart by the fields read so far. -/
theorem patch_script {owned : List (String × Owned)} (lines : List String) :
    ∀ {pending : List (String × Owned)} {skipping : Bool} {out : List String} {s t : Reading},
    run (lines.flatMap kindsOf) s = some t → patchBody pending skipping lines = .ok out →
    (pending.map (·.1)).Nodup → Proper pending →
    (∀ k, pending.lookup k = owned.lookup k ∨ pending.lookup k = none ∧ k ∈ s.fields.map (·.1)) →
    (∀ m ∈ lines, Inner m) →
    ∃ es ws, Scripted (lines.flatMap kindsOf)
        (markKinds (dropMarks (owned.map (·.1)) (fun key _ => (owned.lookup key).any Owned.isList)
          skipping lines)) skipping (out.flatMap kindsOf) (newFields pending) es ws ∧
      ∀ m ∈ out, Inner m := by
  induction lines with
  | nil =>
    intro pending skipping out s t _ hpatch _ hproper _ _
    cases hblocks : pending.mapM fun f => emitBlock f.1 f.2 with
    | error e => simp [patchBody, hblocks, bind, Except.bind] at hpatch
    | ok blocks =>
      obtain rfl : blocks.flatten = out := by
        simpa [patchBody, hblocks, bind, Except.bind, pure, Except.pure] using hpatch
      obtain ⟨ws, hentries, hkinds, hinner⟩ := emit_all hproper hblocks
      refine ⟨[], ws, ⟨rfl, rfl, fun _ _ => trivial, hkinds, ?_⟩, hinner⟩
      rw [← hentries]
      exact List.Perm.refl _
  | cons line lines ih =>
    intro pending skipping out s t hrun hpatch hnodup hproper hpending hinner
    rw [List.flatMap_cons] at hrun
    obtain ⟨m, hline, hrest⟩ := run_append_eq_some_iff.mp hrun
    have hinner' : ∀ m ∈ lines, Inner m := fun m hm => hinner m (List.mem_cons_of_mem _ hm)
    have hkeys : ∀ k, k ∈ s.fields.map (·.1) → k ∈ m.fields.map (·.1) := fun k hk => by
      rw [keys_run hline]
      exact List.mem_append_left _ hk
    have hpending' : ∀ k, pending.lookup k = owned.lookup k ∨
        pending.lookup k = none ∧ k ∈ m.fields.map (·.1) :=
      fun k => (hpending k).imp_right fun h => ⟨h.1, hkeys k h.2⟩
    rw [patchBody] at hpatch
    rw [dropMarks, List.flatMap_cons]
    split at hpatch
    case isTrue hskip =>
      rw [if_pos hskip]
      obtain ⟨es, ws, h, hout⟩ := ih hrest hpatch hnodup hproper hpending' hinner'
      rw [Bool.and_eq_true] at hskip
      rw [markKinds_cons, hskip.1]
      exact ⟨_, ws, h.skipped (kindsOf line), hout⟩
    case isFalse hskip =>
      rw [if_neg hskip]
      cases hat : pendingAt line pending with
      | some f =>
        obtain ⟨⟨key, raw⟩, hfield, hbind⟩ := Option.bind_eq_some_iff.mp hat
        obtain ⟨v, hlookup, heq⟩ := Option.bind_eq_some_iff.mp hbind
        obtain rfl : (key, v) = f := Option.some.inj heq
        rw [hat] at hpatch
        obtain ⟨hname, x, hx⟩ := hproper (key, v) ((Assoc.mem_iff_lookup hnodup key v).mpr hlookup)
        cases hblock : emitBlock key v with
        | error e => simp [hblock, bind, Except.bind] at hpatch
        | ok block =>
          cases hbody : patchBody (without key pending) v.isList lines with
          | error e => simp [hblock, hbody, bind, Except.bind] at hpatch
          | ok rest =>
            obtain rfl : block ++ rest = out := by
              simpa [hblock, hbody, bind, Except.bind, pure, Except.pure] using hpatch
            obtain ⟨raw', ks, hkinds⟩ := kindsOf_of_fieldLine hfield
            obtain ⟨w, hentry, hwkinds, hblockinner⟩ := written_of_emitBlock hname hblock hx
            have howned : owned.lookup key = some v := by
              rcases hpending key with h | ⟨h, -⟩
              · rw [← h, hlookup]
              · rw [h] at hlookup
                cases hlookup
            have hperm := perm_without hnodup hlookup
            have hread : key ∈ m.fields.map (·.1) := by
              rw [keys_run hline, hkinds]
              simp [keysOf, keyOf]
            obtain ⟨es, ws, h, hout⟩ := ih hrest hbody
              (hnodup.sublist (List.filter_sublist.map _))
              (fun f hf => hproper f (List.mem_of_mem_filter hf))
              (fun k => by
                rw [lookup_without]
                split
                case isTrue hk => exact .inr ⟨rfl, hk ▸ hread⟩
                case isFalse => exact hpending' k) hinner'
            have hitems : (owned.lookup key).any Owned.isList = v.isList := by
              rw [howned]
              rfl
            have hmem : key ∈ owned.map (·.1) := by
              by_contra hnone
              rw [Assoc.notMem_iff_lookup, howned] at hnone
              cases hnone
            have hkey : w.key = key := congrArg Prod.fst hentry
            have hnew : (w.entry :: newFields (without key pending)).Perm (newFields pending) := by
              have hmap := hperm.map fun f => (f.1, f.2.value?.getD (.list []))
              rw [List.map_cons, hx, Option.getD_some, ← hentry] at hmap
              exact hmap
            have hscript := (h.replaced raw' w ks skipping).perm hnew
            rw [hfield]
            dsimp only
            rw [if_pos hmem, hitems, markKinds_cons, hkinds, List.flatMap_append, ← hwkinds]
            rw [hkey] at hscript
            exact ⟨_, ws, hscript, fun m hm => (List.mem_append.mp hm).elim (hblockinner m) (hout m)⟩
      | none =>
        rw [hat] at hpatch
        cases hbody : patchBody pending false lines with
        | error e => simp [hbody, bind, Except.bind] at hpatch
        | ok rest =>
          obtain rfl : line :: rest = out := by
            simpa [hbody, bind, Except.bind, pure, Except.pure] using hpatch
          obtain ⟨es, ws, h, hout⟩ := ih hrest hbody hnodup hproper hpending' hinner'
          have hscript := h.kept (kindsOf line) skipping
          have hout' : ∀ m ∈ line :: rest, Inner m :=
            List.forall_mem_cons.mpr ⟨hinner line List.mem_cons_self, hout⟩
          rw [List.flatMap_cons]
          cases hfield : fieldLine line with
          | none => exact ⟨_, ws, by rw [markKinds_cons]; exact hscript, hout'⟩
          | some f =>
            obtain ⟨key, raw⟩ := f
            obtain ⟨raw', ks, hkinds⟩ := kindsOf_of_fieldLine hfield
            have hlookup : pending.lookup key = none := by
              by_contra hsome
              obtain ⟨v, hv⟩ := Option.ne_none_iff_exists'.mp hsome
              rw [pendingAt, hfield] at hat
              simp [hv] at hat
            -- an owned field that is no longer pending has been read before
            have hmem : key ∉ owned.map (·.1) := by
              rcases hpending key with hsame | ⟨-, hread⟩
              · rw [Assoc.notMem_iff_lookup, ← hsame, hlookup]
              · rw [hkinds] at hline
                obtain ⟨s', hstep, -⟩ := run_cons_eq_some_iff.mp hline
                exact absurd hread (step_field_eq_some_iff.mp hstep).1
            dsimp only
            rw [if_neg hmem, markKinds_cons]
            exact ⟨_, ws, hscript, hout'⟩

/-! ### The law and its condition -/

theorem lookup_perm {f g : Fields} (h : f.Perm g) (hnodup : (g.map (·.1)).Nodup) (k : String) :
    f.lookup k = g.lookup k := by
  have hf : (f.map (·.1)).Nodup := (h.map _).nodup_iff.mpr hnodup
  refine Option.ext fun v => ?_
  rw [← Assoc.mem_iff_lookup hf, ← Assoc.mem_iff_lookup hnodup]
  exact h.mem_iff

theorem patchBody_ok {lines : List String} : ∀ {pending : List (String × Owned)} {skipping : Bool},
    (∀ f ∈ pending, ∃ block, emitBlock f.1 f.2 = .ok block) →
    ∃ out, patchBody pending skipping lines = .ok out := by
  induction lines with
  | nil =>
    intro pending skipping h
    have hblocks : ∃ blocks, (pending.mapM fun f => emitBlock f.1 f.2) = .ok blocks := by
      induction pending with
      | nil => exact ⟨[], rfl⟩
      | cons f pending ih =>
        obtain ⟨block, hblock⟩ := h f List.mem_cons_self
        obtain ⟨blocks, hblocks⟩ := ih fun g hg => h g (List.mem_cons_of_mem _ hg)
        exact ⟨block :: blocks, by rw [List.mapM_cons, hblock, hblocks]; rfl⟩
    obtain ⟨blocks, hblocks⟩ := hblocks
    exact ⟨blocks.flatten, by rw [patchBody, hblocks]; rfl⟩
  | cons line lines ih =>
    intro pending skipping h
    rw [patchBody]
    split
    · exact ih h
    · cases hat : pendingAt line pending with
      | none =>
        obtain ⟨rest, hrest⟩ := @ih pending false h
        exact ⟨line :: rest, by rw [hrest]; rfl⟩
      | some f =>
        obtain ⟨key, v⟩ := f
        obtain ⟨⟨key', raw⟩, -, hbind⟩ := Option.bind_eq_some_iff.mp hat
        obtain ⟨v', hlookup, heq⟩ := Option.bind_eq_some_iff.mp hbind
        obtain ⟨rfl, rfl⟩ := Prod.mk.inj (Option.some.inj heq)
        have hmem : (key', v') ∈ pending := by
          obtain ⟨l, r, rfl, -⟩ := List.lookup_eq_some_iff.mp hlookup
          simp
        obtain ⟨block, hblock⟩ := h _ hmem
        obtain ⟨rest, hrest⟩ := @ih (without key' pending) v'.isList fun f hf =>
          h f (List.mem_of_mem_filter hf)
        exact ⟨block ++ rest, by dsimp only; rw [hblock, hrest]; rfl⟩

/-- The keys a text is read with are names. -/
theorem names_of_parse {p : Printable} {text : String} {fields : Fields}
    (h : parseFrontmatter p text = .ok fields) : ∀ k ∈ fields.map (·.1), IsName k := by
  intro k hk
  unfold parseFrontmatter at h
  split at h
  case h_1 first lines _ =>
    split at h
    case isTrue =>
      have hsome : (readLines p 2 lines {}).toOption = some fields := by rw [h]; rfl
      rw [readLines_toOption] at hsome
      split at hsome
      · obtain ⟨t, hrun, rfl⟩ := Option.map_eq_some_iff.mp hsome
        rw [keys_run hrun] at hk
        obtain ⟨k', hk', hkey⟩ := List.mem_filterMap.mp hk
        obtain ⟨line, -, rfl⟩ := List.mem_map.mp hk'
        unfold kind at hkey
        split at hkey
        · cases hkey
        · split at hkey
          · cases hkey
          · split at hkey
            case h_1 key raw hfield =>
              obtain rfl := Option.some.inj hkey
              exact (fieldLine_eq_some_iff.mp hfield).1
            case h_2 => cases hkey
      · cases hsome
    case isFalse => cases h
  case h_2 => cases h

section Text

variable {p : Printable} {text : String} {fields : Fields}

theorem requireFrontmatter_ok {close : String} {more : List String}
    (hstart : startsWith text "---" = true) (hparse : parseFrontmatter p text = .ok fields)
    (hsuffix : suffixLines text = close :: more) : requireFrontmatter p text = .ok () := by
  have hne : text ≠ "" := by
    rintro rfl
    exact absurd hstart (by decide)
  simp [requireFrontmatter, hne, hstart, hparse, hsuffix]

theorem opening_of_requireFrontmatter (h : requireFrontmatter p text = .ok ()) :
    startsWith text "---" = true := by
  unfold requireFrontmatter at h
  split at h
  case isTrue => cases h
  case isFalse hcond =>
    simp only [Bool.or_eq_true, decide_eq_true_eq, Bool.not_eq_true', not_or,
      Bool.not_eq_false] at hcond
    exact hcond.2

theorem inner_bodyLines (hsame : SameFence text) : ∀ m ∈ bodyLines text, Inner m := by
  intro m hm
  refine ⟨?_, fun line hline => hsame line (List.mem_append_right _ (List.mem_flatMap.mpr ⟨m, hm, hline⟩))⟩
  have hmem : m ∈ split '\n' text := List.mem_of_mem_tail ((List.takeWhile_prefix _).subset hm)
  obtain ⟨cs, hcs, rfl⟩ := List.mem_map.mp hmem
  rw [String.toList_ofList]
  exact (mem_splitOn hcs).1

/-- The text a script leads to, and the law it is under. -/
theorem law_iff {owned : String → Prop} [DecidablePred owned] {new : Fields} {t : Reading}
    {close : String} {more out : List String} {marks : List (Bool × Kind)} {es : List Edit}
    {ws : List Written} (hsuffix : suffixLines text = close :: more) (hclose : isFence close = true)
    (hrun : run (frontKinds text) {} = some t)
    (hscript : Scripted (frontKinds text) marks true (out.flatMap kindsOf) new es ws)
    (hout : ∀ m ∈ out, Inner m) (howned : ∀ f ∈ new, owned f.1) (hnodup : (new.map (·.1)).Nodup) :
    (∃ fields', parseFrontmatter p (assemble out (suffixLines text)) = .ok fields' ∧
      Law owned new t.fields fields') ∧
        suffixLines (assemble out (suffixLines text)) = suffixLines text ↔ Belong owned none marks := by
  have hlines : ∀ m ∈ out ++ close :: more, '\n' ∉ m.toList := by
    intro m hm
    rcases List.mem_append.mp hm with hm | hm
    · exact (hout m hm).1
    · rw [← hsuffix] at hm
      have hmem : m ∈ split '\n' text := List.mem_of_mem_tail ((List.dropWhile_suffix _).subset hm)
      obtain ⟨cs, hcs, rfl⟩ := List.mem_map.mp hmem
      rw [String.toList_ofList]
      exact (mem_splitOn hcs).1
  have hfence : ∀ line ∈ out.flatMap fullLines, isFence line = false := by
    intro line hline
    obtain ⟨m, hm, hline⟩ := List.mem_flatMap.mp hline
    exact (hout m hm).2 line hline
  obtain ⟨hparse, hsuffix'⟩ := parse_assemble p hlines hfence hclose
  rw [hsuffix]
  have hkeys : ((written es ++ ws).map (·.key)).Nodup := by
    rw [← keys_entry]
    exact (hscript.new.map _).nodup_iff.mpr hnodup
  have hP : ∀ w ∈ written es ++ ws, owned w.key := fun w hw =>
    howned w.entry (hscript.new.mem_iff.mp (List.mem_map_of_mem hw))
  have hnew := fun k => lookup_perm hscript.new hnodup k
  have hbefore : run (es.map (·.before)) {} = some t := by rw [hscript.before, hrun]
  constructor
  · rintro ⟨⟨fields', hread, hlaw⟩, -⟩
    rw [hread] at hparse
    obtain ⟨t', hrun', rfl⟩ := Option.map_eq_some_iff.mp hparse.symm
    rw [← hscript.mark]
    refine belong_of_law hbefore (hscript.covered true fun _ => rfl) hP hkeys hnew ?_ hlaw
    rw [hscript.after, hrun']
  · intro hbelong
    refine ⟨?_, hsuffix'⟩
    rw [← hscript.mark] at hbelong
    obtain ⟨t', hrun', hlaw⟩ := law_of_belong hbelong hbefore hP hkeys hnew
    rw [hscript.after] at hrun'
    rw [hrun', Option.map_some] at hparse
    cases hread : parseFrontmatter p (assemble out (close :: more)) with
    | error e =>
      rw [hread] at hparse
      cases hparse
    | ok fields' =>
      rw [hread] at hparse
      exact ⟨fields', rfl, Option.some.inj hparse ▸ hlaw⟩

/-- When `patch_state` keeps its law. -/
theorem patchLaw_iff {owned : List (String × Owned)}
    (hparse : parseFrontmatter p text = .ok fields) (howned : (owned.map (·.1)).Nodup)
    (hemit : ∀ f ∈ owned, ∃ block, emitBlock f.1 f.2 = .ok block) (hsame : SameFence text) :
    PatchLaw p text owned fields ↔ startsWith text "---" = true ∧ Proper owned ∧
      Belong (· ∈ owned.map (·.1)) none (patchMarks text owned) := by
  obtain ⟨out, hout⟩ := @patchBody_ok (bodyLines text) owned false hemit
  have hnew : ∀ k v, owned.lookup k = some v →
      (newFields owned).lookup k = some (v.value?.getD (.list [])) := by
    intro k v hv
    rw [← Assoc.mem_iff_lookup (by rw [keys_newFields]; exact howned)]
    exact List.mem_map_of_mem ((Assoc.mem_iff_lookup howned k v).mpr hv)
  have hnames : ∀ f ∈ newFields owned, f.1 ∈ owned.map (·.1) := by
    intro f hf
    rw [← keys_newFields]
    exact List.mem_map_of_mem hf
  have hkeys : ((newFields owned).map (·.1)).Nodup := by
    rw [keys_newFields]
    exact howned
  -- what holds when the text begins with a fence and the fields can be written
  have hbelong : startsWith text "---" = true → Proper owned →
      (patchState p text owned = .ok (assemble out (suffixLines text)) ∧
        ((∃ fields', parseFrontmatter p (assemble out (suffixLines text)) = .ok fields' ∧
          Law (· ∈ owned.map (·.1)) (newFields owned) fields fields') ∧
            suffixLines (assemble out (suffixLines text)) = suffixLines text ↔
          Belong (· ∈ owned.map (·.1)) none (patchMarks text owned))) := by
    intro hstart hproper
    obtain ⟨close, more, t, hsuffix, hclose, hrun, rfl⟩ := accepted_parts hstart hparse hsame
    obtain ⟨m, hrest, hbody⟩ := run_append_eq_some_iff.mp hrun
    obtain ⟨es, ws, hscript, hinner⟩ := patch_script (bodyLines text) hbody hout howned hproper
      (fun k => .inl rfl) (inner_bodyLines hsame)
    have hall := hscript.skipped ((openingRest text).map kind)
    rw [List.map_map] at hall
    refine ⟨?_, law_iff hsuffix hclose hrun hall hinner hnames hkeys⟩
    simp [patchState, requireFrontmatter_ok hstart hparse hsuffix, hout, bind, Except.bind, pure,
      Except.pure]
  constructor
  · rintro ⟨text', fields', hpatch, hread, hset, hothers, hsuffix⟩
    have hstart : startsWith text "---" = true := by
      cases hreq : requireFrontmatter p text with
      | error e => simp [patchState, hreq, bind, Except.bind] at hpatch
      | ok u => exact opening_of_requireFrontmatter hreq
    have hproper : Proper owned := by
      intro f hf
      obtain ⟨x, hx, hlookup⟩ := hset f hf
      refine ⟨names_of_parse hread f.1 ?_, x, hx⟩
      by_contra hnone
      rw [Assoc.notMem_iff_lookup, hlookup] at hnone
      cases hnone
    obtain ⟨hpatch', hiff⟩ := hbelong hstart hproper
    obtain rfl := Except.ok.inj (hpatch.symm.trans hpatch')
    refine ⟨hstart, hproper, hiff.mp ⟨⟨fields', hread, fun k hk => ?_, hothers⟩, hsuffix⟩⟩
    obtain ⟨f, hf, rfl⟩ := List.mem_map.mp hk
    obtain ⟨x, hx, hlookup⟩ := hset f hf
    rw [hlookup, hnew f.1 f.2 ((Assoc.mem_iff_lookup howned _ _).mp hf), hx, Option.getD_some]
  · rintro ⟨hstart, hproper, hmarks⟩
    obtain ⟨hpatch, hiff⟩ := hbelong hstart hproper
    obtain ⟨⟨fields', hread, hlaw⟩, hsuffix⟩ := hiff.mpr hmarks
    refine ⟨_, fields', hpatch, hread, fun f hf => ?_, hlaw.2, hsuffix⟩
    obtain ⟨-, x, hx⟩ := hproper f hf
    refine ⟨x, hx, ?_⟩
    rw [hlaw.1 f.1 (List.mem_map_of_mem hf), hnew f.1 f.2 ((Assoc.mem_iff_lookup howned _ _).mp hf), hx,
      Option.getD_some]

/-- When `remove_state_fields` keeps its law. -/
theorem removeLaw_iff {keys : List String} (hparse : parseFrontmatter p text = .ok fields)
    (hsame : SameFence text) : RemoveLaw p text keys fields ↔ startsWith text "---" = true ∧
      Belong (· ∈ keys) none (removeMarks text keys) := by
  have hbelong : startsWith text "---" = true →
      (removeStateFields p text keys =
          .ok (assemble (removeBody keys false (bodyLines text)) (suffixLines text)) ∧
        ((∃ fields', parseFrontmatter p
              (assemble (removeBody keys false (bodyLines text)) (suffixLines text)) = .ok fields' ∧
            Law (· ∈ keys) [] fields fields') ∧
            suffixLines (assemble (removeBody keys false (bodyLines text)) (suffixLines text)) =
              suffixLines text ↔
          Belong (· ∈ keys) none (removeMarks text keys))) := by
    intro hstart
    obtain ⟨close, more, t, hsuffix, hclose, hrun, rfl⟩ := accepted_parts hstart hparse hsame
    obtain ⟨es, hscript⟩ := @remove_script keys (bodyLines text) false
    have hall := hscript.skipped ((openingRest text).map kind)
    rw [List.map_map] at hall
    have hinner : ∀ m ∈ removeBody keys false (bodyLines text), Inner m := fun m hm =>
      inner_bodyLines hsame m ((removeBody_sublist keys (bodyLines text) false).subset hm)
    refine ⟨?_, law_iff hsuffix hclose hrun hall hinner (fun _ h => nomatch h) List.nodup_nil⟩
    simp [removeStateFields, requireFrontmatter_ok hstart hparse hsuffix, bind, Except.bind, pure,
      Except.pure]
  constructor
  · rintro ⟨text', fields', hremove, hread, hgone, hothers, hsuffix⟩
    have hstart : startsWith text "---" = true := by
      cases hreq : requireFrontmatter p text with
      | error e => simp [removeStateFields, hreq, bind, Except.bind] at hremove
      | ok u => exact opening_of_requireFrontmatter hreq
    obtain ⟨hremove', hiff⟩ := hbelong hstart
    obtain rfl := Except.ok.inj (hremove.symm.trans hremove')
    exact ⟨hstart, hiff.mp ⟨⟨fields', hread, hgone, hothers⟩, hsuffix⟩⟩
  · rintro ⟨hstart, hmarks⟩
    obtain ⟨hremove, hiff⟩ := hbelong hstart
    obtain ⟨⟨fields', hread, hlaw⟩, hsuffix⟩ := hiff.mpr hmarks
    exact ⟨_, fields', hremove, hread, hlaw.1, hlaw.2, hsuffix⟩

end Text

/-- A STATE text is patched, and fields are removed from it, with nothing else changed exactly when the
lines the writers go by are the lines of the owned fields. -/
theorem state_patch_law {p : Printable} {text : String} {fields : Fields}
    {owned : List (String × Owned)} {keys : List String}
    (hparse : parseFrontmatter p text = .ok fields) (howned : (owned.map (·.1)).Nodup)
    (hemit : ∀ f ∈ owned, ∃ block, emitBlock f.1 f.2 = .ok block) (hsame : SameFence text) :
    PatchLaw p text owned fields ∧ RemoveLaw p text keys fields ↔ Sound text owned keys := by
  rw [patchLaw_iff hparse howned hemit hsame, removeLaw_iff hparse hsame]
  constructor
  · rintro ⟨⟨hstart, hproper, hpatch⟩, -, hremove⟩
    exact ⟨hstart, fun f hf => (hproper f hf).1, fun f hf => (hproper f hf).2, hpatch, hremove⟩
  · rintro ⟨hstart, hnames, hvalues, hpatch, hremove⟩
    exact ⟨⟨hstart, fun f hf => ⟨hnames f hf, hvalues f hf⟩, hpatch⟩, hstart, hremove⟩

/-- A list is replaced by a list, and a scalar is removed. -/
theorem state_patch_law_plan :
    PatchLaw samplePrintable "---\nplan:\n  - a\ngoal: b\n---\nc\n"
        [("plan", .list [.str "x y", .int 7])] [("plan", .list [.str "a"]), ("goal", .scalar (.str "b"))] ∧
      RemoveLaw samplePrintable "---\nplan:\n  - a\ngoal: b\n---\nc\n" ["goal"]
        [("plan", .list [.str "a"]), ("goal", .scalar (.str "b"))] := by
  have hpatch : patchMarks "---\nplan:\n  - a\ngoal: b\n---\nc\n"
      [("plan", .list [.str "x y", .int 7])] =
        [(true, .field "plan" ""), (true, .item "a"), (false, .field "goal" "b")] := by decide +kernel
  have hremove : removeMarks "---\nplan:\n  - a\ngoal: b\n---\nc\n" ["goal"] =
      [(false, .field "plan" ""), (false, .item "a"), (true, .field "goal" "b")] := by decide +kernel
  have hsame : SameFence "---\nplan:\n  - a\ngoal: b\n---\nc\n" := by
    unfold SameFence
    decide +kernel
  refine (state_patch_law (by decide +kernel) (by decide) ?_ hsame).mpr
    ⟨by decide +kernel, ?_, ?_, ?_, ?_⟩
  · rintro f hf
    obtain rfl := List.mem_singleton.mp hf
    exact ⟨["plan:", "  - \"x y\"", "  - 7"], by decide +kernel⟩
  · rintro f hf
    obtain rfl := List.mem_singleton.mp hf
    exact ⟨⟨'p', by decide, by decide⟩, List.all_eq_true.mp (by decide)⟩
  · rintro f hf
    obtain rfl := List.mem_singleton.mp hf
    exact ⟨.list [.str "x y", .int 7], by decide⟩
  · rw [hpatch]
    simp [Belong, fieldList]
  · rw [hremove]
    simp [Belong, fieldList]

/-- A list that becomes a scalar leaves its items behind, and the text can no longer be read. -/
theorem listed_plan_orphaned :
    parseFrontmatter samplePrintable "---\nplan:\n  - a\n---\n" = .ok [("plan", .list [.str "a"])] ∧
      emitBlock "plan" (.scalar (.str "x")) = .ok ["plan: x"] ∧
      ¬ PatchLaw samplePrintable "---\nplan:\n  - a\n---\n" [("plan", .scalar (.str "x"))]
        [("plan", .list [.str "a"])] := by
  refine ⟨by decide +kernel, by decide +kernel, ?_⟩
  rintro ⟨out, fields', hpatch, hread, -⟩
  have hout : patchState samplePrintable "---\nplan:\n  - a\n---\n" [("plan", .scalar (.str "x"))] =
      .ok "---\nplan: x\n  - a\n---\n" := by decide +kernel
  obtain rfl := Except.ok.inj (hpatch.symm.trans hout)
  have hnone : (parseFrontmatter samplePrintable "---\nplan: x\n  - a\n---\n").toOption = none := by
    decide +kernel
  rw [hread] at hnone
  cases hnone

end Saipen.State
